import ClassScript.Proofs.Similar.Programs

namespace ClassScript

open Binding

variable {R R' : OccurrencePairs} {wraps : Prop}
  {Γ : ScopePairs} {name name' : String} {d d' : Nat} {ρ : Equiv.Perm String} {names : List String}

namespace ScopePairs

theorem map_symm_map (ρ : Equiv.Perm String) (names : List String) :
    (names.map ρ).map ρ.symm = names := by
  simp

theorem left_swap (Γ : ScopePairs) : Γ.swap.left = Γ.right := by
  induction Γ with
  | nil => rfl
  | cons pair Γ ih => cases pair <;> simpa [swap, ScopePair.swap, left, right] using ih

theorem right_swap (Γ : ScopePairs) : Γ.swap.right = Γ.left := by
  induction Γ with
  | nil => rfl
  | cons pair Γ ih => cases pair <;> simpa [swap, ScopePair.swap, left, right] using ih

theorem Declares.swap (h : Γ.Declares name name') : Γ.swap.Declares name' name := by
  match Γ, h with
  | [], h => exact h.symm
  | .both ρ names :: Γ, h => rw [h]; exact (ρ.symm_apply_apply name).symm

theorem Declares.swap_declare (h : Γ.Declares name name') :
    (Γ.declare name).swap = Γ.swap.declare name' := by
  match Γ, h with
  | [], _ => rfl
  | .both ρ names :: Γ, h => rw [h]; rfl

theorem At.swap (h : At Γ d d' ρ names) : At Γ.swap d' d ρ.symm (names.map ρ) := by
  induction h with
  | here => exact .here
  | both _ ih => exact .both ih
  | left _ ih => exact .right ih
  | right _ ih => exact .left ih

theorem Meets.swap {found found' : Option Nat} (h : Meets Γ name name' found found') :
    Meets Γ.swap name' name found' found := by
  cases h with
  | global same => exact .global same.symm
  | @scope d d' ρ names place mem called =>
      subst called
      exact .scope place.swap (List.mem_map_of_mem mem) (ρ.symm_apply_apply name).symm

theorem Regular.swap (h : Γ.Regular) : Γ.swap.Regular := by
  induction h with
  | nil => exact .nil
  | @both Γ ρ names absent absent' _ ih =>
      exact .both absent' (by rwa [map_symm_map]) ih
  | left _ ih => exact .right ih
  | right _ ih => exact .left ih
  | methods _ ih => exact .methods ih

end ScopePairs

theorem SimilarPlain.swap_after {s s' : Stmt} (h : SimilarPlain R wraps Γ s s') :
    (Γ.after s).swap = Γ.swap.after s' := by
  cases h with
  | varDecl _ declares _ => exact declares.swap_declare
  | funDecl declares h | classDecl declares h =>
      rw [ScopePairs.after, ScopePairs.after, h.same_name]
      exact declares.swap_declare
  | _ => rfl

theorem SimilarStmt.swap_after {s s' : Stmt} (h : SimilarStmt R wraps Γ s s') :
    (Γ.after s).swap = Γ.swap.after s' := by
  cases h with
  | plain h => exact h.swap_after
  | wrapLeft line _ h =>
      have inner := h.swap_after
      cases h <;> first | rfl | contradiction
  | wrapRight line _ h =>
      obtain ⟨same, -⟩ := h.after_wrapped (.inr rfl) Γ Γ.left
      rw [same]
      rfl

def Turns (R R' : OccurrencePairs) : Prop :=
  ∀ {Γ o o' n n'}, R Γ o o' n n' → R' Γ.swap o' o n' n

mutual

theorem SimilarExpr.swap (turn : Turns R R') : {Γ : ScopePairs} → {e e' : Expr} →
    SimilarExpr R Γ e e' → SimilarExpr R' Γ.swap e' e
  | _, _, _, .literal value line => .literal value line
  | _, _, _, .grouping h => .grouping (h.swap turn)
  | _, _, _, .var h => .var (turn h)
  | _, _, _, .assign o h => .assign (turn o) (h.swap turn)
  | _, _, _, .logical operator l r => .logical operator (l.swap turn) (r.swap turn)
  | _, _, _, .binary operator l r => .binary operator (l.swap turn) (r.swap turn)
  | _, _, _, .unary operator h => .unary operator (h.swap turn)
  | _, _, _, .call paren h hs => .call paren (h.swap turn) (hs.swap turn)
  | _, _, _, .get name h => .get name (h.swap turn)
  | _, _, _, .set name h v => .set name (h.swap turn) (v.swap turn)
  | _, _, _, .this h => .this (turn h)
  | _, _, _, .super method h regular => .super method (turn h) regular.swap

theorem SimilarExprs.swap (turn : Turns R R') : {Γ : ScopePairs} → {es es' : List Expr} →
    SimilarExprs R Γ es es' → SimilarExprs R' Γ.swap es' es
  | _, _, _, .nil => .nil
  | _, _, _, .cons h hs => .cons (h.swap turn) (hs.swap turn)

end

theorem SimilarOptional.swap (turn : Turns R R') {e e' : Option Expr}
    (h : SimilarOptional R Γ e e') : SimilarOptional R' Γ.swap e' e := by
  cases h with
  | none => exact .none
  | some h => exact .some (h.swap turn)

theorem SimilarCondition.swap (turn : Turns R R') {c c' : Expr} (h : SimilarCondition R Γ c c') :
    SimilarCondition R' Γ.swap c' c := by
  cases h with
  | same h => exact .same (h.swap turn)
  | constant value line line' => exact .constant value line' line

mutual

theorem SimilarStmt.swap (turn : Turns R R') : {Γ : ScopePairs} → {s s' : Stmt} →
    SimilarStmt R wraps Γ s s' → SimilarStmt R' wraps Γ.swap s' s
  | _, _, _, .plain h => .plain (h.swap turn)
  | _, _, _, .wrapLeft line allowed h => .wrapRight line allowed (h.swap turn)
  | _, _, _, .wrapRight line allowed h => .wrapLeft line allowed (h.swap turn)

theorem SimilarPlain.swap (turn : Turns R R') : {Γ : ScopePairs} → {s s' : Stmt} →
    SimilarPlain R wraps Γ s s' → SimilarPlain R' wraps Γ.swap s' s
  | _, _, _, .expression h => .expression (h.swap turn)
  | _, _, _, .print h => .print (h.swap turn)
  | _, _, _, .varDecl line declares h => .varDecl line.symm declares.swap (h.swap turn)
  | _, _, _, .scope ρ same h => .scope ρ.symm (same.imp Eq.symm id) (h.swap turn)
  | _, _, _, .branch c h other => .branch (c.swap turn) (h.swap turn) (other.swap turn)
  | _, _, _, .loop c h e => .loop (c.swap turn) (h.swap turn) (e.swap turn)
  | _, _, _, .expandRight line allowed absent c h e =>
      .expandLeft line allowed absent (c.swap turn) (h.swap turn) (e.swap turn)
  | _, _, _, .expandLeft line allowed absent c h e =>
      .expandRight line allowed absent (c.swap turn) (h.swap turn) (e.swap turn)
  | _, _, _, .funDecl declares h => by
      have inner := h.swap turn
      rw [declares.swap_declare] at inner
      exact .funDecl (h.same_name ▸ declares.swap) (h.same_name ▸ inner)
  | _, _, _, .classDecl declares h => by
      have inner := h.swap turn
      rw [declares.swap_declare] at inner
      exact .classDecl (h.same_name ▸ declares.swap) (h.same_name ▸ inner)
  | _, _, _, .return keyword h => .return keyword (h.swap turn)
  | _, _, _, .break keyword => .break keyword
  | _, _, _, .continue keyword => .continue keyword

theorem SimilarStmts.swap (turn : Turns R R') : {Γ : ScopePairs} → {ss ss' : List Stmt} →
    SimilarStmts R wraps Γ ss ss' → SimilarStmts R' wraps Γ.swap ss' ss
  | _, _, _, .nil => .nil
  | _, _, _, .cons h hs => by
      have rest := hs.swap turn
      rw [h.swap_after] at rest
      exact .cons (h.swap turn) rest

theorem SimilarOptionalStmt.swap (turn : Turns R R') : {Γ : ScopePairs} → {s s' : Option Stmt} →
    SimilarOptionalStmt R wraps Γ s s' → SimilarOptionalStmt R' wraps Γ.swap s' s
  | _, _, _, .none => .none
  | _, _, _, .some h => .some (h.swap turn)

theorem SimilarFunction.swap (turn : Turns R R') : {Γ : ScopePairs} → {f f' : FunctionDecl Stmt} →
    SimilarFunction R wraps Γ f f' → SimilarFunction R' wraps Γ.swap f' f
  | _, _, _, .intro ρ called h => by
      have body := h.swap turn
      refine .intro ρ.symm (by rw [called, ScopePairs.map_symm_map]) ?_
      rw [called, ← List.map_reverse]
      exact body

theorem SimilarMethods.swap (turn : Turns R R') : {Γ : ScopePairs} →
    {ms ms' : List (FunctionDecl Stmt)} → SimilarMethods R wraps Γ ms ms' →
    SimilarMethods R' wraps Γ.swap ms' ms
  | _, _, _, .nil => .nil
  | _, _, _, .cons h hs => .cons (h.swap turn) (hs.swap turn)

theorem SimilarClass.swap (turn : Turns R R') : {Γ : ScopePairs} → {c c' : ClassDecl Stmt} →
    SimilarClass R wraps Γ c c' → SimilarClass R' wraps Γ.swap c' c
  | _, _, _, .base h => .base (h.swap turn)
  | _, _, _, .sub parent self h => .sub (turn parent) self.symm (h.swap turn)

end

end ClassScript
