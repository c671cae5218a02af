import ClassScript.Proofs.Grammar.Unnumbered
import ClassScript.Proofs.Similar.OnePlace

namespace ClassScript

open Binding

variable {wraps : Prop} {Γ : ScopePairs} {others : List String} {V : Set (Scopes × Expr)}

theorem SeenAlike.swap : Turns SeenAlike SeenAlike := by
  intro Γ o o' name name' h
  refine ⟨h.line.symm, ?_⟩
  rw [Γ.left_swap, Γ.right_swap]
  exact h.meets.swap

theorem token_of_unnumbered {o o' : Occurrence} (eq : o'.unnumbered = o.unnumbered) :
    o'.token = o.token := (Occurrence.mk.inj eq).2

theorem seenAlike_of_unnumbered (same : Γ.Same) {o o' : Occurrence}
    (eq : o'.unnumbered = o.unnumbered) (name : String) : SeenAlike Γ o o' name name :=
  ⟨congrArg Token.line (token_of_unnumbered eq), same.meets name⟩

theorem seenAlike_lexeme (same : Γ.Same) {o o' : Occurrence}
    (eq : o'.unnumbered = o.unnumbered) : SeenAlike Γ o o' o.token.lexeme o'.token.lexeme := by
  have alike := seenAlike_of_unnumbered same eq o.token.lexeme
  rwa [← token_of_unnumbered eq] at alike ⊢

mutual

theorem similarExpr_renumbered (same : Γ.Same) (regular : Γ.Regular) (e e' : Expr)
    (eq : e'.unnumbered = e.unnumbered) : SimilarExpr SeenAlike Γ e e' := by
  match e with
  | .literal value line =>
      cases e' with
      | literal => cases eq; exact .literal value line
      | _ => cases eq
  | .grouping e =>
      cases e' with
      | grouping e' => exact .grouping (similarExpr_renumbered same regular e e' (Expr.grouping.inj eq))
      | _ => cases eq
  | .var o =>
      cases e' with
      | var o' => exact .var (seenAlike_lexeme same (Expr.var.inj eq))
      | _ => cases eq
  | .assign o e =>
      cases e' with
      | assign o' e' =>
          obtain ⟨ho, he⟩ := Expr.assign.inj eq
          exact .assign (seenAlike_lexeme same ho) (similarExpr_renumbered same regular e e' he)
      | _ => cases eq
  | .logical l operator r =>
      cases e' with
      | logical l' operator' r' =>
          obtain ⟨hl, rfl, hr⟩ := Expr.logical.inj eq
          exact .logical _ (similarExpr_renumbered same regular l l' hl)
            (similarExpr_renumbered same regular r r' hr)
      | _ => cases eq
  | .binary l operator r =>
      cases e' with
      | binary l' operator' r' =>
          obtain ⟨hl, rfl, hr⟩ := Expr.binary.inj eq
          exact .binary _ (similarExpr_renumbered same regular l l' hl)
            (similarExpr_renumbered same regular r r' hr)
      | _ => cases eq
  | .unary operator e =>
      cases e' with
      | unary operator' e' =>
          obtain ⟨rfl, he⟩ := Expr.unary.inj eq
          exact .unary _ (similarExpr_renumbered same regular e e' he)
      | _ => cases eq
  | .call e paren es =>
      cases e' with
      | call e' paren' es' =>
          obtain ⟨he, rfl, hes⟩ := Expr.call.inj eq
          exact .call _ (similarExpr_renumbered same regular e e' he)
            (similarExprs_renumbered same regular es es' hes)
      | _ => cases eq
  | .get e name =>
      cases e' with
      | get e' name' =>
          obtain ⟨he, rfl⟩ := Expr.get.inj eq
          exact .get _ (similarExpr_renumbered same regular e e' he)
      | _ => cases eq
  | .set e name v =>
      cases e' with
      | set e' name' v' =>
          obtain ⟨he, rfl, hv⟩ := Expr.set.inj eq
          exact .set _ (similarExpr_renumbered same regular e e' he)
            (similarExpr_renumbered same regular v v' hv)
      | _ => cases eq
  | .this o =>
      cases e' with
      | this o' =>
          exact .this (seenAlike_of_unnumbered same (Expr.this.inj eq) _)
      | _ => cases eq
  | .super o method =>
      cases e' with
      | super o' method' =>
          obtain ⟨ho, rfl⟩ := Expr.super.inj eq
          exact .super _ (seenAlike_of_unnumbered same ho _) regular
      | _ => cases eq

theorem similarExprs_renumbered (same : Γ.Same) (regular : Γ.Regular) (es es' : List Expr)
    (eq : exprsUnnumbered es' = exprsUnnumbered es) : SimilarExprs SeenAlike Γ es es' := by
  match es, es' with
  | [], [] => exact .nil
  | e :: es, e' :: es' =>
      obtain ⟨he, hes⟩ := List.cons.inj eq
      exact .cons (similarExpr_renumbered same regular e e' he)
        (similarExprs_renumbered same regular es es' hes)
  | [], _ :: _ | _ :: _, [] => cases eq

end

theorem similarOptional_renumbered (same : Γ.Same) (regular : Γ.Regular) (e e' : Option Expr)
    (eq : e'.map Expr.unnumbered = e.map Expr.unnumbered) : SimilarOptional SeenAlike Γ e e' := by
  match e, e' with
  | none, none => exact .none
  | some e, some e' => exact .some (similarExpr_renumbered same regular e e' (Option.some.inj eq))
  | none, some _ | some _, none => cases eq

mutual

theorem similarPlain_renumbered {Γ : ScopePairs} (same : Γ.Same) (s s' : Stmt)
    (eq : s'.unnumbered = s.unnumbered) (h : Stands others V Γ s) :
    SimilarPlain SeenAlike wraps Γ s s' := by
  match s with
  | .expression e =>
      cases s' with
      | expression e' =>
          exact .expression (similarExpr_renumbered same h.regular e e' (Stmt.expression.inj eq))
      | _ => cases eq
  | .print e =>
      cases s' with
      | print e' => exact .print (similarExpr_renumbered same h.regular e e' (Stmt.print.inj eq))
      | _ => cases eq
  | .varDecl name e =>
      cases s' with
      | varDecl name' e' =>
          obtain ⟨rfl, he⟩ := Stmt.varDecl.inj eq
          exact .varDecl rfl (same.declares (h.opens rfl) _)
            (similarOptional_renumbered same h.regular e e' he)
      | _ => cases eq
  | .block body line =>
      cases s' with
      | block body' line' =>
          obtain ⟨hbody, rfl⟩ := Stmt.block.inj eq
          exact .block (.refl _) _
            (similarStmts_renumbered (.both same) body body' hbody (h.block rfl))
      | _ => cases eq
  | .branch c s other =>
      cases s' with
      | branch c' s' other' =>
          obtain ⟨hc, hs, hother⟩ := Stmt.branch.inj eq
          exact .branch (similarExpr_renumbered same h.regular c c' hc)
            (.plain (similarPlain_renumbered same s s' hs h.thenBranch))
            (similarBranch_renumbered same other other' hother h.elseBranch)
      | _ => cases eq
  | .loop c s e =>
      cases s' with
      | loop c' s' e' =>
          obtain ⟨hc, hs, he⟩ := Stmt.loop.inj eq
          exact .loop (similarExpr_renumbered same h.regular c c' hc)
            (.plain (similarPlain_renumbered same s s' hs h.body))
            (similarOptional_renumbered same h.regular e e' he)
      | _ => cases eq
  | .funDecl f =>
      cases s' with
      | funDecl f' =>
          exact .funDecl (same.declares (h.opens rfl) _)
            (similarFunction_renumbered (same.declare _) f f' (Stmt.funDecl.inj eq) h.function)
      | _ => cases eq
  | .classDecl ⟨name, none, ms⟩ =>
      cases s' with
      | classDecl decl =>
          obtain ⟨name', superclass, ms'⟩ := decl
          obtain ⟨rfl, hsuper, hms⟩ := ClassDecl.mk.inj (Stmt.classDecl.inj eq)
          cases superclass with
          | none =>
              exact .classDecl (same.declares (h.opens rfl) _)
                (.base (similarMethods_renumbered (.both (same.declare _)) ms ms' hms h.base))
          | some parent' => cases hsuper
      | _ => cases eq
  | .classDecl ⟨name, some parent, ms⟩ =>
      cases s' with
      | classDecl decl =>
          obtain ⟨name', superclass, ms'⟩ := decl
          obtain ⟨rfl, hsuper, hms⟩ := ClassDecl.mk.inj (Stmt.classDecl.inj eq)
          cases superclass with
          | none => cases hsuper
          | some parent' =>
              have token := Option.some.inj hsuper
              refine .classDecl (same.declares (h.opens rfl) _)
                (.sub (seenAlike_lexeme (same.declare _) token) ?_
                  (similarMethods_renumbered (.both (.both (same.declare _))) ms ms' hms h.sub))
              rw [token_of_unnumbered token]
      | _ => cases eq
  | .return keyword e =>
      cases s' with
      | «return» keyword' e' =>
          obtain ⟨rfl, he⟩ := Stmt.return.inj eq
          exact .return _ (similarOptional_renumbered same h.regular e e' he)
      | _ => cases eq
  | .break keyword =>
      cases s' with
      | «break» => cases eq; exact .break keyword
      | _ => cases eq
  | .continue keyword =>
      cases s' with
      | «continue» => cases eq; exact .continue keyword
      | _ => cases eq

theorem similarStmts_renumbered {Γ : ScopePairs} (same : Γ.Same) (ss ss' : List Stmt)
    (eq : stmtsUnnumbered ss' = stmtsUnnumbered ss) (h : StandsAll others V Γ ss) :
    SimilarStmts SeenAlike wraps Γ ss ss' := by
  match ss, ss' with
  | [], [] => exact .nil
  | s :: ss, s' :: ss' =>
      obtain ⟨hs, hss⟩ := List.cons.inj eq
      exact .cons (.plain (similarPlain_renumbered same s s' hs h.first))
        (similarStmts_renumbered (same.after s) ss ss' hss h.rest)
  | [], _ :: _ | _ :: _, [] => cases eq

theorem similarBranch_renumbered {Γ : ScopePairs} (same : Γ.Same) (s s' : Option Stmt)
    (eq : optionalStmtUnnumbered s' = optionalStmtUnnumbered s)
    (h : ∀ t ∈ s, Stands others V Γ t) : SimilarOptionalStmt SeenAlike wraps Γ s s' := by
  match s, s' with
  | none, none => exact .none
  | some s, some s' =>
      exact .some (.plain (similarPlain_renumbered same s s' (Option.some.inj eq) (h s rfl)))
  | none, some _ | some _, none => cases eq

theorem similarFunction_renumbered {Γ : ScopePairs} (same : Γ.Same) (f f' : FunctionDecl Stmt)
    (eq : functionUnnumbered f' = functionUnnumbered f) (h : StandsFunction others V Γ f) :
    SimilarFunction SeenAlike wraps Γ f f' := by
  match f, f' with
  | ⟨name, params, body⟩, ⟨name', params', body'⟩ =>
      obtain ⟨rfl, rfl, hbody⟩ := FunctionDecl.mk.inj eq
      exact .intro (.refl _) (List.map_id _).symm
        (similarStmts_renumbered (.both same) body body' hbody (h.body rfl))

theorem similarMethods_renumbered {Γ : ScopePairs} (same : Γ.Same)
    (ms ms' : List (FunctionDecl Stmt)) (eq : methodsUnnumbered ms' = methodsUnnumbered ms)
    (h : StandsMethods others V Γ ms) : SimilarMethods SeenAlike wraps Γ ms ms' := by
  match ms, ms' with
  | [], [] => exact .nil
  | f :: ms, f' :: ms' =>
      obtain ⟨hf, hms⟩ := List.cons.inj eq
      exact .cons (similarFunction_renumbered same f f' hf h.first)
        (similarMethods_renumbered same ms ms' hms h.rest)
  | [], _ :: _ | _ :: _, [] => cases eq

end

theorem Machine.interpret_renumbered (host : Host) {firstId : Nat} {tokens : List Token}
    {program other : List Stmt} (spelled : ∀ t ∈ tokens, t.Spelled)
    (parsed : (parseProgram firstId tokens).result = .ok program)
    (eq : stmtsUnnumbered other = stmtsUnnumbered program) (nodup : (stmtsIds other).Nodup)
    (accepted : (initial.analyse other).1 = .ok ()) :
    (initial.analyse program).1 = .ok () ∧ ∀ fuel,
      (initial.interpret host fuel program).1 = (initial.interpret host fuel other).1 ∧
      (initial.interpret host fuel program).2.output =
        (initial.interpret host fuel other).2.output := by
  have stands : StandsAll [] Set.univ [] program :=
    standsAll_of_parseProgram spelled parsed (fun _ _ _ _ => List.not_mem_nil) fun _ _ => trivial
  have similar : SimilarStmts SeenAlike False [] program other :=
    similarStmts_renumbered .nil program other eq stands
  have nodup' := ((parseProgram_reads firstId spelled).2 program parsed).1.nodup
  obtain ⟨accepted', goesAsFar⟩ := interpret_seen (k := 1) host False.elim le_rfl False.elim
    id (similar.swap SeenAlike.swap) nodup nodup' accepted
  refine ⟨accepted', fun fuel => ?_⟩
  obtain ⟨there, back⟩ := goesAsFar fuel fuel (by rw [Nat.one_mul])
  exact there.antisymm back

end ClassScript
