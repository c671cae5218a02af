import Mathlib.Data.List.Nodup
import Mathlib.Tactic.Common
import ClassScript.Binding

namespace ClassScript

mutual

def Expr.ids : Expr → List Nat
  | .literal _ _ => []
  | .grouping inner => inner.ids
  | .var name => [name.id]
  | .assign name value => name.id :: value.ids
  | .logical left _ right => left.ids ++ right.ids
  | .binary left _ right => left.ids ++ right.ids
  | .unary _ operand => operand.ids
  | .call callee _ arguments => callee.ids ++ exprsIds arguments
  | .get object _ => object.ids
  | .set object _ value => value.ids ++ object.ids
  | .this keyword => [keyword.id]
  | .super keyword _ => [keyword.id]

def exprsIds : List Expr → List Nat
  | [] => []
  | e :: es => e.ids ++ exprsIds es

end

def optionalIds : Option Expr → List Nat
  | none => []
  | some e => e.ids

mutual

def Stmt.ids : Stmt → List Nat
  | .expression e => e.ids
  | .print e => e.ids
  | .varDecl _ initializer => optionalIds initializer
  | .block body _ => stmtsIds body
  | .branch condition thenBranch elseBranch =>
    condition.ids ++ thenBranch.ids ++ optionalStmtIds elseBranch
  | .loop condition body increment => condition.ids ++ body.ids ++ optionalIds increment
  | .funDecl decl => functionIds decl
  | .classDecl decl => classIds decl
  | .return _ value => optionalIds value
  | .break _ => []
  | .continue _ => []

def stmtsIds : List Stmt → List Nat
  | [] => []
  | s :: ss => s.ids ++ stmtsIds ss

def optionalStmtIds : Option Stmt → List Nat
  | none => []
  | some s => s.ids

def functionIds : FunctionDecl Stmt → List Nat
  | ⟨_, _, body⟩ => stmtsIds body

def methodsIds : List (FunctionDecl Stmt) → List Nat
  | [] => []
  | m :: ms => functionIds m ++ methodsIds ms

def classIds : ClassDecl Stmt → List Nat
  | ⟨_, superclass, methods⟩ => (superclass.map Occurrence.id).toList ++ methodsIds methods

end

def Expr.occurrence? : Expr → Option (Occurrence × String)
  | .var name => some (name, name.token.lexeme)
  | .assign name _ => some (name, name.token.lexeme)
  | .this keyword => some (keyword, "this")
  | .super keyword _ => some (keyword, "super")
  | _ => none

namespace Binding

mutual

def exprVisits (scopes : Scopes) : Expr → List (Scopes × Expr)
  | .literal value line => [(scopes, .literal value line)]
  | .grouping inner => (scopes, .grouping inner) :: exprVisits scopes inner
  | .var name => [(scopes, .var name)]
  | .assign name value => (scopes, .assign name value) :: exprVisits scopes value
  | .logical left operator right =>
    (scopes, .logical left operator right) :: (exprVisits scopes left ++ exprVisits scopes right)
  | .binary left operator right =>
    (scopes, .binary left operator right) :: (exprVisits scopes left ++ exprVisits scopes right)
  | .unary operator operand => (scopes, .unary operator operand) :: exprVisits scopes operand
  | .call callee paren arguments =>
    (scopes, .call callee paren arguments) ::
      (exprVisits scopes callee ++ exprsVisits scopes arguments)
  | .get object name => (scopes, .get object name) :: exprVisits scopes object
  | .set object name value =>
    (scopes, .set object name value) :: (exprVisits scopes value ++ exprVisits scopes object)
  | .this keyword => [(scopes, .this keyword)]
  | .super keyword method => [(scopes, .super keyword method)]

def exprsVisits (scopes : Scopes) : List Expr → List (Scopes × Expr)
  | [] => []
  | e :: es => exprVisits scopes e ++ exprsVisits scopes es

end

def optionalVisits (scopes : Scopes) : Option Expr → List (Scopes × Expr)
  | none => []
  | some e => exprVisits scopes e

mutual

def stmtVisits (scopes : Scopes) : Stmt → List (Scopes × Expr)
  | .expression e => exprVisits scopes e
  | .print e => exprVisits scopes e
  | .varDecl _ initializer => optionalVisits scopes initializer
  | .block body _ => stmtsVisits ([] :: scopes) body
  | .branch condition thenBranch elseBranch =>
    exprVisits scopes condition ++ stmtVisits scopes thenBranch ++
      optionalStmtVisits scopes elseBranch
  | .loop condition body increment =>
    exprVisits scopes condition ++ stmtVisits scopes body ++ optionalVisits scopes increment
  | .funDecl decl => functionVisits (declare decl.name.lexeme scopes) decl
  | .classDecl decl => classVisits scopes decl
  | .return _ value => optionalVisits scopes value
  | .break _ => []
  | .continue _ => []

def stmtsVisits (scopes : Scopes) : List Stmt → List (Scopes × Expr)
  | [] => []
  | s :: ss => stmtVisits scopes s ++ stmtsVisits (scopesAfter scopes s) ss

def optionalStmtVisits (scopes : Scopes) : Option Stmt → List (Scopes × Expr)
  | none => []
  | some s => stmtVisits scopes s

def functionVisits (scopes : Scopes) : FunctionDecl Stmt → List (Scopes × Expr)
  | ⟨_, params, body⟩ => stmtsVisits ((params.map Token.lexeme).reverse :: scopes) body

def methodsVisits (scopes : Scopes) : List (FunctionDecl Stmt) → List (Scopes × Expr)
  | [] => []
  | m :: ms => functionVisits scopes m ++ methodsVisits scopes ms

/-- The name of a superclass is listed as a variable. The class's own name is declared by then. -/
def classVisits (scopes : Scopes) : ClassDecl Stmt → List (Scopes × Expr)
  | ⟨name, superclass, methods⟩ =>
    match superclass with
    | some parent =>
      (declare name.lexeme scopes, .var parent) ::
        methodsVisits (["this"] :: ["super"] :: declare name.lexeme scopes) methods
    | none => methodsVisits (["this"] :: declare name.lexeme scopes) methods

end

theorem scopesAfter_nil (s : Stmt) : scopesAfter [] s = [] := by
  cases s <;> rfl

theorem functionVisits_eq (scopes : Scopes) (decl : FunctionDecl Stmt) :
    functionVisits scopes decl =
      stmtsVisits ((decl.params.map Token.lexeme).reverse :: scopes) decl.body := by
  cases decl
  rfl

def Within {α : Type} (visited : Set α) (visits : List α) : Prop := ∀ visit ∈ visits, visit ∈ visited

theorem within_append {α : Type} {visited : Set α} {visits others : List α} :
    Within visited (visits ++ others) ↔ Within visited visits ∧ Within visited others := by
  simp only [Within, List.mem_append, or_imp, forall_and]

theorem within_cons {α : Type} {visited : Set α} {visit : α} {visits : List α} :
    Within visited (visit :: visits) ↔ visit ∈ visited ∧ Within visited visits := by
  simp only [Within, List.mem_cons, forall_eq_or_imp]

variable {scopes : Scopes} {visit part : Scopes × Expr}

theorem mem_exprVisits_self (scopes : Scopes) (e : Expr) : (scopes, e) ∈ exprVisits scopes e := by
  cases e <;> simp [exprVisits]

mutual

theorem scopes_of_mem_exprVisits : (e : Expr) → visit ∈ exprVisits scopes e → visit.1 = scopes
  | .literal _ _, h | .var _, h | .this _, h | .super _ _, h => by
      simp only [exprVisits, List.mem_singleton] at h
      rw [h]
  | .grouping inner, h | .assign _ inner, h | .unary _ inner, h | .get inner _, h => by
      rcases List.mem_cons.mp h with rfl | h
      · rfl
      · exact scopes_of_mem_exprVisits inner h
  | .logical left _ right, h | .binary left _ right, h | .set right _ left, h => by
      rcases List.mem_cons.mp h with rfl | h
      · rfl
      · rcases List.mem_append.mp h with h | h
        · exact scopes_of_mem_exprVisits left h
        · exact scopes_of_mem_exprVisits right h
  | .call callee _ arguments, h => by
      rcases List.mem_cons.mp h with rfl | h
      · rfl
      · rcases List.mem_append.mp h with h | h
        · exact scopes_of_mem_exprVisits callee h
        · exact scopes_of_mem_exprsVisits arguments h

theorem scopes_of_mem_exprsVisits :
    (es : List Expr) → visit ∈ exprsVisits scopes es → visit.1 = scopes
  | e :: es, h => by
      rcases List.mem_append.mp h with h | h
      · exact scopes_of_mem_exprVisits e h
      · exact scopes_of_mem_exprsVisits es h

end

/-- With an expression all its parts are listed. -/
def Closed (visits : List (Scopes × Expr)) : Prop :=
  ∀ visit ∈ visits, ∀ part ∈ exprVisits visit.1 visit.2, part ∈ visits

theorem closed_nil : Closed [] := by
  intro visit h
  cases h

theorem Closed.append {visits others : List (Scopes × Expr)} (h : Closed visits)
    (ho : Closed others) : Closed (visits ++ others) := by
  intro visit mem part hp
  rcases List.mem_append.mp mem with mem | mem
  · exact List.mem_append_left _ (h visit mem part hp)
  · exact List.mem_append_right _ (ho visit mem part hp)

theorem Closed.cons {e : Expr} {visits : List (Scopes × Expr)} (h : Closed visits)
    (all : exprVisits scopes e = (scopes, e) :: visits) : Closed ((scopes, e) :: visits) := by
  intro visit mem part hp
  rcases List.mem_cons.mp mem with rfl | mem
  · rw [all] at hp
    exact hp
  · exact List.mem_cons_of_mem _ (h visit mem part hp)

mutual

theorem closed_exprVisits (scopes : Scopes) : (e : Expr) → Closed (exprVisits scopes e)
  | .literal _ _ | .var _ | .this _ | .super _ _ => closed_nil.cons rfl
  | .grouping inner | .assign _ inner | .unary _ inner | .get inner _ =>
      (closed_exprVisits scopes inner).cons rfl
  | .logical left _ right | .binary left _ right | .set right _ left =>
      ((closed_exprVisits scopes left).append (closed_exprVisits scopes right)).cons rfl
  | .call callee _ arguments =>
      ((closed_exprVisits scopes callee).append (closed_exprsVisits scopes arguments)).cons rfl

theorem closed_exprsVisits (scopes : Scopes) : (es : List Expr) → Closed (exprsVisits scopes es)
  | [] => closed_nil
  | e :: es => (closed_exprVisits scopes e).append (closed_exprsVisits scopes es)

end

theorem closed_optionalVisits (scopes : Scopes) (e : Option Expr) :
    Closed (optionalVisits scopes e) := by
  cases e with
  | none => exact closed_nil
  | some e => exact closed_exprVisits scopes e

mutual

theorem closed_stmtVisits : (scopes : Scopes) → (s : Stmt) → Closed (stmtVisits scopes s)
  | scopes, .expression e | scopes, .print e => closed_exprVisits scopes e
  | scopes, .varDecl _ e | scopes, .return _ e => closed_optionalVisits scopes e
  | scopes, .block body _ => closed_stmtsVisits ([] :: scopes) body
  | scopes, .branch condition thenBranch elseBranch =>
      ((closed_exprVisits scopes condition).append (closed_stmtVisits scopes thenBranch)).append
        (closed_optionalStmtVisits scopes elseBranch)
  | scopes, .loop condition body increment =>
      ((closed_exprVisits scopes condition).append (closed_stmtVisits scopes body)).append
        (closed_optionalVisits scopes increment)
  | scopes, .funDecl decl => closed_functionVisits (declare decl.name.lexeme scopes) decl
  | scopes, .classDecl decl => closed_classVisits scopes decl
  | _, .break _ | _, .continue _ => closed_nil

theorem closed_stmtsVisits : (scopes : Scopes) → (ss : List Stmt) → Closed (stmtsVisits scopes ss)
  | _, [] => closed_nil
  | scopes, s :: ss =>
    (closed_stmtVisits scopes s).append (closed_stmtsVisits (scopesAfter scopes s) ss)

theorem closed_optionalStmtVisits : (scopes : Scopes) → (s : Option Stmt) →
    Closed (optionalStmtVisits scopes s)
  | _, none => closed_nil
  | scopes, some s => closed_stmtVisits scopes s

theorem closed_functionVisits : (scopes : Scopes) → (decl : FunctionDecl Stmt) →
    Closed (functionVisits scopes decl)
  | scopes, ⟨_, params, body⟩ =>
    closed_stmtsVisits ((params.map Token.lexeme).reverse :: scopes) body

theorem closed_methodsVisits : (scopes : Scopes) → (ms : List (FunctionDecl Stmt)) →
    Closed (methodsVisits scopes ms)
  | _, [] => closed_nil
  | scopes, m :: ms => (closed_functionVisits scopes m).append (closed_methodsVisits scopes ms)

theorem closed_classVisits : (scopes : Scopes) → (decl : ClassDecl Stmt) →
    Closed (classVisits scopes decl)
  | scopes, ⟨name, none, methods⟩ =>
      closed_methodsVisits (["this"] :: declare name.lexeme scopes) methods
  | scopes, ⟨name, some parent, methods⟩ =>
      (closed_exprVisits (declare name.lexeme scopes) (.var parent)).append
        (closed_methodsVisits (["this"] :: ["super"] :: declare name.lexeme scopes) methods)

end

def ownId (visit : Scopes × Expr) : Option Nat := visit.2.occurrence?.map (·.1.id)

mutual

theorem ownIds_exprVisits (scopes : Scopes) : (e : Expr) →
    (exprVisits scopes e).filterMap ownId = e.ids
  | .literal _ _ | .var _ | .this _ | .super _ _ => rfl
  | .grouping inner | .unary _ inner | .get inner _ => ownIds_exprVisits scopes inner
  | .assign name value => congrArg (name.id :: ·) (ownIds_exprVisits scopes value)
  | .logical left _ right | .binary left _ right | .set right _ left => by
      have both := congrArg₂ (· ++ ·) (ownIds_exprVisits scopes left)
        (ownIds_exprVisits scopes right)
      rw [← List.filterMap_append] at both
      exact both
  | .call callee _ arguments => by
      have both := congrArg₂ (· ++ ·) (ownIds_exprVisits scopes callee)
        (ownIds_exprsVisits scopes arguments)
      rw [← List.filterMap_append] at both
      exact both

theorem ownIds_exprsVisits (scopes : Scopes) : (es : List Expr) →
    (exprsVisits scopes es).filterMap ownId = exprsIds es
  | [] => rfl
  | e :: es => by
      simp only [exprsVisits, exprsIds, List.filterMap_append, ownIds_exprVisits scopes e,
        ownIds_exprsVisits scopes es]

end

theorem ownIds_optionalVisits (scopes : Scopes) (e : Option Expr) :
    (optionalVisits scopes e).filterMap ownId = optionalIds e := by
  cases e with
  | none => rfl
  | some e => exact ownIds_exprVisits scopes e

mutual

theorem ownIds_stmtVisits : (scopes : Scopes) → (s : Stmt) →
    (stmtVisits scopes s).filterMap ownId = s.ids
  | scopes, .expression e | scopes, .print e => ownIds_exprVisits scopes e
  | scopes, .varDecl _ e | scopes, .return _ e => ownIds_optionalVisits scopes e
  | scopes, .block body _ => ownIds_stmtsVisits ([] :: scopes) body
  | scopes, .branch condition thenBranch elseBranch => by
      simp only [stmtVisits, Stmt.ids, List.filterMap_append, ownIds_exprVisits scopes condition,
        ownIds_stmtVisits scopes thenBranch, ownIds_optionalStmtVisits scopes elseBranch]
  | scopes, .loop condition body increment => by
      simp only [stmtVisits, Stmt.ids, List.filterMap_append, ownIds_exprVisits scopes condition,
        ownIds_stmtVisits scopes body, ownIds_optionalVisits scopes increment]
  | scopes, .funDecl decl => ownIds_functionVisits (declare decl.name.lexeme scopes) decl
  | scopes, .classDecl decl => ownIds_classVisits scopes decl
  | _, .break _ | _, .continue _ => rfl

theorem ownIds_stmtsVisits : (scopes : Scopes) → (ss : List Stmt) →
    (stmtsVisits scopes ss).filterMap ownId = stmtsIds ss
  | _, [] => rfl
  | scopes, s :: ss => by
      simp only [stmtsVisits, stmtsIds, List.filterMap_append, ownIds_stmtVisits scopes s,
        ownIds_stmtsVisits (scopesAfter scopes s) ss]

theorem ownIds_optionalStmtVisits : (scopes : Scopes) → (s : Option Stmt) →
    (optionalStmtVisits scopes s).filterMap ownId = optionalStmtIds s
  | _, none => rfl
  | scopes, some s => ownIds_stmtVisits scopes s

theorem ownIds_functionVisits : (scopes : Scopes) → (decl : FunctionDecl Stmt) →
    (functionVisits scopes decl).filterMap ownId = functionIds decl
  | scopes, ⟨_, params, body⟩ =>
      ownIds_stmtsVisits ((params.map Token.lexeme).reverse :: scopes) body

theorem ownIds_methodsVisits : (scopes : Scopes) → (ms : List (FunctionDecl Stmt)) →
    (methodsVisits scopes ms).filterMap ownId = methodsIds ms
  | _, [] => rfl
  | scopes, m :: ms => by
      simp only [methodsVisits, methodsIds, List.filterMap_append, ownIds_functionVisits scopes m,
        ownIds_methodsVisits scopes ms]

theorem ownIds_classVisits : (scopes : Scopes) → (decl : ClassDecl Stmt) →
    (classVisits scopes decl).filterMap ownId = classIds decl
  | scopes, ⟨name, none, methods⟩ =>
      ownIds_methodsVisits (["this"] :: declare name.lexeme scopes) methods
  | scopes, ⟨name, some parent, methods⟩ => congrArg (parent.id :: ·)
      (ownIds_methodsVisits (["this"] :: ["super"] :: declare name.lexeme scopes) methods)

end

theorem eq_of_nodup_filterMap {α β : Type} {f : α → Option β} {xs : List α} {x y : α} {b : β}
    (nodup : (xs.filterMap f).Nodup) (hx : x ∈ xs) (hy : y ∈ xs) (fx : f x = some b)
    (fy : f y = some b) : x = y := by
  induction xs with
  | nil => cases hx
  | cons first rest ih =>
      rcases List.mem_cons.mp hx with rfl | memX <;> rcases List.mem_cons.mp hy with eq | memY
      · exact eq.symm
      · rw [List.filterMap_cons_some fx] at nodup
        exact ((List.nodup_cons.mp nodup).1 (List.mem_filterMap.mpr ⟨y, memY, fy⟩)).elim
      · rw [← eq, List.filterMap_cons_some fy] at nodup
        exact ((List.nodup_cons.mp nodup).1 (List.mem_filterMap.mpr ⟨x, memX, fx⟩)).elim
      · refine ih ?_ memX memY
        cases hf : f first with
        | none => rwa [List.filterMap_cons_none hf] at nodup
        | some c =>
            rw [List.filterMap_cons_some hf] at nodup
            exact (List.nodup_cons.mp nodup).2

theorem scopes_unique {visited : Set (Scopes × Expr)}
    (closed : ∀ visit ∈ visited, Within visited (exprVisits visit.1 visit.2))
    (unique : ∀ x ∈ visited, ∀ y ∈ visited, ∀ i, ownId x = some i → ownId y = some i → x = y)
    {p q : Scopes} {e : Expr} (hp : (p, e) ∈ visited) (hq : (q, e) ∈ visited)
    (occurs : e.ids ≠ []) : p = q := by
  obtain ⟨i, hi⟩ := List.exists_mem_of_ne_nil _ occurs
  have owner (r : Scopes) (hr : (r, e) ∈ visited) : ∃ visit ∈ visited, visit.1 = r ∧
      ownId visit = some i := by
    rw [← ownIds_exprVisits r e] at hi
    obtain ⟨visit, mem, own⟩ := List.mem_filterMap.mp hi
    exact ⟨visit, closed _ hr visit mem, scopes_of_mem_exprVisits e mem, own⟩
  obtain ⟨x, hx, rfl, ownX⟩ := owner p hp
  obtain ⟨y, hy, rfl, ownY⟩ := owner q hq
  rw [unique x hx y hy i ownX ownY]

end Binding

end ClassScript
