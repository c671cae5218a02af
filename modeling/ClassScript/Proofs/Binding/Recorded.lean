import ClassScript.Proofs.Binding.Visits
import ClassScript.Proofs.Ends

namespace ClassScript.Binding

/-- Each recorded distance is the right one for an occurrence with this identity. -/
def Recorded (visited : Set (Scopes × Expr)) (d : Distances) : Prop :=
  ∀ i n, d[i]? = some n → ∃ visit ∈ visited, ∃ o name,
    visit.2.occurrence? = some (o, name) ∧ o.id = i ∧ distance? name visit.1 = some n

def Records (visited : Set (Scopes × Expr)) (walk : Walk) : Prop :=
  ∀ d, Recorded visited d →
    Ends walk d (fun _ d' => Recorded visited d') fun _ d' => Recorded visited d'

variable {visited larger : Set (Scopes × Expr)} {around : Enclosing} {scopes : Scopes}

theorem recorded_empty : Recorded visited ∅ := by
  intro i n h
  simp at h

theorem Recorded.mono {d : Distances} (h : Recorded visited d) (sub : visited ⊆ larger) :
    Recorded larger d := by
  intro i n hn
  obtain ⟨visit, mem, found⟩ := h i n hn
  exact ⟨visit, sub mem, found⟩

theorem records_pure : Records visited (pure ()) := fun _ h => h

theorem records_throw (e : BindingError) : Records visited (throw e) := fun _ h => h

theorem Records.then {first second : Walk} (h₁ : Records visited first)
    (h₂ : Records visited second) : Records visited (do first; second) := by
  intro d h
  apply ends_bind.mpr
  apply (h₁ d h).imp
  · intro _ d' h'
    exact h₂ d' h'
  · intro _ _ h'
    exact h'

theorem records_note {e : Expr} {o : Occurrence} {name : String} (mem : (scopes, e) ∈ visited)
    (he : e.occurrence? = some (o, name)) : Records visited (note scopes name o) := by
  intro d h
  unfold Ends note
  cases hd : distance? name scopes with
  | none => exact h
  | some distance =>
      intro i n hn
      rw [Std.TreeMap.getElem?_insert] at hn
      split at hn
      · rename_i eq
        cases hn
        exact ⟨(scopes, e), mem, o, name, he, by simpa using eq, hd⟩
      · exact h i n hn

mutual

theorem records_expr : (e : Expr) → Within visited (exprVisits scopes e) →
    Records visited (walkExpr around scopes e)
  | .literal _ _, _ => records_pure
  | .grouping inner, h | .unary _ inner, h | .get inner _, h =>
      records_expr inner (within_cons.mp h).2
  | .var name, h => records_note (within_cons.mp h).1 rfl
  | .assign name value, h =>
      (records_expr value (within_cons.mp h).2).then (records_note (within_cons.mp h).1 rfl)
  | .logical left _ right, h | .binary left _ right, h | .set right _ left, h =>
      have both := within_append.mp (within_cons.mp h).2
      (records_expr left both.1).then (records_expr right both.2)
  | .call callee _ arguments, h =>
      have both := within_append.mp (within_cons.mp h).2
      (records_expr callee both.1).then (records_exprs arguments both.2)
  | .this keyword, h => by
      cases around with
      | noClass => exact records_throw _
      | baseClass => exact records_note (within_cons.mp h).1 rfl
      | subclass => exact records_note (within_cons.mp h).1 rfl
  | .super keyword method, h => by
      cases around with
      | noClass => exact records_throw _
      | baseClass => exact records_throw _
      | subclass => exact records_note (within_cons.mp h).1 rfl

theorem records_exprs : (es : List Expr) → Within visited (exprsVisits scopes es) →
    Records visited (walkExprs around scopes es)
  | [], _ => records_pure
  | e :: es, h =>
      have both := within_append.mp h
      (records_expr e both.1).then (records_exprs es both.2)

end

theorem records_optional (e : Option Expr) (h : Within visited (optionalVisits scopes e)) :
    Records visited (walkOptional around scopes e) := by
  cases e with
  | none => exact records_pure
  | some e => exact records_expr e h

mutual

theorem records_stmt : (s : Stmt) → {around : Enclosing} → {scopes : Scopes} →
    Within visited (stmtVisits scopes s) → Records visited (walkStmt around scopes s)
  | .expression e, _, _, h | .print e, _, _, h => records_expr e h
  | .varDecl _ e, _, _, h | .return _ e, _, _, h => records_optional e h
  | .block body _, _, _, h => records_stmts body h
  | .branch condition thenBranch elseBranch, _, _, h =>
      have all := within_append.mp h
      have both := within_append.mp all.1
      (records_expr condition both.1).then
        ((records_stmt thenBranch both.2).then (records_optionalStmt elseBranch all.2))
  | .loop condition body increment, _, _, h =>
      have all := within_append.mp h
      have both := within_append.mp all.1
      (records_expr condition both.1).then
        ((records_stmt body both.2).then (records_optional increment all.2))
  | .funDecl decl, _, _, h => records_function decl h
  | .classDecl decl, _, _, h => records_class decl h
  | .break _, _, _, _ | .continue _, _, _, _ => records_pure

theorem records_stmts : (ss : List Stmt) → {around : Enclosing} → {scopes : Scopes} →
    Within visited (stmtsVisits scopes ss) → Records visited (walkStmts around scopes ss)
  | [], _, _, _ => records_pure
  | s :: ss, _, _, h =>
      have both := within_append.mp h
      (records_stmt s both.1).then (records_stmts ss both.2)

theorem records_optionalStmt : (s : Option Stmt) → {around : Enclosing} → {scopes : Scopes} →
    Within visited (optionalStmtVisits scopes s) →
      Records visited (walkOptionalStmt around scopes s)
  | none, _, _, _ => records_pure
  | some s, _, _, h => records_stmt s h

theorem records_function : (decl : FunctionDecl Stmt) → {around : Enclosing} →
    {scopes : Scopes} → Within visited (functionVisits scopes decl) →
    Records visited (walkFunction around scopes decl)
  | ⟨_, _, body⟩, _, _, h => records_stmts body h

theorem records_methods : (ms : List (FunctionDecl Stmt)) → {around : Enclosing} →
    {scopes : Scopes} → Within visited (methodsVisits scopes ms) →
    Records visited (walkMethods around scopes ms)
  | [], _, _, _ => records_pure
  | m :: ms, _, _, h =>
      have both := within_append.mp h
      (records_function m both.1).then (records_methods ms both.2)

theorem records_class : (decl : ClassDecl Stmt) → {scopes : Scopes} →
    Within visited (classVisits scopes decl) → Records visited (walkClass scopes decl)
  | ⟨_, none, methods⟩, _, h => records_methods methods h
  | ⟨_, some _, methods⟩, _, h =>
      (records_note (within_cons.mp h).1 rfl).then (records_methods methods (within_cons.mp h).2)

end

theorem records_program (program : List Stmt) (h : Within visited (stmtsVisits [] program)) :
    Records visited (walkProgram program) := records_stmts program h

end ClassScript.Binding
