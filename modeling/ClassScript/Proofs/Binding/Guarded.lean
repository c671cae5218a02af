import ClassScript.Proofs.Binding.Visits

namespace ClassScript.Binding

inductive Guarded : Scopes → Prop
  | nil : Guarded []
  | scope {names scopes} : "super" ∉ names → Guarded scopes → Guarded (names :: scopes)
  | methods {names scopes} : "super" ∉ names → "this" ∈ names → Guarded scopes →
      Guarded (names :: ["super"] :: scopes)

variable {scopes : Scopes} {names : List String} {name : String}

theorem Guarded.declare (h : Guarded scopes) (ne : name ≠ "super") :
    Guarded (declare name scopes) := by
  have avoids {names : List String} (hn : "super" ∉ names) : "super" ∉ name :: names := by
    simp [ne.symm, hn]
  cases h with
  | nil => exact .nil
  | scope hn rest => exact .scope (avoids hn) rest
  | methods hn this rest => exact .methods (avoids hn) (List.mem_cons_of_mem _ this) rest

theorem Guarded.this_inside (h : Guarded scopes) {d : Nat}
    (found : distance? "super" scopes = some d) :
    ∃ inner names, d = inner + 1 ∧ scopes[inner]? = some names ∧ "this" ∈ names := by
  unfold distance? at found
  induction h generalizing d with
  | nil => cases found
  | @scope names scopes hn _ ih =>
      rw [List.findIdx?_cons] at found
      simp only [List.contains_iff_mem, hn, if_false] at found
      obtain ⟨rest, inRest, rfl⟩ := Option.map_eq_some_iff.mp found
      obtain ⟨inner, names, rfl, at_inner, this⟩ := ih inRest
      exact ⟨inner + 1, names, rfl, at_inner, this⟩
  | @methods names scopes hn this _ ih =>
      simp only [List.findIdx?_cons, List.contains_iff_mem, hn, if_false, List.mem_singleton,
        if_true, Option.map_some, Option.some.injEq] at found
      exact ⟨0, names, by omega, rfl, this⟩

theorem distance?_declare {own : String} (ne : name ≠ own) (scopes : Scopes) :
    distance? name (declare own scopes) = distance? name scopes := by
  cases scopes with
  | nil => rfl
  | cons names rest =>
      have same : (own :: names).contains name = names.contains name := by simp [ne]
      simp only [distance?, declare, List.findIdx?_cons, same]

def Guards (visits : Scopes → List (Scopes × Expr)) : Prop :=
  ∀ scopes, Guarded scopes → ∀ visit ∈ visits scopes, Guarded visit.1

theorem guards_nil : Guards fun _ => [] := by
  intro scopes _ visit mem
  cases mem

theorem Guards.append {visits others : Scopes → List (Scopes × Expr)} (h : Guards visits)
    (ho : Guards others) : Guards fun scopes => visits scopes ++ others scopes := by
  intro scopes hs visit mem
  rcases List.mem_append.mp mem with mem | mem
  · exact h scopes hs visit mem
  · exact ho scopes hs visit mem

theorem guards_expr (e : Expr) : Guards fun scopes => exprVisits scopes e := by
  intro scopes hs visit mem
  rw [scopes_of_mem_exprVisits e mem]
  exact hs

theorem guards_optional (e : Option Expr) : Guards fun scopes => optionalVisits scopes e := by
  cases e with
  | none => exact guards_nil
  | some e => exact guards_expr e

structure GuardsStmt (s : Stmt) : Prop where
  visits : Guards fun scopes => stmtVisits scopes s
  after : ∀ scopes, Guarded scopes → Guarded (scopesAfter scopes s)

theorem GuardsStmt.of_visits {s : Stmt} (h : Guards fun scopes => stmtVisits scopes s)
    (same : ∀ scopes, scopesAfter scopes s = scopes) : GuardsStmt s := by
  refine ⟨h, fun scopes hs => ?_⟩
  rw [same]
  exact hs

theorem guards_stmts {ss : List Stmt} (h : ∀ s ∈ ss, GuardsStmt s) :
    Guards fun scopes => stmtsVisits scopes ss := by
  induction ss with
  | nil => exact guards_nil
  | cons s ss ih =>
      have first := h s List.mem_cons_self
      have rest := ih fun s mem => h s (List.mem_cons_of_mem _ mem)
      intro scopes hs visit mem
      rcases List.mem_append.mp mem with mem | mem
      · exact first.visits scopes hs visit mem
      · exact rest _ (first.after scopes hs) visit mem

theorem guards_function {decl : FunctionDecl Stmt}
    (hp : ∀ p ∈ decl.params, p.lexeme ≠ "super") (hb : ∀ s ∈ decl.body, GuardsStmt s) :
    Guards fun scopes => functionVisits scopes decl := by
  obtain ⟨name, params, body⟩ := decl
  intro scopes hs visit mem
  refine guards_stmts hb _ (.scope ?_ hs) visit mem
  simp only [List.mem_reverse, List.mem_map, not_exists, not_and]
  exact hp

theorem guards_methods {ms : List (FunctionDecl Stmt)}
    (h : ∀ m ∈ ms, Guards fun scopes => functionVisits scopes m) :
    Guards fun scopes => methodsVisits scopes ms := by
  induction ms with
  | nil => exact guards_nil
  | cons m ms ih =>
      exact (h m List.mem_cons_self).append (ih fun m mem => h m (List.mem_cons_of_mem _ mem))

theorem guardsStmt_class {decl : ClassDecl Stmt} (hn : decl.name.lexeme ≠ "super")
    (hm : ∀ m ∈ decl.methods, Guards fun scopes => functionVisits scopes m) :
    GuardsStmt (.classDecl decl) := by
  obtain ⟨name, superclass, methods⟩ := decl
  refine ⟨fun scopes hs visit mem => ?_, fun _ hs => hs.declare hn⟩
  have inner := hs.declare hn
  cases superclass with
  | none => exact guards_methods hm _ (.scope (by decide) inner) visit mem
  | some parent =>
      rcases List.mem_cons.mp mem with rfl | mem
      · exact inner
      · exact guards_methods hm _ (.methods (by decide) (by decide) inner) visit mem

theorem guardsStmt_function {decl : FunctionDecl Stmt} (hn : decl.name.lexeme ≠ "super")
    (h : Guards fun scopes => functionVisits scopes decl) : GuardsStmt (.funDecl decl) :=
  ⟨fun _ hs => h _ (hs.declare hn), fun _ hs => hs.declare hn⟩

theorem guardsStmt_var {name : Token} {initializer : Option Expr} (hn : name.lexeme ≠ "super") :
    GuardsStmt (.varDecl name initializer) :=
  ⟨guards_optional initializer, fun _ hs => hs.declare hn⟩

theorem guardsStmt_block {body : List Stmt} {line : Nat} (h : ∀ s ∈ body, GuardsStmt s) :
    GuardsStmt (.block body line) :=
  .of_visits (fun _ hs => guards_stmts h _ (.scope List.not_mem_nil hs)) fun _ => rfl

theorem guardsStmt_branch {condition : Expr} {thenBranch : Stmt} {elseBranch : Option Stmt}
    (ht : GuardsStmt thenBranch) (he : ∀ s ∈ elseBranch, GuardsStmt s) :
    GuardsStmt (.branch condition thenBranch elseBranch) := by
  refine .of_visits (((guards_expr condition).append ht.visits).append ?_) fun _ => rfl
  cases elseBranch with
  | none => exact guards_nil
  | some s => exact (he s rfl).visits

theorem guardsStmt_loop {condition : Expr} {body : Stmt} {increment : Option Expr}
    (hb : GuardsStmt body) : GuardsStmt (.loop condition body increment) :=
  .of_visits (((guards_expr condition).append hb.visits).append (guards_optional increment))
    fun _ => rfl

end ClassScript.Binding
