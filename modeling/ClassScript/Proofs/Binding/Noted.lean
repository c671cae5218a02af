import ClassScript.Proofs.Binding.Visits

namespace ClassScript.Binding

structure Notes (visits : List (Scopes × Expr)) (walk : Walk) : Prop where
  uniform : ∀ {d d' : Distances} (e : Distances), walk d = .ok () d' → ∃ e', walk e = .ok () e'
  others : ∀ {d d' : Distances} {i : Nat}, walk d = .ok () d' → i ∉ visits.filterMap ownId →
    d'[i]? = d[i]?
  noted : ∀ {d d' : Distances}, (visits.filterMap ownId).Nodup → walk d = .ok () d' →
    ∀ x ∈ visits, ∀ o name, x.2.occurrence? = some (o, name) →
      d'[o.id]? = (distance? name x.1).or d[o.id]?

variable {around : Enclosing} {scopes : Scopes} {visits others : List (Scopes × Expr)}
  {first second walk : Walk} {e : Expr} {o : Occurrence} {name : String} {d d' : Distances}

theorem walk_then : (do first; second : Walk) d = .ok () d' ↔
    ∃ middle, first d = .ok () middle ∧ second middle = .ok () d' := by
  simp only [bind, EStateM.bind]
  cases first d with
  | ok _ middle => exact ⟨fun h => ⟨middle, rfl, h⟩, fun ⟨_, eq, h⟩ => by cases eq; exact h⟩
  | error => exact ⟨nofun, fun ⟨_, eq, _⟩ => nomatch eq⟩

theorem notes_pure : Notes [] (pure ()) where
  uniform e _ := ⟨e, rfl⟩
  others h _ := by cases h; rfl
  noted _ _ x mem := by cases mem

theorem notes_throw (e : BindingError) : Notes visits (throw e) := ⟨nofun, nofun, nofun⟩

theorem own_mem {x : Scopes × Expr} (mem : x ∈ visits) (occurs : x.2.occurrence? = some (o, name)) :
    o.id ∈ visits.filterMap ownId :=
  List.mem_filterMap.mpr ⟨x, mem, by rw [ownId, occurs]; rfl⟩

theorem Notes.then (h : Notes visits first) (h' : Notes others second) :
    Notes (visits ++ others) (do first; second) where
  uniform e run := by
    obtain ⟨middle, one, two⟩ := walk_then.mp run
    obtain ⟨middle', one'⟩ := h.uniform e one
    obtain ⟨last, two'⟩ := h'.uniform middle' two
    exact ⟨last, walk_then.mpr ⟨middle', one', two'⟩⟩
  others run notOwn := by
    obtain ⟨middle, one, two⟩ := walk_then.mp run
    rw [List.filterMap_append, List.mem_append, not_or] at notOwn
    exact (h'.others two notOwn.2).trans (h.others one notOwn.1)
  noted nodup run x mem o name occurs := by
    obtain ⟨middle, one, two⟩ := walk_then.mp run
    rw [List.filterMap_append] at nodup
    obtain ⟨nodup, nodup', apart⟩ := List.nodup_append.mp nodup
    rcases List.mem_append.mp mem with mem | mem
    · have absent : o.id ∉ others.filterMap ownId :=
        fun mem' => apart _ (own_mem mem occurs) _ mem' rfl
      exact (h'.others two absent).trans (h.noted nodup one x mem o name occurs)
    · have absent : o.id ∉ visits.filterMap ownId :=
        fun mem' => apart _ mem' _ (own_mem mem occurs) rfl
      rw [h'.noted nodup' two x mem o name occurs, h.others one absent]

theorem Notes.perm (h : Notes visits walk) (perm : visits.Perm others) : Notes others walk where
  uniform := h.uniform
  others run notOwn := h.others run fun mem => notOwn ((perm.filterMap ownId).subset mem)
  noted nodup run x mem :=
    h.noted ((perm.filterMap ownId).nodup_iff.mpr nodup) run x (perm.symm.subset mem)

theorem Notes.cons (h : Notes visits walk) (plain : e.occurrence? = none) :
    Notes ((scopes, e) :: visits) walk := by
  have own : ((scopes, e) :: visits).filterMap ownId = visits.filterMap ownId :=
    List.filterMap_cons_none (by rw [ownId, plain]; rfl)
  refine ⟨h.uniform, fun run notOwn => h.others run (own ▸ notOwn), fun nodup run x mem => ?_⟩
  rw [own] at nodup
  rcases List.mem_cons.mp mem with rfl | mem
  · intro o name occurs
    rw [plain] at occurs
    cases occurs
  · exact h.noted nodup run x mem

theorem notes_note (occurs : e.occurrence? = some (o, name)) :
    Notes [(scopes, e)] (note scopes name o) := by
  have own : ownId (scopes, e) = some o.id := by
    rw [ownId, occurs]
    rfl
  refine ⟨fun {d d'} e' run => ?_, fun run notOwn => ?_, fun nodup run x mem o' name' occurs' => ?_⟩
  · unfold note
    cases distance? name scopes <;> exact ⟨_, rfl⟩
  · unfold note at run
    cases found : distance? name scopes with
    | none =>
        rw [found] at run
        cases run
        rfl
    | some n =>
        rw [found] at run
        cases run
        rw [List.filterMap_cons_some own, List.filterMap_nil, List.mem_singleton] at notOwn
        rw [Std.TreeMap.getElem?_insert, if_neg (by simpa using Ne.symm notOwn)]
  · rw [List.mem_singleton.mp mem, occurs] at occurs'
    cases occurs'
    rw [List.mem_singleton.mp mem]
    unfold note at run
    cases found : distance? name scopes with
    | none =>
        rw [found] at run
        cases run
        rfl
    | some n =>
        rw [found] at run
        cases run
        simp

mutual

theorem notes_expr : (e : Expr) → Notes (exprVisits scopes e) (walkExpr around scopes e)
  | .literal _ _ => notes_pure.cons rfl
  | .grouping inner | .unary _ inner | .get inner _ => (notes_expr inner).cons rfl
  | .var _ => notes_note rfl
  | .assign _ value =>
      have both := (notes_expr value).then (notes_note rfl)
      both.perm (List.perm_append_singleton _ _)
  | .logical left _ right | .binary left _ right | .set right _ left =>
      ((notes_expr left).then (notes_expr right)).cons rfl
  | .call callee _ arguments => ((notes_expr callee).then (notes_exprs arguments)).cons rfl
  | .this keyword => by
      cases around with
      | noClass => exact notes_throw _
      | baseClass | subclass => exact notes_note rfl
  | .super keyword method => by
      cases around with
      | noClass | baseClass => exact notes_throw _
      | subclass => exact notes_note rfl

theorem notes_exprs : (es : List Expr) → Notes (exprsVisits scopes es) (walkExprs around scopes es)
  | [] => notes_pure
  | e :: es => (notes_expr e).then (notes_exprs es)

end

theorem notes_optional (e : Option Expr) :
    Notes (optionalVisits scopes e) (walkOptional around scopes e) := by
  cases e with
  | none => exact notes_pure
  | some e => exact notes_expr e

theorem Notes.assoc {third : List (Scopes × Expr)} (h : Notes (visits ++ (others ++ third)) walk) :
    Notes (visits ++ others ++ third) walk := by
  rw [List.append_assoc]
  exact h

mutual

theorem notes_stmt : (s : Stmt) → {around : Enclosing} → {scopes : Scopes} →
    Notes (stmtVisits scopes s) (walkStmt around scopes s)
  | .expression e, _, _ | .print e, _, _ => notes_expr e
  | .varDecl _ e, _, _ | .return _ e, _, _ => notes_optional e
  | .block body _, _, _ => notes_stmts body
  | .branch condition thenBranch elseBranch, _, _ =>
      ((notes_expr condition).then
        ((notes_stmt thenBranch).then (notes_optionalStmt elseBranch))).assoc
  | .loop condition body increment, _, _ =>
      ((notes_expr condition).then ((notes_stmt body).then (notes_optional increment))).assoc
  | .funDecl decl, _, _ => notes_function decl
  | .classDecl decl, _, _ => notes_class decl
  | .break _, _, _ | .continue _, _, _ => notes_pure

theorem notes_stmts : (ss : List Stmt) → {around : Enclosing} → {scopes : Scopes} →
    Notes (stmtsVisits scopes ss) (walkStmts around scopes ss)
  | [], _, _ => notes_pure
  | s :: ss, _, _ => (notes_stmt s).then (notes_stmts ss)

theorem notes_optionalStmt : (s : Option Stmt) → {around : Enclosing} → {scopes : Scopes} →
    Notes (optionalStmtVisits scopes s) (walkOptionalStmt around scopes s)
  | none, _, _ => notes_pure
  | some s, _, _ => notes_stmt s

theorem notes_function : (decl : FunctionDecl Stmt) → {around : Enclosing} → {scopes : Scopes} →
    Notes (functionVisits scopes decl) (walkFunction around scopes decl)
  | ⟨_, _, body⟩, _, _ => notes_stmts body

theorem notes_methods : (ms : List (FunctionDecl Stmt)) → {around : Enclosing} →
    {scopes : Scopes} → Notes (methodsVisits scopes ms) (walkMethods around scopes ms)
  | [], _, _ => notes_pure
  | m :: ms, _, _ => (notes_function m).then (notes_methods ms)

theorem notes_class : (decl : ClassDecl Stmt) → {scopes : Scopes} →
    Notes (classVisits scopes decl) (walkClass scopes decl)
  | ⟨_, none, methods⟩, _ => notes_methods methods
  | ⟨_, some _, methods⟩, _ => (notes_note rfl).then (notes_methods methods)

end

theorem notes_program (program : List Stmt) :
    Notes (stmtsVisits [] program) (walkProgram program) := notes_stmts program

end ClassScript.Binding
