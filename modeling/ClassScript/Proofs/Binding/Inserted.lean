import ClassScript.Proofs.Binding.Visits

namespace ClassScript.Binding

variable {around : Enclosing} {scopes : Scopes} {ids others : List Nat} {first second walk : Walk}
  {d d' : Distances} {i : Nat}

def inserted (entries : List (Nat × Nat)) (d : Distances) : Distances :=
  entries.foldl (fun d entry => d.insert entry.1 entry.2) d

def ended (fault : Option BindingError) (d : Distances) :
    EStateM.Result BindingError Distances Unit :=
  match fault with
  | none => .ok () d
  | some e => .error e d

def Inserts (ids : List Nat) (walk : Walk) : Prop :=
  ∃ (entries : List (Nat × Nat)) (fault : Option BindingError),
    (∀ entry ∈ entries, entry.1 ∈ ids) ∧ ∀ d, walk d = ended fault (inserted entries d)

theorem inserted_append (entries entries' : List (Nat × Nat)) (d : Distances) :
    inserted (entries ++ entries') d = inserted entries' (inserted entries d) :=
  List.foldl_append

theorem exists_entry (entries : List (Nat × Nat)) (i : Nat) :
    ∃ entry : Option Nat, ∀ d : Distances, (inserted entries d)[i]? = entry.or d[i]? := by
  induction entries with
  | nil => exact ⟨none, fun _ => rfl⟩
  | cons head rest ih =>
      obtain ⟨entry, last⟩ := ih
      have behind (d : Distances) : (inserted (head :: rest) d)[i]? =
          entry.or (d.insert head.1 head.2)[i]? := last _
      by_cases here : head.1 = i
      · refine ⟨entry.or (some head.2), fun d => ?_⟩
        rw [behind, Std.TreeMap.getElem?_insert, if_pos (by simpa using here)]
        cases entry <;> rfl
      · refine ⟨entry, fun d => ?_⟩
        rw [behind, Std.TreeMap.getElem?_insert, if_neg (by simpa using here)]

theorem inserted_others {entries : List (Nat × Nat)} (own : ∀ entry ∈ entries, entry.1 ∈ ids)
    (other : i ∉ ids) (d : Distances) : (inserted entries d)[i]? = d[i]? := by
  induction entries generalizing d with
  | nil => rfl
  | cons head rest ih =>
      have ne : head.1 ≠ i := fun eq => other (eq ▸ own head List.mem_cons_self)
      have behind : (inserted (head :: rest) d)[i]? = (d.insert head.1 head.2)[i]? :=
        ih (fun entry mem => own entry (List.mem_cons_of_mem _ mem)) _
      rw [behind, Std.TreeMap.getElem?_insert, if_neg (by simpa using ne)]

theorem inserts_pure : Inserts ids (pure ()) := ⟨[], none, nofun, fun _ => rfl⟩

theorem inserts_throw (e : BindingError) : Inserts ids (throw e) :=
  ⟨[], some e, nofun, fun _ => rfl⟩

theorem Inserts.mono (h : Inserts ids walk) (sub : ids ⊆ others) : Inserts others walk := by
  obtain ⟨entries, fault, own, runs⟩ := h
  exact ⟨entries, fault, fun entry mem => sub (own entry mem), runs⟩

theorem Inserts.then (h : Inserts ids first) (h' : Inserts others second) :
    Inserts (ids ++ others) (do first; second) := by
  obtain ⟨entries, fault, own, runs⟩ := h
  obtain ⟨entries', fault', own', runs'⟩ := h'
  cases fault with
  | none =>
      refine ⟨entries ++ entries', fault', fun entry mem => ?_, fun d => ?_⟩
      · rcases List.mem_append.mp mem with mem | mem
        · exact List.mem_append_left _ (own entry mem)
        · exact List.mem_append_right _ (own' entry mem)
      · rw [inserted_append, ← runs']
        simp only [bind, EStateM.bind, runs, ended]
  | some e =>
      refine ⟨entries, some e, fun entry mem => List.mem_append_left _ (own entry mem), fun d => ?_⟩
      simp only [bind, EStateM.bind, runs, ended]

theorem inserts_note (scopes : Scopes) (name : String) (o : Occurrence) :
    Inserts [o.id] (note scopes name o) := by
  unfold note
  cases distance? name scopes with
  | none => exact ⟨[], none, nofun, fun _ => rfl⟩
  | some distance =>
      refine ⟨[(o.id, distance)], none, fun entry mem => ?_, fun _ => rfl⟩
      rw [List.mem_singleton.mp mem]
      exact List.mem_singleton_self _

mutual

theorem inserts_expr : (e : Expr) → Inserts e.ids (walkExpr around scopes e)
  | .literal _ _ => inserts_pure
  | .grouping inner | .unary _ inner | .get inner _ => inserts_expr inner
  | .var _ => inserts_note _ _ _
  | .assign name value =>
      ((inserts_expr value).then (inserts_note _ _ name)).mono
        (List.perm_append_singleton _ _).subset
  | .logical left _ right | .binary left _ right | .set right _ left =>
      (inserts_expr left).then (inserts_expr right)
  | .call callee _ arguments => (inserts_expr callee).then (inserts_exprs arguments)
  | .this keyword => by
      cases around with
      | noClass => exact inserts_throw _
      | baseClass | subclass => exact inserts_note _ _ _
  | .super keyword _ => by
      cases around with
      | noClass | baseClass => exact inserts_throw _
      | subclass => exact inserts_note _ _ _

theorem inserts_exprs : (es : List Expr) → Inserts (exprsIds es) (walkExprs around scopes es)
  | [] => inserts_pure
  | e :: es => (inserts_expr e).then (inserts_exprs es)

end

theorem inserts_optional (e : Option Expr) :
    Inserts (optionalIds e) (walkOptional around scopes e) := by
  cases e with
  | none => exact inserts_pure
  | some e => exact inserts_expr e

theorem Inserts.assoc {last : List Nat} (h : Inserts (ids ++ (others ++ last)) walk) :
    Inserts (ids ++ others ++ last) walk := by
  rw [List.append_assoc]
  exact h

mutual

theorem inserts_stmt : (s : Stmt) → {around : Enclosing} → {scopes : Scopes} →
    Inserts s.ids (walkStmt around scopes s)
  | .expression e, _, _ | .print e, _, _ => inserts_expr e
  | .varDecl _ e, _, _ | .return _ e, _, _ => inserts_optional e
  | .block body _, _, _ => inserts_stmts body
  | .branch condition thenBranch elseBranch, _, _ =>
      ((inserts_expr condition).then
        ((inserts_stmt thenBranch).then (inserts_optionalStmt elseBranch))).assoc
  | .loop condition body increment, _, _ =>
      ((inserts_expr condition).then ((inserts_stmt body).then (inserts_optional increment))).assoc
  | .funDecl decl, _, _ => inserts_function decl
  | .classDecl decl, _, _ => inserts_class decl
  | .break _, _, _ | .continue _, _, _ => inserts_pure

theorem inserts_stmts : (ss : List Stmt) → {around : Enclosing} → {scopes : Scopes} →
    Inserts (stmtsIds ss) (walkStmts around scopes ss)
  | [], _, _ => inserts_pure
  | s :: ss, _, _ => (inserts_stmt s).then (inserts_stmts ss)

theorem inserts_optionalStmt : (s : Option Stmt) → {around : Enclosing} → {scopes : Scopes} →
    Inserts (optionalStmtIds s) (walkOptionalStmt around scopes s)
  | none, _, _ => inserts_pure
  | some s, _, _ => inserts_stmt s

theorem inserts_function : (decl : FunctionDecl Stmt) → {around : Enclosing} → {scopes : Scopes} →
    Inserts (functionIds decl) (walkFunction around scopes decl)
  | ⟨_, _, body⟩, _, _ => inserts_stmts body

theorem inserts_methods : (ms : List (FunctionDecl Stmt)) → {around : Enclosing} →
    {scopes : Scopes} → Inserts (methodsIds ms) (walkMethods around scopes ms)
  | [], _, _ => inserts_pure
  | m :: ms, _, _ => (inserts_function m).then (inserts_methods ms)

theorem inserts_class : (decl : ClassDecl Stmt) → {scopes : Scopes} →
    Inserts (classIds decl) (walkClass scopes decl)
  | ⟨_, none, methods⟩, _ => inserts_methods methods
  | ⟨_, some parent, methods⟩, _ => (inserts_note _ _ parent).then (inserts_methods methods)

end

theorem inserts_program (program : List Stmt) :
    Inserts (stmtsIds program) (walkProgram program) := inserts_stmts program

end ClassScript.Binding
