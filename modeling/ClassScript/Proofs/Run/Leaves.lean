import ClassScript.Proofs.Collection.Registry
import ClassScript.Proofs.Run.Evolves

namespace ClassScript

open Store

def declaredNames (ss : List Stmt) : Set String := {name | ∃ s ∈ ss, s.declaredName? = some name}

/-- A scope that a run can still get at: from the scope around, or from what active calls hold. -/
def Machine.Holds (m : Machine) (a : Address) : Prop :=
  0 < m.callDepth ∨ Relation.ReflTransGen m.store.Leads (.scope m.environment) (.scope a)

/-- The scope around gets some names, and no other scope that is still held gets or loses any. -/
structure Machine.Leaves (m n : Machine) (declared : Set String) : Prop where
  others : ∀ a, m.store.IsScope a → a ≠ m.environment → n.Holds a →
    n.store.names a = m.store.names a
  own : n.store.names m.environment = m.store.names m.environment ∪ declared

def Machine.LeavesAll (m n : Machine) : Prop :=
  ∀ a, m.store.IsScope a → n.store.names a = m.store.names a

variable {m n : Machine} {s t : Store} {a : Address} {name : String}

namespace Store

theorem names_of_not_listed (h : s.Ordered) (unlisted : ¬ s.ScopeListed a) : s.names a = ∅ := by
  apply Set.eq_empty_of_forall_notMem
  exact fun name mem => unlisted (scopeListed_of_contains h mem)

theorem Evolves.names (h : Evolves {a | s.cells.size ≤ a} s t) (ordered : s.Ordered)
    (old : a < s.cells.size) (kept : s.ScopeListed a → t.ScopeListed a) :
    t.names a = s.names a := by
  by_cases listed : t.ScopeListed a
  · exact (h.frame old (Nat.not_le.mpr old) listed).2
  · have unlisted : ¬ s.ScopeListed a := fun before => listed (kept before)
    rw [names_of_not_listed ordered unlisted, names_of_not_listed (h.ordered ordered) listed]

end Store

namespace Machine

theorem Passes.listed_of_holds (hn : m.Passes n) (held : n.Holds a)
    (listed : m.store.ScopeListed a) : n.store.ScopeListed a := by
  rcases held with active | leads
  · exact listed.mono (hn.grows (hn.callDepth ▸ active))
  · exact listed_of_leads hn.sound.store hn.sound.environment leads

theorem Passes.environment_listed (hn : m.Passes n) : n.store.ScopeListed m.environment :=
  hn.environment ▸ hn.sound.environment

theorem Orderly.isScope (h : m.Orderly) : m.store.IsScope m.environment :=
  h.sound.store.scopeListed_cell h.sound.environment

theorem Orderly.inNewScopes (h : m.Orderly) : m.Prepared {a | m.store.cells.size ≤ a} :=
  ⟨h, fun _ le => le⟩

theorem Orderly.leaves (h : m.Orderly) (hn : m.Passes n)
    (evolves : Evolves {a | m.store.cells.size ≤ a} m.store n.store) : m.Leaves n ∅ where
  others _ scope _ held := evolves.names h.ordered scope.lt (hn.listed_of_holds held)
  own := by
    rw [Set.union_empty]
    exact evolves.names h.ordered h.isScope.lt fun _ => hn.environment_listed

theorem Orderly.leaves_declared (h : m.Orderly) (hn : m.Passes n)
    (declares : BindsLast {a | m.store.cells.size ≤ a} m.environment name m.store n.store) :
    m.Leaves n {name} := by
  obtain ⟨t, v, evolves, listed, -, eq⟩ := declares
  -- Binding the name registers nothing.
  have registry (a : Address) : n.store.ScopeListed a ↔ t.ScopeListed a := by
    rw [eq]
    rfl
  constructor
  · intro a scope ne held
    rw [eq, names_congr (bindings_define_of_ne ne.symm)]
    apply evolves.names h.ordered scope.lt
    exact fun before => (registry a).mp (hn.listed_of_holds held before)
  · have scope : t.IsScope m.environment := evolves.ext.isScope h.isScope
    rw [eq, names_define scope, evolves.names h.ordered h.isScope.lt fun _ => listed,
      Set.union_singleton]

end Machine

namespace Run

open Machine

variable {host : Host} {fuel : Nat}

theorem leaves_eval (host : Host) (fuel : Nat) (e : Expr) (h : m.Orderly) :
    Ends (eval host fuel e) m (fun _ n => m.LeavesAll n) fun _ n => m.LeavesAll n := by
  have leaves {n : Machine} (hn : m.Keeps n)
      (evolves : Evolves {a | m.store.cells.size ≤ a} m.store n.store) : m.LeavesAll n :=
    fun a scope => evolves.names h.ordered scope.lt fun listed => listed.mono hn.growth
  have keeps := (soundWith host fuel).eval e h.sound
  have evolves := (evolvesAll host fuel).eval e h.inNewScopes
  apply (keeps.and evolves).imp
  · exact fun _ n hn => leaves hn.1.1 hn.2.1
  · exact fun _ n hn => leaves hn.1 hn.2

theorem leaves_assign (o : Occurrence) (value : Value) (m : Machine) :
    Ends (assign o value) m (fun _ n => ∀ a, n.store.names a = m.store.names a)
      fun _ n => n = m := by
  unfold Ends
  rw [assign_eq]
  cases found : (m.scopeOf o).filter fun scope =>
      (m.store.bindings scope).contains o.token.lexeme with
  | none => rfl
  | some scope => exact names_define_of_contains (Option.filter_eq_some_iff.mp found).2

theorem leaves_declaration {s : Stmt} (declares : s.declaredName? = some name) (h : m.Orderly) :
    Ends (exec host fuel s) m (fun signal n => signal = .normal ∧ m.Leaves n {name})
      fun _ n => m.Leaves n ∅ := by
  have passes := (soundWith host fuel).exec s h.sound
  cases fuel with
  | zero => exact h.leaves passes (.refl _)
  | succ fuel =>
      have declared := declares_exec (fun e _ => (evolvesAll host fuel).eval e) declares
        h.inNewScopes
      apply (passes.and declared).imp
      · exact fun _ n hn => ⟨hn.2.1, h.leaves_declared hn.1.1 hn.2.2⟩
      · exact fun _ n hn => h.leaves hn.1 hn.2

theorem isDeclaration_of_declares_none {s : Stmt} (h : s.declaredName? = none) :
    s.isDeclaration = false := by
  cases s <;> simp [Stmt.declaredName?, Stmt.isDeclaration] at h ⊢

theorem leaves_exec (host : Host) (fuel : Nat) {s : Stmt} (proper : s.Proper) (h : m.Orderly) :
    Ends (exec host fuel s) m
      (fun signal n => m.Leaves n {name | signal = .normal ∧ s.declaredName? = some name})
      fun _ n => m.Leaves n ∅ := by
  cases declares : s.declaredName? with
  | some name =>
      apply (leaves_declaration declares h).imp
      · rintro _ n ⟨rfl, leaves⟩
        simp only [Option.some.injEq, true_and, Set.ofPred_eq_eq_singleton']
        exact leaves
      · exact fun _ _ hn => hn
  | none =>
      have confined : s.Confined {a | m.store.cells.size ≤ a} m.environment :=
        .inr ⟨isDeclaration_of_declares_none declares, proper⟩
      have passes := (soundWith host fuel).exec s h.sound
      have evolves := (evolvesAll host fuel).exec s h.inNewScopes confined
      simp only [reduceCtorEq, and_false, Set.ofPred_false]
      apply (passes.and evolves).imp
      · exact fun _ n hn => h.leaves hn.1.1 hn.2.1
      · exact fun _ n hn => h.leaves hn.1 hn.2

/-- The statements that a program gets done: those before the first one that does not end normally. -/
def completed (host : Host) (fuel : Nat) : List Stmt → Machine → List Stmt
  | [], _ => []
  | s :: rest, m =>
    match exec host fuel s m with
    | .ok .normal n => s :: completed host fuel rest n
    | _ => []

theorem completed_prefix (ss : List Stmt) (m : Machine) : completed host fuel ss m <+: ss := by
  induction ss generalizing m with
  | nil => exact List.nil_prefix
  | cons s rest ih =>
      unfold completed
      split
      · exact List.cons_prefix_cons.mpr ⟨rfl, ih _⟩
      · exact List.nil_prefix

theorem declaredNames_nil : declaredNames [] = ∅ := by
  simp [declaredNames]

theorem declaredNames_cons (s : Stmt) (ss : List Stmt) :
    declaredNames (s :: ss) = {name | s.declaredName? = some name} ∪ declaredNames ss := by
  ext name
  simp [declaredNames]

theorem fails_stray {s : Stmt} {signal : Signal} (rest : List Stmt)
    (run : exec host fuel s m = .ok signal n) (stray : signal ≠ .normal) :
    ∃ e, program host fuel (s :: rest) m = .error e n := by
  cases signal with
  | normal => exact absurd rfl stray
  | «break» line | «continue» line | «return» value line => exact ⟨_, bind_ok run⟩

theorem completed_stray {s : Stmt} {signal : Signal} (rest : List Stmt)
    (run : exec host fuel s m = .ok signal n) (stray : signal ≠ .normal) :
    completed host fuel (s :: rest) m = [] := by
  unfold completed
  rw [run]
  cases signal with
  | normal => exact absurd rfl stray
  | «break» line | «continue» line | «return» value line => rfl

theorem names_program (host : Host) (fuel : Nat) {ss : List Stmt} (proper : ProperStmts ss)
    (h : m.Orderly) :
    let after := m.store.names m.environment ∪ declaredNames (completed host fuel ss m)
    Ends (program host fuel ss) m (fun _ n => n.store.names m.environment = after)
      fun _ n => n.store.names m.environment = after := by
  induction ss generalizing m with
  | nil => simp [program, ends_pure, completed, declaredNames_nil]
  | cons s rest ih =>
      have leaves := leaves_exec host fuel proper.1 h
      cases run : exec host fuel s m with
      | error e n =>
          unfold Ends at leaves
          rw [run] at leaves
          have ends : program host fuel (s :: rest) m = .error e n := bind_error run
          simp only [Ends, ends, completed, run, declaredNames_nil]
          exact leaves.own
      | ok signal n =>
          have leaves := (ends_ok_iff run).mp leaves
          by_cases normal : signal = .normal
          · subst normal
            have passes := ((ends_ok_iff run).mp ((soundWith host fuel).exec s h.sound)).1
            have next := ih proper.2 (orderly_exec h run)
            simp only [true_and] at leaves
            rw [passes.environment, leaves.own, Set.union_assoc, ← declaredNames_cons] at next
            have ends : program host fuel (s :: rest) m = program host fuel rest n := bind_ok run
            simp only [Ends, ends, completed, run]
            exact next
          · obtain ⟨e, fails⟩ := fails_stray rest run normal
            simp only [normal, false_and, Set.ofPred_false] at leaves
            simp only [Ends, fails, completed_stray rest run normal, declaredNames_nil]
            exact leaves.own

end Run

end ClassScript
