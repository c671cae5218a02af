import Mathlib
import ClassScript.Proofs.Collection.Cycles
import ClassScript.Proofs.Session.Orderly

namespace ClassScript

open Store

/-- Values that expressions had, in a session that the store comes from. -/
def Store.Computed (t : Store) : Set Value :=
  {v | ∃ s : Session, s.Reachable ∧ ∃ host, ∃ p ∈ s.machine.during host, ∃ fuel e n,
    Run.eval host fuel e p.machine = .ok v n ∧ n.store.Extends t}

/-- The objects in a store, with those that are kept besides: on the way through an expression, or by
the host. -/
def Store.objects (s : Store) (kept : Set Value) : Set Node := {x | s.Present kept x}

variable {s : Store} {kept : Set Value} {m n : Machine} {host : Host}

theorem Store.Computed.made {v : Value} (h : v ∈ s.Computed) : s.Made v := by
  obtain ⟨session, reachable, host, p, during, fuel, e, n, run, ext⟩ := h
  have orderly := (reachable.orderly.during during).toOrderly
  exact (Run.orderly_eval orderly run).2.2.made.mono ext

theorem Store.Ordered.made_of_objects (h : s.Ordered) (computed : kept ⊆ s.Computed) :
    ∀ x ∈ s.objects kept, x.Made s :=
  fun _ present => Present.made h (fun _ mem => Computed.made (computed mem)) present

namespace Machine

/-- The states in which a machine collects, in a step that it does next: at the start of a statement
outside of calls, and after a program. -/
inductive Collects (host : Host) (m : Machine) : Machine → Prop
  | statement {p statement n} : p ∈ m.during host → p.task = .exec statement → p.fuel ≠ 0 →
      Run.start host statement.line p.machine = .ok () n →
      n.callDepth = 0 → host.collects n.started n.store → Collects host m n
  | ended {fuel program} : (m.analyse program).1 = .ok () →
      Collects host m ((m.analyse program).2.afterProgram host fuel program)

theorem Orderly.started {line : Nat} (h : m.Orderly) (run : Run.start host line m = .ok () n) :
    n.Orderly := by
  have ends : Ends (Run.start host line) m (fun _ n => n.Orderly) fun _ _ => True := by
    apply Run.ends_start.mpr
    split
    · trivial
    · exact ⟨⟨h.sound.store, h.sound.environment⟩, h.ordered⟩
  exact (ends_ok_iff run).mp ends

theorem Collects.orderly (collects : m.Collects host n) (h : m.Orderly) : n.Orderly := by
  cases collects with
  | statement during _ _ run => exact (h.during during).toOrderly.started run
  | ended _ => exact (h.analyse _).afterProgram host _ _

end Machine

namespace Session

/-- At each moment of a session, fixed links lead to objects that were made earlier, so that walks
along them end: to the outermost scope, for a name, and up the layers of a class. After each
collection, garbage refers to garbage without cycles, and counting references frees it. After the
release of all, nothing refers to anything in cycles, and everything is freed. -/
theorem garbage_freed {s : Session} (reachable : s.Reachable) (host : Host) :
    (∀ p ∈ s.machine.during host,
      let store := p.machine.store
      (∀ kept ⊆ store.Computed,
        (∀ i j, Refers store.Fixed (store.objects kept) i j → j < i) ∧
        ∀ object, .value (.class object) ∈ store.objects kept →
          object.layers.Pairwise fun lower upper => upper.id < lower.id) ∧
      (∀ a, ∃ d ≤ a, ∃ o, store.ancestor? a d = some o ∧ store.parent? o = none) ∧
      ∀ name a bound, a ≤ bound → store.holderWithin name bound a = store.holder? a name) ∧
    (∀ n, s.machine.Collects host n → ∀ kept ⊆ n.store.Computed,
      GarbageFreed (Refers (n.store.collect n.environment).Leads (n.store.objects kept))
        n.environment) ∧
    ∀ kept ⊆ s.machine.store.Computed,
      let refers := Refers (s.machine.store.releaseAll globals).Leads (s.machine.store.objects kept)
      Acyclic refers ∧ ∀ i, Freed refers ∅ i := by
  have orderly := reachable.orderly
  refine ⟨fun p during => ⟨fun kept computed => ⟨fun i j => ?_, fun object present => ?_⟩,
    ?_, fun name a bound le => ?_⟩, fun n collects kept computed => ?_, fun kept computed => ?_⟩
  · have ordered := (orderly.during during).ordered
    exact ordered.refers_earlier (ordered.made_of_objects computed)
  · have made := (orderly.during during).ordered.made_of_objects computed _ present
    exact (LayersMade.pairwise made).2
  · exact (orderly.during during).ordered.outermost
  · exact (orderly.during during).ordered.holderWithin_eq name le le_rfl
  · have h := collects.orderly orderly
    exact h.ordered.garbageFreed_collect h.sound.store h.sound.environment
      fun v mem => Computed.made (computed mem)
  · have made := orderly.ordered.made_of_objects computed
    exact ⟨acyclic_of_earlier fun i j => orderly.ordered.earlier_of_releaseAll made,
      orderly.ordered.freed_releaseAll made⟩

def localDecl : FunctionDecl Stmt := ⟨⟨.identifier, "f", none, 1⟩, [], []⟩

def localFunction : List Stmt := [.block [.funDecl localDecl] 1]

def localStore : Store where
  cells := #[.scope none ⟨[("clock", .clock)]⟩,
    .scope (some 0) ⟨[("f", .function 2 ⟨localDecl, 1, false⟩)]⟩, .identity]
  scopes := #[1]
  instances := #[]
  threshold := firstThreshold

theorem not_refers_globals (ordered : localStore.Ordered) (i : Address) :
    ¬ Refers (localStore.collect globals).Leads (localStore.objects ∅) globals i := by
  rintro ⟨x, y, present, leads, hx, hy⟩
  have made : ∀ z ∈ ({x} : Set Node), z.Made localStore :=
    fun z eq => eq ▸ ordered.made_of_objects (Set.empty_subset _) x present
  obtain fixed | ⟨a, entry, mem, rfl, rfl⟩ | ⟨id, object, entry, mem, rfl, rfl⟩ :=
    (leads_collect leads).fixed_or_stored
  · exact Nat.not_lt_zero _ (ordered.refers_earlier made ⟨x, y, rfl, fixed, hx, hy⟩)
  · cases hx
    obtain rfl := List.mem_singleton.mp mem
    cases hy
  · cases hx
    cases mem

theorem garbage_freed_localFunction :
    let host := Host.standard fun _ => 0
    ∃ n, initial.machine.Collects host n ∧ n.store = localStore ∧
      Refers localStore.Leads (localStore.objects ∅) 1 2 ∧
      Refers localStore.Leads (localStore.objects ∅) 2 1 ∧
      ∀ i ∈ ({1, 2} : Set Address),
        Freed (Refers (localStore.collect globals).Leads (localStore.objects ∅)) {globals} i := by
  intro host
  have accepted : (initial.machine.analyse localFunction).1 = .ok () := rfl
  have unknowing : (initial.machine.analyse localFunction).2 = initial.machine := rfl
  have collects : initial.machine.Collects host
    ((initial.machine.analyse localFunction).2.afterProgram host 9 localFunction) := .ended accepted
  rw [unknowing] at collects
  have store : (initial.machine.afterProgram host 9 localFunction).store = localStore := by cbv
  have environment := (reachable_initial.atRest.afterProgram host 9 localFunction).environment
  generalize initial.machine.afterProgram host 9 localFunction = n at collects store environment
  have ordered := (collects.orderly reachable_initial.orderly).ordered
  have freed := (garbage_freed reachable_initial host).2.1 _ collects ∅ (Set.empty_subset _)
  rw [store, environment] at freed
  rw [store] at ordered
  have scope : .scope 1 ∈ localStore.objects ∅ := .scope ⟨some 0, _, rfl⟩
  have bound : ("f", .function 2 ⟨localDecl, 1, false⟩) ∈ (localStore.bindings 1).entries :=
    List.mem_cons_self
  have holds := Leads.binding bound
  have garbage : ∀ i ∈ ({1, 2} : Set Address),
      i ∈ Garbage (Refers (localStore.collect globals).Leads (localStore.objects ∅)) globals := by
    intro i mem path
    rcases path.cases_head with rfl | ⟨j, refers, -⟩
    · rcases mem with eq | eq <;> cases eq
    · exact not_refers_globals ordered j refers
  refine ⟨n, collects, store, ?_, ?_, fun i mem => freed.freed i (garbage i mem)⟩
  · exact ⟨_, _, scope, holds, rfl, rfl⟩
  · exact ⟨_, _, .leads scope holds, .function, rfl, rfl⟩

end Session

end ClassScript
