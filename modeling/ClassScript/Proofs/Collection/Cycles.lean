import ClassScript.Proofs.Collection.Registry
import ClassScript.Proofs.Store.Evolution

/-!
# Cycles and reference counting

An object holds on to others by links that never change, and by what is bound in a scope or stored in
a field. The first kind leads to objects that were made earlier (`Fixed.earlier`), so a cycle needs
the second kind. A collection leaves those only in scopes and instances that the root leads to, and
what is left of the others is freed by counting references.
-/

namespace ClassScript.Store

/-- What a scope, a function, a class or an instance is told apart by. Later ones have larger
addresses. -/
def Node.object? : Node → Option Address
  | .scope a => some a
  | .value (.function id _) => some id
  | .value (.bound id _) => some id
  | .value (.class object) => some object.layer.id
  | .value (.instance id _) => some id
  | .value _ => none

/-- The links that an object is made with. -/
inductive Fixed (s : Store) : Node → Node → Prop
  | parent {a p} : s.parent? a = some p → Fixed s (.scope a) (.scope p)
  | function {id closure} : Fixed s (.value (.function id closure)) (.scope closure.scope)
  | bound {id closure} : Fixed s (.value (.bound id closure)) (.scope closure.scope)
  | method {object m} : m ∈ object.layer.methods →
      Fixed s (.value (.class object)) (.scope m.2.scope)
  | superclass {layer above rest} :
      Fixed s (.value (.class ⟨layer, above :: rest⟩)) (.value (.class ⟨above, rest⟩))
  | instanceOf {id object} : Fixed s (.value (.instance id object)) (.value (.class object))

/-- What there is in a store: all scopes, what is stored in fields, some values that are held besides,
and all that these hold on to. -/
inductive Present (s : Store) (held : Set Value) : Node → Prop
  | scope {a} : s.IsScope a → Present s held (.scope a)
  | field {id entry} : entry ∈ (s.fields id).entries → Present s held (.value entry.2)
  | held {v} : v ∈ held → Present s held (.value v)
  | leads {x y} : Present s held x → s.Leads x y → Present s held y

def Refers (links : Node → Node → Prop) (objects : Set Node) (i j : Address) : Prop :=
  ∃ x y, x ∈ objects ∧ links x y ∧ x.object? = some i ∧ y.object? = some j

def Acyclic (refers : Address → Address → Prop) : Prop := ∀ i, ¬ Relation.TransGen refers i i

/-- What counting references frees: objects that nothing pins, once all that refer to them are
freed. -/
inductive Freed (refers : Address → Address → Prop) (pinned : Set Address) : Address → Prop
  | intro {i} : i ∉ pinned → (∀ j, refers j i → Freed refers pinned j) → Freed refers pinned i

def Garbage (refers : Address → Address → Prop) (root : Address) : Set Address :=
  {i | ¬ Relation.ReflTransGen refers root i}

def Node.Made (s : Store) : Node → Prop
  | .scope a => a < s.cells.size
  | .value v => s.Made v

variable {s : Store} {a p root i j : Address} {x y : Node} {held : Set Value} {objects : Set Node}
  {refers : Address → Address → Prop} {pinned garbage : Set Address} {object : ClassObject}
  {layers : List ClassLayer} {bound : Nat}

theorem acyclic_of_earlier (earlier : ∀ i j, refers i j → j < i) : Acyclic refers := by
  have less {i j : Address} (path : Relation.TransGen refers i j) : j < i := by
    induction path with
    | single step => exact earlier _ _ step
    | tail _ step ih => exact (earlier _ _ step).trans ih
  exact fun i cycle => Nat.lt_irrefl i (less cycle)

/-- Where only later garbage refers to garbage, all of it is freed, the latest first. -/
theorem freed_of_later (garbage : Set Address) (bound : Nat) (unpinned : ∀ i ∈ garbage, i ∉ pinned)
    (later : ∀ i ∈ garbage, ∀ j, refers j i → j ∈ garbage ∧ i < j ∧ j < bound) :
    ∀ i ∈ garbage, Freed refers pinned i := by
  intro i mem
  -- Later garbage is freed first, so the induction is on how much later garbage there can be.
  induction left : bound - i using Nat.strong_induction_on generalizing i with
  | _ n ih =>
      refine .intro (unpinned i mem) fun j refers => ?_
      obtain ⟨mem', lt, below⟩ := later i mem j refers
      have sooner : bound - j < n := left ▸ Nat.sub_lt_sub_left (lt.trans below) lt
      exact ih (bound - j) sooner j mem' rfl

theorem LayersMade.pairwise (h : LayersMade i layers) :
    (∀ layer ∈ layers, layer.id < i) ∧ layers.Pairwise fun lower upper => upper.id < lower.id := by
  induction layers generalizing i with
  | nil => simp
  | cons layer above ih =>
      obtain ⟨first, -, rest⟩ := h
      obtain ⟨below, sorted⟩ := ih rest
      refine ⟨fun l mem => ?_, .cons below sorted⟩
      rcases List.mem_cons.mp mem with rfl | mem
      · exact first
      · exact (below l mem).trans first

theorem Node.Made.lt (h : x.Made s) (hi : x.object? = some i) : i < s.cells.size := by
  cases x with
  | scope a =>
      cases hi
      exact h
  | value v =>
      cases v with
      | function | bound | «instance» =>
          cases hi
          exact h.2
      | «class» =>
          cases hi
          exact h.1
      | _ => cases hi

theorem Node.Made.mono {t : Store} (h : x.Made s) (ext : s.Extends t) : x.Made t := by
  cases x with
  | scope a => exact lt_of_lt_of_le h ext.size_le
  | value v => exact Store.Made.mono h ext

/-- A fixed link leads to what was made before. -/
theorem Fixed.earlier (h : s.Ordered) (fixed : s.Fixed x y) (hx : x.Made s) :
    ∃ i j, x.object? = some i ∧ y.object? = some j ∧ j < i := by
  cases fixed with
  | parent hp => exact ⟨_, _, rfl, rfl, h.parent _ _ hp⟩
  | function | bound => exact ⟨_, _, rfl, rfl, hx.1⟩
  | method mem => exact ⟨_, _, rfl, rfl, hx.2.1 _ mem⟩
  | superclass => exact ⟨_, _, rfl, rfl, hx.2.2.1⟩
  | instanceOf => exact ⟨_, _, rfl, rfl, hx.1.1⟩

theorem Fixed.made (h : s.Ordered) (fixed : s.Fixed x y) (hx : x.Made s) : y.Made s := by
  obtain ⟨i, j, hi, hj, lt⟩ := fixed.earlier h hx
  have below : j < s.cells.size := lt.trans (hx.lt hi)
  cases fixed with
  | parent | function | bound | method =>
      cases hj
      exact below
  | superclass =>
      cases hj
      exact ⟨below, hx.2.2.2⟩
  | instanceOf =>
      cases hj
      exact ⟨below, hx.1.2⟩

theorem Leads.fixed_or_stored (h : s.Leads x y) : s.Fixed x y ∨
    (∃ a, ∃ entry ∈ (s.bindings a).entries, x = .scope a ∧ y = .value entry.2) ∨
    ∃ id object, ∃ entry ∈ (s.fields id).entries,
      x = .value (.instance id object) ∧ y = .value entry.2 := by
  cases h with
  | binding mem => exact .inr (.inl ⟨_, _, mem, rfl, rfl⟩)
  | field mem => exact .inr (.inr ⟨_, _, _, mem, rfl, rfl⟩)
  | parent hp => exact .inl (.parent hp)
  | function => exact .inl .function
  | bound => exact .inl .bound
  | method mem => exact .inl (.method mem)
  | superclass => exact .inl .superclass
  | instanceOf => exact .inl .instanceOf

theorem Leads.object_of (h : s.Leads x y) : ∃ i, x.object? = some i := by
  cases h <;> exact ⟨_, rfl⟩

theorem Leads.made (h : s.Ordered) (leads : s.Leads x y) (hx : x.Made s) : y.Made s := by
  obtain fixed | ⟨a, entry, mem, rfl, rfl⟩ | ⟨id, object, entry, mem, rfl, rfl⟩ :=
    leads.fixed_or_stored
  · exact fixed.made h hx
  · exact (h.binding a entry mem).2
  · exact (h.field id entry mem).2

theorem Present.made (h : s.Ordered) (made : ∀ v ∈ held, s.Made v) (present : s.Present held x) :
    x.Made s := by
  induction present with
  | scope scope => exact scope.lt
  | field mem => exact (h.field _ _ mem).2
  | held mem => exact made _ mem
  | leads _ leads ih => exact leads.made h ih

theorem Ordered.refers_earlier (h : s.Ordered) (made : ∀ x ∈ objects, x.Made s)
    (refers : Refers s.Fixed objects i j) : j < i := by
  obtain ⟨x, y, mem, fixed, hi, hj⟩ := refers
  obtain ⟨i', j', hi', hj', lt⟩ := fixed.earlier h (made x mem)
  cases hi.symm.trans hi'
  cases hj.symm.trans hj'
  exact lt

theorem Ordered.outermost (h : s.Ordered) (a : Address) :
    ∃ d ≤ a, ∃ o, s.ancestor? a d = some o ∧ s.parent? o = none := by
  induction a using Nat.strong_induction_on with
  | _ a ih =>
      cases hp : s.parent? a with
      | none => exact ⟨0, Nat.zero_le a, a, rfl, hp⟩
      | some p =>
          have lt := h.parent a p hp
          obtain ⟨d, le, o, ancestor, last⟩ := ih p lt
          refine ⟨d + 1, Nat.succ_le_of_lt (le.trans_lt lt), o, ?_, last⟩
          rw [ancestor?, hp, Option.bind_some]
          exact ancestor

theorem Ordered.holderWithin_eq (h : s.Ordered) (name : String) {bound' : Nat} (le : a ≤ bound)
    (le' : a ≤ bound') : s.holderWithin name bound a = s.holderWithin name bound' a := by
  induction a using Nat.strong_induction_on generalizing bound bound' with
  | _ a ih =>
      cases hp : s.parent? a with
      | none => cases bound <;> cases bound' <;> simp [holderWithin, hp]
      | some p =>
          have lt := h.parent a p hp
          obtain ⟨k, rfl⟩ := Nat.exists_eq_add_of_lt (lt.trans_le le)
          obtain ⟨l, rfl⟩ := Nat.exists_eq_add_of_lt (lt.trans_le le')
          have outward := ih p lt (Nat.le_add_right p k) (Nat.le_add_right p l)
          simp only [holderWithin, hp, Option.bind_some, outward]

theorem leads_collect (h : (s.collect root).Leads x y) : s.Leads x y := by
  cases h with
  | @binding a entry mem =>
      by_cases released : s.Releases root a
      · rw [bindings_collect_of_releases released] at mem
        cases mem
      · rw [bindings_collect_of_kept released] at mem
        exact .binding mem
  | @field id object entry mem =>
      by_cases released : s.Releases root id
      · rw [fields_collect_of_releases released] at mem
        cases mem
      · rw [fields_collect_of_kept released] at mem
        exact .field mem
  | parent hp =>
      rw [parent?_collect] at hp
      exact .parent hp
  | function => exact .function
  | bound => exact .bound
  | method mem => exact .method mem
  | superclass => exact .superclass
  | instanceOf => exact .instanceOf

theorem Sound.addressLive_of_listed (h : s.Sound) (hr : s.ScopeListed root)
    (listed : (s.collect root).Listed a) : (s.collect root).AddressLive root a := by
  have kept := (h.scopeListed_collect hr).mpr ⟨hr, h.marked_root hr⟩
  have marked := ((h.listed_collect hr).mp listed).2
  have reach := (h.reaches_collect hr).mpr ((h.mem_marked_iff hr).mp marked)
  exact addressLive_of_reaches (h.collect hr) kept reach

theorem refers_of_leads (mem : .scope root ∈ objects)
    (closed : ∀ x y, x ∈ objects → s.Leads x y → y ∈ objects)
    (path : Relation.ReflTransGen s.Leads (.scope root) x) (hi : x.object? = some i) :
    Relation.ReflTransGen (Refers s.Leads objects) root i := by
  have inside {x : Node} (path : Relation.ReflTransGen s.Leads (.scope root) x) : x ∈ objects := by
    induction path with
    | refl => exact mem
    | tail _ step ih => exact closed _ _ ih step
  induction path generalizing i with
  | refl =>
      cases hi
      exact .refl
  | tail before step ih =>
      obtain ⟨j, hj⟩ := step.object_of
      exact (ih hj).tail ⟨_, _, inside before, step, hj, hi⟩

theorem Ordered.earlier_or_live (h : s.Ordered) (sound : s.Sound) (hr : s.ScopeListed root)
    (made : ∀ v ∈ held, s.Made v) :
    let refers := Refers (s.collect root).Leads {x | s.Present held x}
    refers i j → j < i ∨ Relation.ReflTransGen refers root i := by
  rintro refers ⟨x, y, mem, leads, hi, hj⟩
  -- What is stored stands in what is registered, and that is what the root leads to.
  have live (listed : (s.collect root).Listed i) : Relation.ReflTransGen refers root i := by
    have here : .scope root ∈ {x | s.Present held x} := .scope (sound.scopeListed_cell hr)
    have closed : ∀ x y, x ∈ {x | s.Present held x} → (s.collect root).Leads x y →
        y ∈ {x | s.Present held x} := fun x y mem leads => .leads mem (leads_collect leads)
    rcases sound.addressLive_of_listed hr listed with path | ⟨object, path⟩
    · exact refers_of_leads here closed path rfl
    · exact refers_of_leads here closed path rfl
  have ordered := h.collect sound hr
  obtain fixed | ⟨a, entry, stored, rfl, rfl⟩ | ⟨id, object, entry, stored, rfl, rfl⟩ :=
    leads.fixed_or_stored
  · have made' : ∀ x ∈ {x | s.Present held x}, x.Made (s.collect root) :=
      fun x present => (Present.made h made present).mono (extends_collect s root)
    exact .inl (ordered.refers_earlier made' ⟨x, y, mem, fixed, hi, hj⟩)
  · cases hi
    exact .inr (live (.inl (ordered.binding _ entry stored).1))
  · cases hi
    exact .inr (live (.inr (ordered.field _ entry stored).1))

/-- Between objects that a root does not lead to there are no cycles, and all of them are freed. -/
structure GarbageFreed (refers : Address → Address → Prop) (root : Address) : Prop where
  acyclic : Acyclic fun i j => refers i j ∧ i ∈ Garbage refers root ∧ j ∈ Garbage refers root
  freed : ∀ i ∈ Garbage refers root, Freed refers {root} i

theorem Ordered.garbageFreed_collect (h : s.Ordered) (sound : s.Sound) (hr : s.ScopeListed root)
    (made : ∀ v ∈ held, s.Made v) :
    GarbageFreed (Refers (s.collect root).Leads {x | s.Present held x}) root := by
  have earlier {i j : Address} := @Ordered.earlier_or_live s root i j held h sound hr made
  constructor
  · apply acyclic_of_earlier
    rintro i j ⟨refers, garbage, -⟩
    exact (earlier refers).resolve_right garbage
  · apply freed_of_later _ s.cells.size
    · rintro i garbage rfl
      exact garbage .refl
    · intro i garbage j refers
      have unreachable : ¬ Relation.ReflTransGen _ root j := fun path => garbage (path.tail refers)
      obtain ⟨x, y, present, leads, hj, -⟩ := id refers
      exact ⟨unreachable, (earlier refers).resolve_right unreachable,
        (Present.made h made present).lt hj⟩

theorem mem_releasedAll :
    a ∈ (s.scopes ++ s.instances).push globals ↔ s.Listed a := by
  simp only [Array.mem_push, Array.mem_append, Listed, ScopeListed]
  tauto

theorem emptied_releaseAll (h : s.Listed a) : s.EmptiedIn (s.releaseAll globals) a :=
  (cells_emptyAll _ _ a).trans (if_pos (mem_releasedAll.mpr h))

theorem cells_releaseAll_of_not_listed (h : ¬ s.Listed a) :
    (s.releaseAll globals).cells[a]? = s.cells[a]? :=
  (cells_emptyAll _ _ a).trans (if_neg fun mem => h (mem_releasedAll.mp mem))

theorem extends_releaseAll (s : Store) : s.Extends (s.releaseAll globals) := by
  apply extends_of_emptied
  intro a
  by_cases listed : s.Listed a
  · exact .inl (emptied_releaseAll listed)
  · exact .inr (cells_releaseAll_of_not_listed listed)

theorem Ordered.not_mem_bindings_releaseAll (h : s.Ordered) (entry : String × Value) :
    entry ∉ ((s.releaseAll globals).bindings a).entries := by
  intro mem
  by_cases listed : s.Listed a
  · rw [(emptied_releaseAll listed).bindings] at mem
    cases mem
  · unfold bindings at mem
    rw [cells_releaseAll_of_not_listed listed] at mem
    exact listed (.inl (h.binding a entry mem).1)

theorem Ordered.not_mem_fields_releaseAll (h : s.Ordered) (entry : String × Value) :
    entry ∉ ((s.releaseAll globals).fields a).entries := by
  intro mem
  by_cases listed : s.Listed a
  · rw [(emptied_releaseAll listed).fields] at mem
    cases mem
  · unfold fields at mem
    rw [cells_releaseAll_of_not_listed listed] at mem
    exact listed (.inr (h.field a entry mem).1)

theorem Ordered.fixed_of_releaseAll (h : s.Ordered) (leads : (s.releaseAll globals).Leads x y) :
    s.Fixed x y := by
  have same (a : Address) : (s.releaseAll globals).parent? a = s.parent? a :=
    (extends_releaseAll s).parent?_of_size_eq (size_emptyAll _ _) a
  obtain fixed | ⟨a, entry, stored, -⟩ | ⟨id, object, entry, stored, -⟩ := leads.fixed_or_stored
  · cases fixed with
    | parent hp => exact .parent (same _ ▸ hp)
    | function => exact .function
    | bound => exact .bound
    | method mem => exact .method mem
    | superclass => exact .superclass
    | instanceOf => exact .instanceOf
  · exact absurd stored (h.not_mem_bindings_releaseAll entry)
  · exact absurd stored (h.not_mem_fields_releaseAll entry)

theorem Ordered.earlier_of_releaseAll (h : s.Ordered) (made : ∀ x ∈ objects, x.Made s)
    (refers : Refers (s.releaseAll globals).Leads objects i j) : j < i := by
  obtain ⟨x, y, mem, leads, hi, hj⟩ := refers
  exact h.refers_earlier made ⟨x, y, mem, h.fixed_of_releaseAll leads, hi, hj⟩

theorem Ordered.freed_releaseAll (h : s.Ordered) (made : ∀ x ∈ objects, x.Made s) (i : Address) :
    Freed (Refers (s.releaseAll globals).Leads objects) ∅ i := by
  apply freed_of_later Set.univ s.cells.size
  · exact fun _ _ pinned => pinned
  · intro i _ j refers
    obtain ⟨x, y, mem, -, hj, -⟩ := id refers
    exact ⟨Set.mem_univ j, h.earlier_of_releaseAll made refers, (made x mem).lt hj⟩
  · exact Set.mem_univ i

end ClassScript.Store
