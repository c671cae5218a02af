import ClassScript.Proofs.Store.Marking

namespace ClassScript.Store

structure Alike (s t : Store) : Prop where
  left : s.Sound
  right : t.Sound
  size : s.cells.size = t.cells.size
  cells : ∀ a, s.Listed a → t.Listed a → s.cells[a]? = t.cells[a]?

def BothScopes (s t : Store) (a : Address) : Prop := s.ScopeListed a ∧ t.ScopeListed a

def BothValues (s t : Store) (v : Value) : Prop := s.ValueListed v ∧ t.ValueListed v

variable {s t s' t' : Store} {a b root : Address} {name : String} {value : Value} {n line : Nat}

theorem Sound.alike_self (h : s.Sound) : s.Alike s := ⟨h, h, rfl, fun _ _ _ => rfl⟩

theorem Alike.symm (h : s.Alike t) : t.Alike s :=
  ⟨h.right, h.left, h.size.symm, fun a ht hs => (h.cells a hs ht).symm⟩

theorem bothScopes_globals : BothScopes s t globals := ⟨.inl rfl, .inl rfl⟩

theorem BothScopes.mono (hs : s.Grows s') (ht : t.Grows t') (h : BothScopes s t a) :
    BothScopes s' t' a := ⟨h.1.mono hs, h.2.mono ht⟩

theorem BothValues.mono (hs : s.Grows s') (ht : t.Grows t') (h : BothValues s t value) :
    BothValues s' t' value := ⟨h.1.mono hs, h.2.mono ht⟩

theorem Alike.scope_cell (h : s.Alike t) (ha : BothScopes s t a) :
    s.cells[a]? = t.cells[a]? := h.cells a (.inl ha.1) (.inl ha.2)

theorem Alike.parent? (h : s.Alike t) (ha : BothScopes s t a) : s.parent? a = t.parent? a := by
  unfold Store.parent?
  rw [h.scope_cell ha]

theorem Alike.bindings (h : s.Alike t) (ha : BothScopes s t a) : s.bindings a = t.bindings a := by
  unfold Store.bindings
  rw [h.scope_cell ha]

theorem Alike.fields (h : s.Alike t) (hs : a ∈ s.instances) (ht : a ∈ t.instances) :
    s.fields a = t.fields a := by
  unfold Store.fields
  rw [h.cells a (.inr hs) (.inr ht)]

theorem Alike.parent_both (h : s.Alike t) (ha : BothScopes s t a) (hp : s.parent? a = some b) :
    BothScopes s t b :=
  ⟨h.left.parent_listed ha.1 hp, h.right.parent_listed ha.2 ((h.parent? ha).symm.trans hp)⟩

theorem Alike.ancestor? (h : s.Alike t) (ha : BothScopes s t a) :
    s.ancestor? a n = t.ancestor? a n := by
  induction n generalizing a with
  | zero => rfl
  | succ n ih =>
      simp only [Store.ancestor?]
      rw [← h.parent? ha]
      cases hp : s.parent? a with
      | none => rfl
      | some p => exact ih (h.parent_both ha hp)

theorem Alike.ancestor_both (h : s.Alike t) (ha : BothScopes s t a)
    (hb : s.ancestor? a n = some b) : BothScopes s t b :=
  ⟨h.left.ancestor?_listed ha.1 hb,
    h.right.ancestor?_listed ha.2 ((h.ancestor? ha).symm.trans hb)⟩

theorem Alike.holderWithin (h : s.Alike t) (ha : BothScopes s t a) :
    s.holderWithin name n a = t.holderWithin name n a := by
  induction n generalizing a with
  | zero =>
      unfold Store.holderWithin
      rw [h.bindings ha]
  | succ n ih =>
      unfold Store.holderWithin
      rw [h.bindings ha, ← h.parent? ha]
      cases hp : s.parent? a with
      | none => rfl
      | some p =>
          have further := ih (h.parent_both ha hp)
          simp only [Option.bind_some, further]

theorem Alike.holder_both (h : s.Alike t) (ha : BothScopes s t a)
    (hb : s.holder? a name = some b) : BothScopes s t b :=
  ⟨h.left.holderWithin_listed ha.1 hb,
    h.right.holderWithin_listed ha.2 ((h.holderWithin ha).symm.trans hb)⟩

theorem Alike.holder? (h : s.Alike t) (ha : BothScopes s t a) :
    s.holder? a name = t.holder? a name := h.holderWithin ha

theorem Alike.get (h : s.Alike t) (ha : BothScopes s t a) :
    s.get a name line = t.get a name line := by
  unfold Store.get
  rw [← h.holder? ha]
  cases hb : s.holder? a name with
  | none => rfl
  | some b => simp only [Option.bind_some, h.bindings (h.holder_both ha hb)]

theorem Alike.target (h : s.Alike t) (ha : BothScopes s t a) :
    s.target a name line = t.target a name line := by
  unfold Store.target
  rw [h.holder? ha]

theorem Alike.getAt (h : s.Alike t) (ha : BothScopes s t a) :
    s.getAt a n name line = t.getAt a n name line := by
  unfold Store.getAt
  rw [← h.ancestor? ha]
  cases hb : s.ancestor? a n with
  | none => rfl
  | some b => simp only [Option.bind_some, h.bindings (h.ancestor_both ha hb)]

theorem Alike.targetAt (h : s.Alike t) (ha : BothScopes s t a) :
    s.targetAt a n name line = t.targetAt a n name line := by
  unfold Store.targetAt
  rw [← h.ancestor? ha]
  cases hb : s.ancestor? a n with
  | none => rfl
  | some b => simp only [h.bindings (h.ancestor_both ha hb)]

theorem Alike.property? (h : s.Alike t) (hs : a ∈ s.instances) (ht : a ∈ t.instances)
    (object : ClassObject) : s.property? a object name = t.property? a object name := by
  unfold Store.property?
  rw [h.fields hs ht]

theorem listed_newScope (hb : (s.newScope a).2.Listed b) (ne : b ≠ s.cells.size) : s.Listed b := by
  rcases hb with (rfl | mem) | mem
  · exact .inl (.inl rfl)
  · exact .inl (.inr ((Array.mem_push.mp mem).resolve_right ne))
  · exact .inr mem

theorem listed_newInstance (hb : s.newInstance.2.Listed b) (ne : b ≠ s.cells.size) :
    s.Listed b := by
  rcases hb with mem | mem
  · exact .inl mem
  · exact .inr ((Array.mem_push.mp mem).resolve_right ne)

theorem Alike.newScope (h : s.Alike t) (ha : BothScopes s t a) :
    (s.newScope a).2.Alike (t.newScope a).2 where
  left := h.left.newScope ha.1
  right := h.right.newScope ha.2
  size := by simp [Store.newScope, h.size]
  cells b hs ht := by
    rw [cells_newScope, cells_newScope, h.size]
    split
    · rfl
    · rename_i ne
      exact h.cells b (listed_newScope hs (h.size ▸ ne)) (listed_newScope ht ne)

theorem Alike.newInstance (h : s.Alike t) : s.newInstance.2.Alike t.newInstance.2 where
  left := h.left.newInstance
  right := h.right.newInstance
  size := by simp [Store.newInstance, h.size]
  cells b hs ht := by
    rw [cells_newInstance, cells_newInstance, h.size]
    split
    · rfl
    · rename_i ne
      exact h.cells b (listed_newInstance hs (h.size ▸ ne)) (listed_newInstance ht ne)

theorem Alike.newIdentity (h : s.Alike t) : s.newIdentity.2.Alike t.newIdentity.2 where
  left := h.left.newIdentity
  right := h.right.newIdentity
  size := by simp [Store.newIdentity, h.size]
  cells b hs ht := by
    rw [cells_newIdentity, cells_newIdentity, h.size]
    split
    · rfl
    · exact h.cells b hs ht

theorem Alike.define (h : s.Alike t) (hv : BothValues s t value) :
    (s.define a name value).Alike (t.define a name value) where
  left := h.left.define hv.1
  right := h.right.define hv.2
  size := by simp [h.size]
  cells b hs ht := by rw [cells_define, cells_define, h.cells b hs ht]

theorem Alike.setField (h : s.Alike t) (hv : BothValues s t value) :
    (s.setField a name value).Alike (t.setField a name value) where
  left := h.left.setField hv.1
  right := h.right.setField hv.2
  size := by simp [h.size]
  cells b hs ht := by rw [cells_setField, cells_setField, h.cells b hs ht]

theorem Alike.defineAll (h : s.Alike t) {entries : List (String × Value)}
    (hv : ∀ entry ∈ entries, BothValues s t entry.2) :
    (s.defineAll a entries).Alike (t.defineAll a entries) := by
  induction entries generalizing s t with
  | nil => exact h
  | cons entry rest ih =>
      refine ih (h.define (hv entry List.mem_cons_self)) fun other mem => ?_
      exact (hv other (List.mem_cons_of_mem _ mem)).mono (grows_define s _ _ _)
        (grows_define t _ _ _)

theorem Alike.fst_bindMethod (h : s.Alike t) (method : Closure) (value : Value) :
    (s.bindMethod method value).1 = (t.bindMethod method value).1 := by
  simp only [Store.bindMethod, Store.newScope, h.size]

theorem Alike.bindMethod (h : s.Alike t) {method : Closure} (hm : BothScopes s t method.scope)
    (hv : BothValues s t value) :
    (s.bindMethod method value).2.Alike (t.bindMethod method value).2 := by
  have fresh : (s.newScope method.scope).1 = (t.newScope method.scope).1 := h.size
  have listed := hv.mono (grows_newScope s method.scope) (grows_newScope t method.scope)
  simp only [Store.bindMethod]
  rw [fresh]
  exact (h.newScope hm).define listed

theorem Alike.boundMethod (h : s.Alike t) {method : Closure} (hm : BothScopes s t method.scope)
    (hv : BothValues s t value) :
    (s.boundMethod method value).2.Alike (t.boundMethod method value).2 :=
  (h.bindMethod hm hv).newIdentity

theorem Alike.fst_boundMethod (h : s.Alike t) {method : Closure}
    (hm : BothScopes s t method.scope) (hv : BothValues s t value) :
    (s.boundMethod method value).1 = (t.boundMethod method value).1 := by
  have closure := h.fst_bindMethod method value
  have size := (h.bindMethod hm hv).size
  simp only [Store.boundMethod, Store.newIdentity, closure, size]

theorem Alike.collect_left (h : s.Alike t) (hr : s.ScopeListed root) :
    (s.collect root).Alike t where
  left := h.left.collect hr
  right := h.right
  size := size_collect.trans h.size
  cells a hs ht := by
    obtain ⟨listed, marked⟩ := (h.left.listed_collect hr).mp hs
    rw [cells_collect_of_marked marked]
    exact h.cells a listed ht

theorem Alike.collect_right (h : s.Alike t) (hr : t.ScopeListed root) :
    s.Alike (t.collect root) := (h.symm.collect_left hr).symm

end ClassScript.Store
