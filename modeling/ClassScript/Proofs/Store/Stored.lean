import ClassScript.Proofs.Store.Marking

namespace ClassScript.Store

def Lasting (P : Store → Value → Prop) : Prop := ∀ s t v, s.Grows t → P s v → P t v

structure Stored (P : Store → Value → Prop) (s : Store) : Prop where
  bindings : ∀ a, s.ScopeListed a → ∀ entry ∈ (s.bindings a).entries, P s entry.2
  fields : ∀ a, a ∈ s.instances → ∀ entry ∈ (s.fields a).entries, P s entry.2

variable {P : Store → Value → Prop} {s t : Store} {a b : Address} {name : String} {value : Value}
  {n line : Nat}

theorem Stored.get? (h : Stored P s) (ha : s.ScopeListed a)
    (hv : (s.bindings a).get? name = some value) : P s value :=
  h.bindings a ha _ (Bindings.mem_entries_of_get? hv)

theorem Stored.field_get? (h : Stored P s) (ha : a ∈ s.instances)
    (hv : (s.fields a).get? name = some value) : P s value :=
  h.fields a ha _ (Bindings.mem_entries_of_get? hv)

theorem Stored.get (h : Stored P s) (sound : s.Sound) (ha : s.ScopeListed a)
    (hv : s.get a name line = .ok value) : P s value := by
  unfold Store.get at hv
  split at hv
  · rename_i found
    cases hv
    obtain ⟨b, hb, found⟩ := Option.bind_eq_some_iff.mp found
    exact h.get? (sound.holderWithin_listed ha hb) found
  · cases hv

theorem Stored.getAt (h : Stored P s) (sound : s.Sound) (ha : s.ScopeListed a)
    (hv : s.getAt a n name line = .ok value) : P s value := by
  unfold Store.getAt at hv
  split at hv
  · rename_i found
    cases hv
    obtain ⟨b, hb, found⟩ := Option.bind_eq_some_iff.mp found
    exact h.get? (sound.ancestor?_listed ha hb) found
  · cases hv

theorem stored_initial : Stored P Store.initial where
  bindings a _ entry he := by
    unfold Store.bindings at he
    split at he
    · rename_i p bs cell
      have first := Array.getElem?_eq_some_iff.mp cell
      obtain ⟨lt, first⟩ := first
      obtain rfl : a = 0 := Nat.lt_one_iff.mp lt
      cases first
      cases he
    · cases he
  fields a ha := by simp [Store.initial] at ha

theorem Stored.of_kept (h : Stored P s) (keep : ∀ v, P s v → P t v)
    (bindings : ∀ a, t.ScopeListed a → ∀ entry ∈ (t.bindings a).entries,
      (s.ScopeListed a ∧ entry ∈ (s.bindings a).entries) ∨ P t entry.2)
    (fields : ∀ a, a ∈ t.instances → ∀ entry ∈ (t.fields a).entries,
      (a ∈ s.instances ∧ entry ∈ (s.fields a).entries) ∨ P t entry.2) : Stored P t where
  bindings a ha entry he := by
    rcases bindings a ha entry he with ⟨listed, old⟩ | new
    · exact keep _ (h.bindings a listed entry old)
    · exact new
  fields a ha entry he := by
    rcases fields a ha entry he with ⟨listed, old⟩ | new
    · exact keep _ (h.fields a listed entry old)
    · exact new

theorem fields_newScope (s : Store) (parent b : Address) :
    (s.newScope parent).2.fields b = s.fields b := by
  unfold fields
  rw [cells_newScope]
  by_cases eq : b = s.cells.size <;> simp [eq]

theorem fields_newInstance (s : Store) (b : Address) :
    s.newInstance.2.fields b = if b = s.cells.size then .empty else s.fields b := by
  unfold fields
  rw [cells_newInstance]
  by_cases eq : b = s.cells.size <;> simp [eq]

theorem fields_newIdentity (s : Store) (b : Address) : s.newIdentity.2.fields b = s.fields b := by
  unfold fields
  rw [cells_newIdentity]
  by_cases eq : b = s.cells.size <;> simp [eq]

theorem fields_define (s : Store) (a b : Address) (name : String) (value : Value) :
    (s.define a name value).fields b = s.fields b := by
  unfold fields
  rw [cells_define]
  by_cases eq : a = b
  · cases found : s.cells[b]? with
    | none => simp [eq]
    | some c => cases c <;> simp [eq, Cell.define]
  · simp [eq]

theorem mem_bindings_define {entry : String × Value}
    (h : entry ∈ ((s.define a name value).bindings b).entries) :
    entry.2 = value ∨ entry ∈ (s.bindings b).entries := by
  by_cases eq : a = b
  · subst eq
    cases found : s.cells[a]? with
    | none =>
        have cell := cells_define s a a name value
        rw [found] at cell
        simp [Store.bindings, cell] at h
    | some c =>
        cases c with
        | scope p bs =>
            rw [bindings_define_of_cell found] at h
            rw [bindings_of_cell found]
            exact Bindings.mem_entries_set h
        | «instance» bs =>
            have cell := cells_define s a a name value
            rw [found] at cell
            simp [Store.bindings, cell, Cell.define] at h
        | identity =>
            have cell := cells_define s a a name value
            rw [found] at cell
            simp [Store.bindings, cell, Cell.define] at h
  · rw [bindings_define_of_ne eq] at h
    exact .inr h

theorem mem_fields_setField {entry : String × Value}
    (h : entry ∈ ((s.setField a name value).fields b).entries) :
    entry.2 = value ∨ entry ∈ (s.fields b).entries := by
  have cell := cells_setField s a b name value
  unfold Store.fields at h ⊢
  rw [cell] at h
  cases found : s.cells[b]? with
  | none => simp [found] at h
  | some c =>
      rw [found] at h
      split at h
      · rename_i bs eq
        split at eq
        · cases c with
          | «instance» old =>
              cases eq
              exact Bindings.mem_entries_set h
          | scope p old => cases eq
          | identity => cases eq
        · cases eq
          exact .inr h
      · simp at h

theorem Stored.newScope_kept (h : Stored P s) {p : Address}
    (keep : ∀ v, P s v → P (s.newScope p).2 v) : Stored P (s.newScope p).2 := by
  refine h.of_kept keep (fun a ha entry he => ?_) fun a ha entry he => ?_
  · rw [bindings_newScope] at he
    split at he
    · cases he
    · rename_i ne
      exact .inl ⟨ha.imp id fun mem => (Array.mem_push.mp mem).resolve_right ne, he⟩
  · rw [fields_newScope] at he
    exact .inl ⟨ha, he⟩

theorem Stored.newInstance_kept (h : Stored P s) (keep : ∀ v, P s v → P s.newInstance.2 v) :
    Stored P s.newInstance.2 := by
  refine h.of_kept keep (fun a ha entry he => ?_) fun a ha entry he => ?_
  · rw [bindings_newInstance] at he
    exact .inl ⟨ha, he⟩
  · rw [fields_newInstance] at he
    split at he
    · cases he
    · rename_i ne
      exact .inl ⟨(Array.mem_push.mp ha).resolve_right ne, he⟩

theorem Stored.newIdentity_kept (h : Stored P s) (keep : ∀ v, P s v → P s.newIdentity.2 v) :
    Stored P s.newIdentity.2 := by
  refine h.of_kept keep (fun a ha entry he => ?_) fun a ha entry he => ?_
  · rw [bindings_newIdentity] at he
    exact .inl ⟨ha, he⟩
  · rw [fields_newIdentity] at he
    exact .inl ⟨ha, he⟩

theorem Stored.define_kept (h : Stored P s) (keep : ∀ v, P s v → P (s.define a name value) v)
    (hv : P (s.define a name value) value) : Stored P (s.define a name value) := by
  refine h.of_kept keep (fun b hb entry he => ?_) fun b hb entry he => ?_
  · rcases mem_bindings_define he with new | old
    · exact .inr (new ▸ hv)
    · exact .inl ⟨hb, old⟩
  · rw [fields_define] at he
    exact .inl ⟨hb, he⟩

theorem Stored.setField_kept (h : Stored P s) (keep : ∀ v, P s v → P (s.setField a name value) v)
    (hv : P s value) : Stored P (s.setField a name value) := by
  refine h.of_kept keep (fun b hb entry he => ?_) fun b hb entry he => ?_
  · rw [bindings_setField] at he
    exact .inl ⟨hb, he⟩
  · rcases mem_fields_setField he with new | old
    · right
      rw [new]
      exact keep _ hv
    · exact .inl ⟨hb, old⟩

theorem Stored.collect_kept (sound : s.Sound) {root : Address} (hr : s.ScopeListed root)
    (keep : ∀ v, P s v → (∀ b ∈ v.references, b ∈ s.marked root) → P (s.collect root) v)
    (h : Stored P s) : Stored P (s.collect root) := by
  constructor
  · intro a ha entry he
    obtain ⟨listed, marked⟩ := (sound.scopeListed_collect hr).mp ha
    obtain ⟨p, bs, hc⟩ := sound.scopeListed_cell listed
    rw [bindings_of_cell ((cells_collect_of_marked marked).trans hc)] at he
    have stored := h.bindings a listed entry (by rwa [bindings_of_cell hc])
    refine keep entry.2 stored fun b hb => sound.marked_closed hr marked ?_
    rw [referencesOf_of_cell hc]
    exact List.mem_append_right _ (List.mem_flatMap.mpr ⟨entry, he, hb⟩)
  · intro a ha entry he
    obtain ⟨listed, marked⟩ := mem_instances_collect.mp ha
    obtain ⟨bs, hc⟩ := sound.instance_cell a listed
    rw [fields_of_cell ((cells_collect_of_marked marked).trans hc)] at he
    have stored := h.fields a listed entry (by rwa [fields_of_cell hc])
    refine keep entry.2 stored fun b hb => sound.marked_closed hr marked ?_
    rw [referencesOf_of_cell hc]
    exact List.mem_flatMap.mpr ⟨entry, he, hb⟩

theorem Stored.newScope (h : Stored P s) (lasting : Lasting P) (p : Address) :
    Stored P (s.newScope p).2 := h.newScope_kept fun v => lasting s _ v (grows_newScope s p)

theorem Stored.newInstance (h : Stored P s) (lasting : Lasting P) : Stored P s.newInstance.2 :=
  h.newInstance_kept fun v => lasting s _ v (grows_newInstance s)

theorem Stored.newIdentity (h : Stored P s) (lasting : Lasting P) : Stored P s.newIdentity.2 :=
  h.newIdentity_kept fun v => lasting s _ v (grows_newIdentity s)

theorem Stored.define_after (h : Stored P s) (lasting : Lasting P)
    (hv : P (s.define a name value) value) : Stored P (s.define a name value) :=
  h.define_kept (fun v => lasting s _ v (grows_define s a name value)) hv

theorem Stored.define (h : Stored P s) (lasting : Lasting P) (hv : P s value) :
    Stored P (s.define a name value) :=
  h.define_after lasting (lasting _ _ _ (grows_define s a name value) hv)

theorem Stored.setField (h : Stored P s) (lasting : Lasting P) (hv : P s value) :
    Stored P (s.setField a name value) :=
  h.setField_kept (fun v => lasting s _ v (grows_setField s a name value)) hv

theorem Stored.defineAll (h : Stored P s) (lasting : Lasting P) {entries : List (String × Value)}
    (hv : ∀ entry ∈ entries, P s entry.2) : Stored P (s.defineAll a entries) := by
  induction entries generalizing s with
  | nil => exact h
  | cons entry rest ih =>
      refine ih (h.define lasting (hv entry List.mem_cons_self)) fun other mem => ?_
      exact lasting _ _ _ (grows_define s a _ _) (hv other (List.mem_cons_of_mem _ mem))

theorem Stored.bindMethod (h : Stored P s) (lasting : Lasting P) (method : Closure)
    (hv : P s value) : Stored P (s.bindMethod method value).2 :=
  (h.newScope lasting method.scope).define lasting
    (lasting _ _ _ (grows_newScope s method.scope) hv)

theorem Stored.boundMethod (h : Stored P s) (lasting : Lasting P) (method : Closure)
    (hv : P s value) : Stored P (s.boundMethod method value).2 :=
  (h.bindMethod lasting method hv).newIdentity lasting

end ClassScript.Store
