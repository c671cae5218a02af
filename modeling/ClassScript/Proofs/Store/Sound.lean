import ClassScript.Proofs.Store.Cells

namespace ClassScript

namespace Store

/-- The global scope and the registered ones. -/
def ScopeListed (s : Store) (a : Address) : Prop := a = globals ∨ a ∈ s.scopes

def Listed (s : Store) (a : Address) : Prop := s.ScopeListed a ∨ a ∈ s.instances

def ValueListed (s : Store) : Value → Prop
  | .function _ closure => s.ScopeListed closure.scope
  | .bound _ closure => s.ScopeListed closure.scope
  | .class object => ∀ a ∈ Value.classScopes object, s.ScopeListed a
  | .instance id object => id ∈ s.instances ∧ ∀ a ∈ Value.classScopes object, s.ScopeListed a
  | _ => True

def BindingsListed (s : Store) (bs : Bindings) : Prop :=
  ∀ entry ∈ bs.entries, s.ValueListed entry.2

def CellListed (s : Store) : Cell → Prop
  | .scope parent bs => (∀ p ∈ parent, s.ScopeListed p) ∧ s.BindingsListed bs
  | .instance bs => s.BindingsListed bs
  | .identity => True

/-- The registry holds scopes and instances, each once, and what they contain is kept. -/
structure Sound (s : Store) : Prop where
  globalScope : ∃ bs, s.cells[globals]? = some (.scope none bs)
  scopes_nodup : s.scopes.toList.Nodup
  instances_nodup : s.instances.toList.Nodup
  scope_cell : ∀ a ∈ s.scopes, ∃ p bs, s.cells[a]? = some (.scope (some p) bs) ∧ p < a
  instance_cell : ∀ a ∈ s.instances, ∃ bs, s.cells[a]? = some (.instance bs)
  cell_listed : ∀ a c, s.Listed a → s.cells[a]? = some c → s.CellListed c

structure Grows (s t : Store) : Prop where
  ext : s.Extends t
  scopes : ∀ a ∈ s.scopes, a ∈ t.scopes
  instances : ∀ a ∈ s.instances, a ∈ t.instances
  names : ∀ a name, (s.bindings a).contains name → (t.bindings a).contains name

variable {s t u : Store} {a b p : Address} {name : String} {value : Value}

theorem Grows.refl (s : Store) : s.Grows s :=
  ⟨.refl s, fun _ h => h, fun _ h => h, fun _ _ h => h⟩

theorem Grows.trans (hst : s.Grows t) (htu : t.Grows u) : s.Grows u where
  ext := hst.ext.trans htu.ext
  scopes a h := htu.scopes a (hst.scopes a h)
  instances a h := htu.instances a (hst.instances a h)
  names a name h := htu.names a name (hst.names a name h)

theorem scopeListed_globals (s : Store) : s.ScopeListed globals := .inl rfl

theorem ScopeListed.mono (h : s.Grows t) (ha : s.ScopeListed a) : t.ScopeListed a :=
  ha.imp id (h.scopes a)

theorem ValueListed.mono (h : s.Grows t) (hv : s.ValueListed value) : t.ValueListed value := by
  cases value <;> simp only [ValueListed] at hv ⊢
  case function => exact hv.mono h
  case bound => exact hv.mono h
  case «class» => exact fun a ha => (hv a ha).mono h
  case «instance» => exact ⟨h.instances _ hv.1, fun a ha => (hv.2 a ha).mono h⟩

theorem CellListed.mono {c : Cell} (h : s.Grows t) (hc : s.CellListed c) : t.CellListed c := by
  cases c with
  | scope parent bs =>
      exact ⟨fun p hp => (hc.1 p hp).mono h, fun entry he => (hc.2 entry he).mono h⟩
  | «instance» bs => exact fun entry he => (hc entry he).mono h
  | identity => trivial

theorem bindingsListed_empty (s : Store) : s.BindingsListed .empty := by
  intro entry he
  cases he

theorem BindingsListed.set {bs : Bindings} (h : s.BindingsListed bs) (hv : s.ValueListed value) :
    s.BindingsListed (bs.set name value) := by
  intro entry he
  rcases Bindings.mem_entries_set he with same | old
  · exact same ▸ hv
  · exact h entry old

theorem CellListed.define {c : Cell} (h : s.CellListed c) (hv : s.ValueListed value) :
    s.CellListed (c.define name value) := by
  cases c with
  | scope parent bs => exact ⟨h.1, h.2.set hv⟩
  | «instance» bs => exact h
  | identity => exact h

theorem CellListed.setField {c : Cell} (h : s.CellListed c) (hv : s.ValueListed value) :
    s.CellListed (c.setField name value) := by
  cases c with
  | scope parent bs => exact h
  | «instance» bs => exact BindingsListed.set h hv
  | identity => exact h

theorem Sound.scopeListed_cell (h : s.Sound) (ha : s.ScopeListed a) :
    ∃ parent bs, s.cells[a]? = some (.scope parent bs) := by
  rcases ha with rfl | ha
  · obtain ⟨bs, hbs⟩ := h.globalScope
    exact ⟨none, bs, hbs⟩
  · obtain ⟨p, bs, hbs, -⟩ := h.scope_cell a ha
    exact ⟨some p, bs, hbs⟩

theorem Sound.globals_not_registered (h : s.Sound) : globals ∉ s.scopes := by
  intro mem
  obtain ⟨bs, hg⟩ := h.globalScope
  obtain ⟨p, bs', hs, -⟩ := h.scope_cell _ mem
  simp [hg] at hs

theorem Sound.parent_listed (h : s.Sound) (ha : s.ScopeListed a) (hp : s.parent? a = some p) :
    s.ScopeListed p := by
  obtain ⟨bs, hc⟩ := cell_of_parent? hp
  exact (h.cell_listed a _ (.inl ha) hc).1 p rfl

theorem Sound.get?_listed (h : s.Sound) (ha : s.ScopeListed a)
    (hv : (s.bindings a).get? name = some value) : s.ValueListed value := by
  obtain ⟨parent, bs, hc⟩ := h.scopeListed_cell ha
  rw [bindings_of_cell hc] at hv
  exact (h.cell_listed a _ (.inl ha) hc).2 _ (Bindings.mem_entries_of_get? hv)

theorem Sound.field_get?_listed (h : s.Sound) {id : Address} (hid : id ∈ s.instances)
    (hv : (s.fields id).get? name = some value) : s.ValueListed value := by
  obtain ⟨bs, hc⟩ := h.instance_cell id hid
  rw [fields_of_cell hc] at hv
  exact h.cell_listed id _ (.inr hid) hc _ (Bindings.mem_entries_of_get? hv)

theorem Sound.ancestor?_listed (h : s.Sound) {n : Nat} (ha : s.ScopeListed a)
    (hb : s.ancestor? a n = some b) : s.ScopeListed b := by
  induction n generalizing a with
  | zero =>
      cases hb
      exact ha
  | succ n ih =>
      obtain ⟨p, hp, hb⟩ := Option.bind_eq_some_iff.mp hb
      exact ih (h.parent_listed ha hp) hb

theorem Sound.holderWithin_listed (h : s.Sound) {n : Nat} (ha : s.ScopeListed a)
    (hb : s.holderWithin name n a = some b) : s.ScopeListed b := by
  induction n generalizing a with
  | zero =>
      unfold holderWithin at hb
      split at hb <;> cases hb
      exact ha
  | succ n ih =>
      unfold holderWithin at hb
      split at hb
      · cases hb
        exact ha
      · obtain ⟨p, hp, hb⟩ := Option.bind_eq_some_iff.mp hb
        exact ih (h.parent_listed ha hp) hb

theorem Sound.get_listed (h : s.Sound) {line : Nat} (ha : s.ScopeListed a)
    (hv : s.get a name line = .ok value) : s.ValueListed value := by
  unfold get at hv
  split at hv
  · rename_i found
    cases hv
    obtain ⟨b, hb, found⟩ := Option.bind_eq_some_iff.mp found
    exact h.get?_listed (h.holderWithin_listed ha hb) found
  · cases hv

theorem Sound.getAt_listed (h : s.Sound) {n line : Nat} (ha : s.ScopeListed a)
    (hv : s.getAt a n name line = .ok value) : s.ValueListed value := by
  unfold getAt at hv
  split at hv
  · rename_i found
    cases hv
    obtain ⟨b, hb, found⟩ := Option.bind_eq_some_iff.mp found
    exact h.get?_listed (h.ancestor?_listed ha hb) found
  · cases hv

theorem method?_scope_mem {object : ClassObject} {closure : Closure}
    (h : object.method? name = some closure) : closure.scope ∈ Value.classScopes object := by
  obtain ⟨layer, hl, found⟩ := List.exists_of_findSome?_eq_some h
  exact List.mem_flatMap.mpr
    ⟨layer, hl, List.mem_map.mpr ⟨(name, closure), Bindings.mem_of_lookup found, rfl⟩⟩

theorem grows_newScope (s : Store) (parent : Address) : s.Grows (s.newScope parent).2 where
  ext := extends_newScope s parent
  scopes _ h := Array.mem_push_of_mem _ h
  instances _ h := h
  names a name h := by
    rw [bindings_newScope, if_neg (ne_size_of_contains h)]
    exact h

theorem grows_newInstance (s : Store) : s.Grows s.newInstance.2 where
  ext := extends_newInstance s
  scopes _ h := h
  instances _ h := Array.mem_push_of_mem _ h
  names a name h := by
    rw [bindings_newInstance]
    exact h

theorem grows_newIdentity (s : Store) : s.Grows s.newIdentity.2 where
  ext := extends_newIdentity s
  scopes _ h := h
  instances _ h := h
  names a name h := by
    rw [bindings_newIdentity]
    exact h

theorem grows_define (s : Store) (a : Address) (name : String) (value : Value) :
    s.Grows (s.define a name value) where
  ext := extends_define s a name value
  scopes _ h := h
  instances _ h := h
  names b other h := by
    by_cases eq : a = b
    · subst eq
      obtain ⟨p, bs, found⟩ := cell_of_contains h
      rw [bindings_of_cell found] at h
      rw [bindings_define_of_cell found]
      exact Bindings.contains_set_of_contains _ _ h
    · rw [bindings_define_of_ne eq]
      exact h

theorem grows_setField (s : Store) (a : Address) (name : String) (value : Value) :
    s.Grows (s.setField a name value) where
  ext := extends_setField s a name value
  scopes _ h := h
  instances _ h := h
  names b other h := by
    rw [bindings_setField]
    exact h

theorem newScope_listed (s : Store) (parent : Address) :
    (s.newScope parent).2.ScopeListed (s.newScope parent).1 := .inr Array.mem_push_self

theorem newInstance_listed (s : Store) : s.newInstance.1 ∈ s.newInstance.2.instances :=
  Array.mem_push_self

theorem Sound.listed_cell (h : s.Sound) (ha : s.Listed a) : ∃ c, s.cells[a]? = some c := by
  rcases ha with ha | ha
  · obtain ⟨parent, bs, hc⟩ := h.scopeListed_cell ha
    exact ⟨_, hc⟩
  · obtain ⟨bs, hc⟩ := h.instance_cell a ha
    exact ⟨_, hc⟩

theorem Sound.listed_lt (h : s.Sound) (ha : s.Listed a) : a < s.cells.size := by
  obtain ⟨c, hc⟩ := h.listed_cell ha
  exact (Array.getElem?_eq_some_iff.mp hc).1

theorem Sound.ne_size_of_listed (h : s.Sound) (ha : s.Listed a) : a ≠ s.cells.size :=
  Nat.ne_of_lt (h.listed_lt ha)

theorem Sound.of_grows (h : s.Sound) (grows : s.Grows t)
    (scopes_nodup : t.scopes.toList.Nodup) (instances_nodup : t.instances.toList.Nodup)
    (scopes : ∀ a ∈ t.scopes, a ∈ s.scopes ∨
      ∃ p bs, t.cells[a]? = some (.scope (some p) bs) ∧ p < a)
    (instances : ∀ a ∈ t.instances, a ∈ s.instances ∨ ∃ bs, t.cells[a]? = some (.instance bs))
    (cells : ∀ a c, t.Listed a → t.cells[a]? = some c →
      (s.Listed a ∧ s.cells[a]? = some c) ∨ t.CellListed c) : t.Sound where
  globalScope := by
    obtain ⟨bs, hg⟩ := h.globalScope
    exact grows.ext.scope_cell hg
  scopes_nodup := scopes_nodup
  instances_nodup := instances_nodup
  scope_cell a ha := by
    rcases scopes a ha with old | new
    · obtain ⟨p, bs, hc, lt⟩ := h.scope_cell a old
      obtain ⟨bs', hc'⟩ := grows.ext.scope_cell hc
      exact ⟨p, bs', hc', lt⟩
    · exact new
  instance_cell a ha := by
    rcases instances a ha with old | new
    · obtain ⟨bs, hc⟩ := h.instance_cell a old
      exact grows.ext.instance_cell hc
    · exact new
  cell_listed a c ha hc := by
    rcases cells a c ha hc with ⟨listed, old⟩ | new
    · exact (h.cell_listed a c listed old).mono grows
    · exact new

theorem nodup_push {xs : Array Address} (h : xs.toList.Nodup) (fresh : a ∉ xs) :
    (xs.push a).toList.Nodup := by
  rw [Array.toList_push]
  refine List.nodup_append.mpr ⟨h, by simp, ?_⟩
  rintro b hb c hc rfl
  obtain rfl := List.mem_singleton.mp hc
  exact fresh (Array.mem_toList_iff.mp hb)

theorem Sound.newScope (h : s.Sound) (hp : s.ScopeListed p) : (s.newScope p).2.Sound := by
  have new : (s.newScope p).2.cells[s.cells.size]? = some (.scope (some p) .empty) := by
    rw [cells_newScope, if_pos rfl]
  refine h.of_grows (grows_newScope s p) ?_ h.instances_nodup ?_ (fun a ha => .inl ha) ?_
  · exact nodup_push h.scopes_nodup fun mem => h.ne_size_of_listed (.inl (.inr mem)) rfl
  · intro a ha
    rcases Array.mem_push.mp ha with old | rfl
    · exact .inl old
    · exact .inr ⟨p, .empty, new, h.listed_lt (.inl hp)⟩
  · intro a c ha hc
    by_cases fresh : a = s.cells.size
    · rw [fresh, new] at hc
      cases hc
      refine .inr ⟨?_, bindingsListed_empty _⟩
      rintro q ⟨⟩
      exact hp.mono (grows_newScope s p)
    · rw [cells_newScope, if_neg fresh] at hc
      exact .inl ⟨ha.imp (.imp id fun mem => (Array.mem_push.mp mem).resolve_right fresh) id, hc⟩

theorem Sound.newInstance (h : s.Sound) : s.newInstance.2.Sound := by
  have new : s.newInstance.2.cells[s.cells.size]? = some (.instance .empty) := by
    rw [cells_newInstance, if_pos rfl]
  refine h.of_grows (grows_newInstance s) h.scopes_nodup ?_ (fun a ha => .inl ha) ?_ ?_
  · exact nodup_push h.instances_nodup fun mem => h.ne_size_of_listed (.inr mem) rfl
  · intro a ha
    rcases Array.mem_push.mp ha with old | rfl
    · exact .inl old
    · exact .inr ⟨.empty, new⟩
  · intro a c ha hc
    by_cases fresh : a = s.cells.size
    · rw [fresh, new] at hc
      cases hc
      exact .inr (bindingsListed_empty _)
    · rw [cells_newInstance, if_neg fresh] at hc
      exact .inl ⟨ha.imp id fun mem => (Array.mem_push.mp mem).resolve_right fresh, hc⟩

theorem Sound.newIdentity (h : s.Sound) : s.newIdentity.2.Sound := by
  refine h.of_grows (grows_newIdentity s) h.scopes_nodup h.instances_nodup
    (fun a ha => .inl ha) (fun a ha => .inl ha) ?_
  intro a c ha hc
  rw [cells_newIdentity, if_neg (h.ne_size_of_listed ha)] at hc
  exact .inl ⟨ha, hc⟩

theorem Sound.define (h : s.Sound) (hv : s.ValueListed value) : (s.define a name value).Sound := by
  have grows := grows_define s a name value
  refine h.of_grows grows h.scopes_nodup h.instances_nodup
    (fun b hb => .inl hb) (fun b hb => .inl hb) ?_
  intro b c hb hc
  rw [cells_define] at hc
  split at hc
  · obtain ⟨old, hold, rfl⟩ := Option.map_eq_some_iff.mp hc
    exact .inr (((h.cell_listed b old hb hold).mono grows).define (hv.mono grows))
  · exact .inl ⟨hb, hc⟩

theorem Sound.setField (h : s.Sound) (hv : s.ValueListed value) :
    (s.setField a name value).Sound := by
  have grows := grows_setField s a name value
  refine h.of_grows grows h.scopes_nodup h.instances_nodup
    (fun b hb => .inl hb) (fun b hb => .inl hb) ?_
  intro b c hb hc
  rw [cells_setField] at hc
  split at hc
  · obtain ⟨old, hold, rfl⟩ := Option.map_eq_some_iff.mp hc
    exact .inr (((h.cell_listed b old hb hold).mono grows).setField (hv.mono grows))
  · exact .inl ⟨hb, hc⟩

theorem grows_defineAll (s : Store) (a : Address) (entries : List (String × Value)) :
    s.Grows (s.defineAll a entries) := by
  induction entries generalizing s with
  | nil => exact .refl s
  | cons entry rest ih => exact (grows_define s a entry.1 entry.2).trans (ih _)

theorem Sound.defineAll (h : s.Sound) {entries : List (String × Value)}
    (hv : ∀ entry ∈ entries, s.ValueListed entry.2) : (s.defineAll a entries).Sound := by
  induction entries generalizing s with
  | nil => exact h
  | cons entry rest ih =>
      refine ih (h.define (hv entry List.mem_cons_self)) fun other mem => ?_
      exact (hv other (List.mem_cons_of_mem _ mem)).mono (grows_define s a entry.1 entry.2)

theorem grows_bindMethod (s : Store) (method : Closure) (receiver : Value) :
    s.Grows (s.bindMethod method receiver).2 :=
  (grows_newScope s method.scope).trans (grows_define _ _ _ _)

theorem Sound.bindMethod (h : s.Sound) {method : Closure} {receiver : Value}
    (hm : s.ScopeListed method.scope) (hr : s.ValueListed receiver) :
    (s.bindMethod method receiver).2.Sound :=
  (h.newScope hm).define (hr.mono (grows_newScope s method.scope))

theorem bindMethod_listed (s : Store) (method : Closure) (receiver : Value) :
    (s.bindMethod method receiver).2.ScopeListed (s.bindMethod method receiver).1.scope :=
  newScope_listed s method.scope

theorem grows_boundMethod (s : Store) (method : Closure) (receiver : Value) :
    s.Grows (s.boundMethod method receiver).2 :=
  (grows_bindMethod s method receiver).trans (grows_newIdentity _)

theorem Sound.boundMethod (h : s.Sound) {method : Closure} {receiver : Value}
    (hm : s.ScopeListed method.scope) (hr : s.ValueListed receiver) :
    (s.boundMethod method receiver).2.Sound := (h.bindMethod hm hr).newIdentity

theorem boundMethod_listed (s : Store) (method : Closure) (receiver : Value) :
    (s.boundMethod method receiver).2.ValueListed (s.boundMethod method receiver).1 :=
  bindMethod_listed s method receiver

theorem mem_lastOfEach {methods : List (String × Closure)} {m : String × Closure}
    (h : m ∈ lastOfEach methods) : m ∈ methods := by
  induction methods with
  | nil => cases h
  | cons first rest ih =>
      simp only [lastOfEach] at h
      split at h
      · exact List.mem_cons_of_mem _ (ih h)
      · rcases List.mem_cons.mp h with rfl | h
        · exact List.mem_cons_self
        · exact List.mem_cons_of_mem _ (ih h)

theorem newClass_listed (s : Store) {superclass : Option ClassObject}
    {methods : List (String × Closure)} (hm : ∀ m ∈ methods, s.ScopeListed m.2.scope)
    (hs : ∀ object ∈ superclass, s.ValueListed (.class object)) :
    (s.newClass name superclass methods).2.ValueListed
      (s.newClass name superclass methods).1 := by
  intro a ha
  obtain ⟨layer, hl, inLayer⟩ := List.mem_flatMap.mp ha
  rcases List.mem_cons.mp hl with rfl | hl
  · obtain ⟨m, mem, rfl⟩ := List.mem_map.mp inLayer
    exact hm m (mem_lastOfEach mem)
  · cases superclass with
    | none => cases hl
    | some object => exact hs object rfl a (List.mem_flatMap.mpr ⟨layer, hl, inLayer⟩)

end Store

end ClassScript
