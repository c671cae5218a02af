import ClassScript.Proofs.Collection.Tracing
import ClassScript.Proofs.Store.Stored

/-!
# Collections of any object graph

`Built` lists what can be done to a store from outside of a program: any scope and any value that
was ever made can be used again, also when a collection took it off the registry and emptied it.
Even so, everything refers to what it says it refers to (`Consistent`). The main statement is
`collection_exact`: tracing ends, whatever the order, and a collection keeps and releases exactly
what the trace tells it to.
-/

namespace ClassScript.Store

/-- The stores that any operations lead to, with the values that were made on the way. -/
inductive Built : Store → Set Value → Prop
  | initial : Built .initial ∅
  | simple {s made v} : Built s made → v.Plain ∨ v = .clock → Built s (insert v made)
  | child {s made parent} : Built s made → s.IsScope parent → Built (s.newScope parent).2 made
  | define {s made a name v} : Built s made → v ∈ made → Built (s.define a name v) made
  | assign {s made a name v line t} : Built s made → v ∈ made → s.assign a name v line = .ok t →
      Built t made
  | function {s made decl a} : Built s made → s.IsScope a →
      Built (s.newFunction decl a).2 (insert (s.newFunction decl a).1 made)
  | class {s made name superclass methods} : Built s made →
      (∀ object ∈ superclass, .class object ∈ made) → (∀ m ∈ methods, s.IsScope m.2.scope) →
      Built (s.newClass name superclass methods).2
        (insert (s.newClass name superclass methods).1 made)
  | instance {s made object} : Built s made → .class object ∈ made →
      Built s.newInstance.2 (insert (.instance s.newInstance.1 object) made)
  | setField {s made id object name v} : Built s made → .instance id object ∈ made → v ∈ made →
      Built (s.setField id name v) made
  | getProperty {s made id object name property} : Built s made → .instance id object ∈ made →
      s.property? id object name = some property →
      Built (s.readProperty id object property).2
        (insert (s.readProperty id object property).1 made)
  | collect {s made root} : Built s made → s.IsScope root → Built (s.collect root) made

def Grounded (s : Store) : Value → Prop
  | .function _ closure => s.IsScope closure.scope
  | .bound _ closure => s.IsScope closure.scope
  | .class object => ∀ a ∈ Value.classScopes object, s.IsScope a
  | .instance id object => s.IsInstance id ∧ ∀ a ∈ Value.classScopes object, s.IsScope a
  | _ => True

/-- Addresses are of the kind that they are used as, and identities are handed out once. -/
structure Consistent (s : Store) (made : Set Value) : Prop extends Told s made where
  grounded : ∀ v ∈ made, s.Grounded v
  parent : ∀ a p, s.parent? a = some p → s.IsScope p
  scopes : ∀ a ∈ s.scopes, s.IsScope a
  instances : ∀ a ∈ s.instances, s.IsInstance a
  classId : ∀ object, .class object ∈ made → object.layer.id < s.cells.size

variable {s t : Store} {made : Set Value} {a root : Address} {value : Value}

theorem Grounded.mono {v : Value} (ext : s.Extends t) (h : s.Grounded v) : t.Grounded v := by
  cases v with
  | function _ closure | bound _ closure => exact ext.isScope h
  | «class» object => exact fun a ha => ext.isScope (h a ha)
  | «instance» id object => exact ⟨ext.isInstance h.1, fun a ha => ext.isScope (h.2 a ha)⟩
  | _ => trivial

theorem Consistent.later (h : Consistent s made) (ext : s.Extends t)
    (binding : ∀ a, ∀ entry ∈ (t.bindings a).entries,
      entry.2 ∈ made ∨ entry ∈ (s.bindings a).entries)
    (field : ∀ a, ∀ entry ∈ (t.fields a).entries, entry.2 ∈ made ∨ entry ∈ (s.fields a).entries)
    (parent : ∀ a p, s.cells.size ≤ a → t.parent? a = some p → s.IsScope p)
    (scopes : ∀ a ∈ t.scopes, a ∈ s.scopes ∨ t.IsScope a)
    (instances : ∀ a ∈ t.instances, a ∈ s.instances ∨ t.IsInstance a) : Consistent t made where
  binding a entry he := (binding a entry he).elim id (h.binding a entry)
  field a entry he := (field a entry he).elim id (h.field a entry)
  superclass := h.superclass
  instanceOf := h.instanceOf
  sameClass := h.sameClass
  sameInstance := h.sameInstance
  grounded v hv := (h.grounded v hv).mono ext
  parent a p hp := by
    by_cases old : a < s.cells.size
    · rw [ext.parent?_eq old] at hp
      exact ext.isScope (h.parent a p hp)
    · exact ext.isScope (parent a p (Nat.le_of_not_lt old) hp)
  scopes a ha := (scopes a ha).elim (fun old => ext.isScope (h.scopes a old)) id
  instances a ha := (instances a ha).elim (fun old => ext.isInstance (h.instances a old)) id
  classId object ho := Nat.lt_of_lt_of_le (h.classId object ho) ext.size_le

theorem Consistent.define (h : Consistent s made) (a : Address) (name : String)
    (hv : value ∈ made) : Consistent (s.define a name value) made := by
  apply h.later (extends_define s a name value)
  · intro b entry he
    exact (mem_bindings_define he).imp (fun same => by rwa [same]) id
  · intro b entry he
    rw [fields_define] at he
    exact .inr he
  · intro b p le hp
    rw [parent?_of_size_le (size_define.trans_le le)] at hp
    cases hp
  · exact fun _ => .inl
  · exact fun _ => .inl

theorem Consistent.setField (h : Consistent s made) (a : Address) (name : String)
    (hv : value ∈ made) : Consistent (s.setField a name value) made := by
  apply h.later (extends_setField s a name value)
  · intro b entry he
    rw [bindings_setField] at he
    exact .inr he
  · intro b entry he
    exact (mem_fields_setField he).imp (fun same => by rwa [same]) id
  · intro b p le hp
    rw [parent?_of_size_le (size_setField.trans_le le)] at hp
    cases hp
  · exact fun _ => .inl
  · exact fun _ => .inl

theorem Consistent.newScope (h : Consistent s made) {parent : Address} (hp : s.IsScope parent) :
    Consistent (s.newScope parent).2 made := by
  have created : (s.newScope parent).2.IsScope s.cells.size :=
    ⟨_, _, (cells_newScope s parent _).trans (if_pos rfl)⟩
  apply h.later (extends_newScope s parent)
  · intro b entry he
    rw [bindings_newScope] at he
    split at he
    · cases he
    · exact .inr he
  · intro b entry he
    rw [fields_newScope] at he
    exact .inr he
  · intro b p le hb
    obtain ⟨bs, hc⟩ := cell_of_parent? hb
    rw [cells_newScope] at hc
    split at hc
    · cases hc
      exact hp
    · rw [Array.getElem?_eq_none le] at hc
      cases hc
  · intro b hb
    rcases Array.mem_push.mp hb with old | rfl
    · exact .inl old
    · exact .inr created
  · exact fun _ => .inl

theorem Consistent.newInstance (h : Consistent s made) : Consistent s.newInstance.2 made := by
  have created : s.newInstance.2.IsInstance s.cells.size :=
    ⟨_, (cells_newInstance s _).trans (if_pos rfl)⟩
  apply h.later (extends_newInstance s)
  · intro b entry he
    rw [bindings_newInstance] at he
    exact .inr he
  · intro b entry he
    rw [fields_newInstance] at he
    split at he
    · cases he
    · exact .inr he
  · intro b p le hb
    obtain ⟨bs, hc⟩ := cell_of_parent? hb
    rw [cells_newInstance] at hc
    split at hc
    · cases hc
    · rw [Array.getElem?_eq_none le] at hc
      cases hc
  · exact fun _ => .inl
  · intro b hb
    rcases Array.mem_push.mp hb with old | rfl
    · exact .inl old
    · exact .inr created

theorem Consistent.newIdentity (h : Consistent s made) : Consistent s.newIdentity.2 made := by
  apply h.later (extends_newIdentity s)
  · intro b entry he
    rw [bindings_newIdentity] at he
    exact .inr he
  · intro b entry he
    rw [fields_newIdentity] at he
    exact .inr he
  · intro b p le hb
    obtain ⟨bs, hc⟩ := cell_of_parent? hb
    rw [cells_newIdentity] at hc
    split at hc
    · cases hc
    · rw [Array.getElem?_eq_none le] at hc
      cases hc
  · exact fun _ => .inl
  · exact fun _ => .inl

theorem Consistent.collect (h : Consistent s made) (root : Address) :
    Consistent (s.collect root) made := by
  apply h.later (extends_collect s root)
  · intro a entry he
    by_cases released : s.Releases root a
    · rw [bindings_collect_of_releases released] at he
      cases he
    · rw [bindings_collect_of_kept released] at he
      exact .inr he
  · intro a entry he
    by_cases released : s.Releases root a
    · rw [fields_collect_of_releases released] at he
      cases he
    · rw [fields_collect_of_kept released] at he
      exact .inr he
  · intro b p le hp
    rw [parent?_of_size_le (size_collect.trans_le le)] at hp
    cases hp
  · exact fun b hb => .inl (mem_scopes_collect.mp hb).1
  · exact fun b hb => .inl (mem_instances_collect.mp hb).1

/-! ## New values -/

theorem Consistent.make (h : Consistent s made) (grounded : s.Grounded value)
    (superclass : ∀ layer above rest, value = .class ⟨layer, above :: rest⟩ →
      .class ⟨above, rest⟩ ∈ made)
    (instanceOf : ∀ id object, value = .instance id object → .class object ∈ made)
    (classId : ∀ object, value = .class object → object.layer.id < s.cells.size ∧
      ∀ other, .class other ∈ made → other.layer.id ≠ object.layer.id)
    (instanceId : ∀ id object, value = .instance id object → ∀ other, .instance id other ∉ made) :
    Consistent s (insert value made) where
  binding a entry he := .inr (h.binding a entry he)
  field a entry he := .inr (h.field a entry he)
  superclass layer above rest mem := by
    rcases mem with rfl | mem
    · exact .inr (superclass _ _ _ rfl)
    · exact .inr (h.superclass _ _ _ mem)
  instanceOf id object mem := by
    rcases mem with rfl | mem
    · exact .inr (instanceOf _ _ rfl)
    · exact .inr (h.instanceOf _ _ mem)
  sameClass object other ho ho' same := by
    rcases ho with rfl | ho <;> rcases ho' with eq | ho'
    · exact (Value.class.inj eq).symm
    · exact ((classId _ rfl).2 other ho' same.symm).elim
    · exact ((classId _ eq.symm).2 object ho same).elim
    · exact h.sameClass _ _ ho ho' same
  sameInstance id object other ho ho' := by
    rcases ho with rfl | ho <;> rcases ho' with eq | ho'
    · exact (Value.instance.inj eq).2.symm
    · exact (instanceId _ _ rfl other ho').elim
    · exact (instanceId _ _ eq.symm object ho).elim
    · exact h.sameInstance _ _ _ ho ho'
  grounded v mem := by
    rcases mem with rfl | mem
    · exact grounded
    · exact h.grounded v mem
  parent := h.parent
  scopes := h.scopes
  instances := h.instances
  classId object mem := by
    rcases mem with rfl | mem
    · exact (classId _ rfl).1
    · exact h.classId object mem

theorem Consistent.newFunction (h : Consistent s made) (decl : FunctionDecl Stmt)
    (ha : s.IsScope a) :
    Consistent (s.newFunction decl a).2 (insert (s.newFunction decl a).1 made) := by
  apply h.newIdentity.make
  · exact (extends_newIdentity s).isScope ha
  all_goals
    intros
    contradiction

theorem Consistent.boundMethod (h : Consistent s made) {closure : Closure} (receiver : Value)
    (hc : s.IsScope closure.scope) (hr : receiver ∈ made) :
    Consistent (s.boundMethod closure receiver).2
      (insert (s.boundMethod closure receiver).1 made) := by
  have bound := ((h.newScope hc).define (s.newScope closure.scope).1 receiverName hr).newIdentity
  apply bound.make
  · exact (extends_newIdentity _).isScope ((extends_define _ _ _ _).isScope
      ⟨_, _, (cells_newScope s closure.scope _).trans (if_pos rfl)⟩)
  all_goals
    intros
    contradiction

theorem Consistent.newClass (h : Consistent s made) (name : String)
    {superclass : Option ClassObject} {methods : List (String × Closure)}
    (hs : ∀ object ∈ superclass, .class object ∈ made) (hm : ∀ m ∈ methods, s.IsScope m.2.scope) :
    Consistent (s.newClass name superclass methods).2
      (insert (s.newClass name superclass methods).1 made) := by
  have ext := extends_newIdentity s
  apply h.newIdentity.make
  · intro a ha
    obtain ⟨layer, hl, inLayer⟩ := List.mem_flatMap.mp ha
    rcases List.mem_cons.mp hl with rfl | hl
    · obtain ⟨m, mem, rfl⟩ := List.mem_map.mp inLayer
      exact ext.isScope (hm m (mem_lastOfEach mem))
    · cases superclass with
      | none => cases hl
      | some object =>
          have above := h.grounded _ (hs object rfl)
          exact ext.isScope (above a (List.mem_flatMap.mpr ⟨layer, hl, inLayer⟩))
  · intro layer above rest eq
    have ancestors := congrArg ClassObject.ancestors (Value.class.inj eq)
    cases superclass with
    | none => cases ancestors
    | some object =>
        obtain ⟨first, others⟩ := object
        cases ancestors
        exact hs _ rfl
  · intros
    contradiction
  · intro object eq
    obtain rfl := Value.class.inj eq
    refine ⟨?_, fun other mem => Nat.ne_of_lt (h.classId other mem)⟩
    exact Nat.lt_of_lt_of_eq (Nat.lt_succ_self _) (Array.size_push _).symm
  · intros
    contradiction

theorem Consistent.instance (h : Consistent s made) {object : ClassObject}
    (ho : .class object ∈ made) :
    Consistent s.newInstance.2 (insert (.instance s.newInstance.1 object) made) := by
  have ext := extends_newInstance s
  apply h.newInstance.make
  · refine ⟨⟨_, (cells_newInstance s _).trans (if_pos rfl)⟩, fun a ha => ?_⟩
    exact ext.isScope (h.grounded _ ho a ha)
  · intros
    contradiction
  · intro id other eq
    cases eq
    exact ho
  · intros
    contradiction
  · intro id other eq another mem
    cases eq
    exact Nat.lt_irrefl _ (h.grounded _ mem).1.lt

theorem consistent_initial : Consistent .initial ∅ where
  binding a entry he := by
    cases a <;> cases he
  field a entry he := by
    cases a <;> cases he
  superclass _ _ _ mem := mem.elim
  instanceOf _ _ mem := mem.elim
  sameClass _ _ mem := mem.elim
  sameInstance _ _ _ mem := mem.elim
  grounded _ mem := mem.elim
  parent a p hp := by
    cases a <;> cases hp
  scopes a ha := by simp [Store.initial] at ha
  instances a ha := by simp [Store.initial] at ha
  classId _ mem := mem.elim

theorem Consistent.readProperty (h : Consistent s made) {id : Address} {object : ClassObject}
    {name : String} {property : Property} (ho : .instance id object ∈ made)
    (found : s.property? id object name = some property) :
    Consistent (s.readProperty id object property).2
      (insert (s.readProperty id object property).1 made) := by
  unfold property? at found
  split at found
  · rename_i value stored
    cases found
    have mem := h.field id _ (Bindings.mem_entries_of_get? stored)
    show Consistent s (insert value made)
    rw [Set.insert_eq_of_mem mem]
    exact h
  · obtain ⟨closure, method, rfl⟩ := Option.map_eq_some_iff.mp found
    exact h.boundMethod _ ((h.grounded _ ho).2 _ (method?_scope_mem method)) ho

theorem Built.consistent (built : s.Built made) : Consistent s made := by
  induction built with
  | initial => exact consistent_initial
  | @simple s made v _ simple ih =>
      apply ih.make
      · cases v <;> simp_all [Value.Plain, Grounded]
      all_goals
        intros
        simp_all [Value.Plain]
  | child _ hp ih => exact ih.newScope hp
  | define _ hv ih => exact ih.define _ _ hv
  | assign _ hv assigned ih =>
      unfold Store.assign at assigned
      cases found : target _ _ _ _ with
      | ok holder =>
          rw [found] at assigned
          cases assigned
          exact ih.define holder _ hv
      | error e =>
          rw [found] at assigned
          cases assigned
  | function _ ha ih => exact ih.newFunction _ ha
  | «class» _ hs hm ih => exact ih.newClass _ hs hm
  | «instance» _ ho ih => exact ih.instance ho
  | setField _ _ hv ih => exact ih.setField _ _ hv
  | getProperty _ ho found ih => exact ih.readProperty ho found
  | collect _ _ ih => exact ih.collect _

/-! ## Marks -/

theorem Consistent.led (h : Consistent s made) (hr : s.IsScope root) {x : Node}
    (led : Relation.ReflTransGen s.Leads (.scope root) x) :
    x.Among made ∧ ∀ a, x = .scope a → s.IsScope a := by
  induction led with
  | refl =>
      refine ⟨trivial, fun a eq => ?_⟩
      cases eq
      exact hr
  | tail _ leads ih =>
      refine ⟨h.toTold.leads ih.1 leads, fun a eq => ?_⟩
      subst eq
      cases leads with
      | parent hp => exact h.parent _ _ hp
      | function | bound => exact h.grounded _ ih.1
      | method mem => exact h.grounded _ ih.1 _ (mem_classScopes_of_method mem)

theorem Consistent.addressLive_iff (h : Consistent s made) (hr : s.IsScope root) :
    s.Reaches root a ↔ s.AddressLive root a := by
  constructor
  · apply addressLive_of_kinds
    · exact fun b led => (h.led hr led).2 b rfl
    · exact fun b object led => (h.grounded _ (h.led hr led).1).1
  · rintro (led | ⟨object, led⟩)
    · exact reaches_of_leads led a (List.mem_singleton.mpr rfl)
    · exact reaches_of_leads led a List.mem_cons_self

theorem Consistent.mem_marked (h : Consistent s made) (hr : s.IsScope root) :
    a ∈ s.marked root ↔ s.AddressLive root a := by
  rw [mem_marked_iff_reaches, h.addressLive_iff hr]
  intro b reach
  rcases (h.addressLive_iff hr).mp reach with led | ⟨object, led⟩
  · exact ((h.led hr led).2 b rfl).lt
  · exact (h.grounded _ (h.led hr led).1).1.lt

theorem Consistent.mem_marked_scope (h : Consistent s made) (hr : s.IsScope root)
    (ha : s.IsScope a) :
    a ∈ s.marked root ↔ Relation.ReflTransGen s.Leads (.scope root) (.scope a) := by
  rw [h.mem_marked hr]
  constructor
  · rintro (led | ⟨object, led⟩)
    · exact led
    · exact (ha.not_isInstance (h.grounded _ (h.led hr led).1).1).elim
  · exact .inl

theorem Consistent.mem_marked_instance (h : Consistent s made) (hr : s.IsScope root)
    (ha : s.IsInstance a) : a ∈ s.marked root ↔
      ∃ object, Relation.ReflTransGen s.Leads (.scope root) (.value (.instance a object)) := by
  rw [h.mem_marked hr]
  constructor
  · rintro (led | led)
    · exact (((h.led hr led).2 a rfl).not_isInstance ha).elim
    · exact led
  · exact .inr

/-! ## Collecting -/

theorem shouldCollect_collect : (s.collect root).shouldCollect = false := by
  apply decide_eq_false
  simp only [collect, firstThreshold]
  omega

theorem filter_eq_of_mem_iff {ids : Array Address} {marks : Marks} {met : Finset Address}
    (h : ∀ a ∈ ids, a ∈ marks ↔ a ∈ met) : ids.filter marks.contains = ids.filter (· ∈ met) := by
  apply Array.toList_inj.mp
  rw [Array.toList_filter, Array.toList_filter]
  apply List.filter_congr
  intro a ha
  rw [Bool.eq_iff_iff, decide_eq_true_iff]
  exact Std.TreeSet.contains_iff_mem.trans (h a (Array.mem_toList_iff.mp ha))

def Traces (s : Store) (root : Address) (marks : Trace) : Prop :=
  Relation.ReflTransGen (Trace.Step s) (.start root) marks ∧ marks.Done

/-- For a store that any operations led to, and any scope in it as a root: every trace ends, and has
then met the scopes and the instances that the root leads to. A collection leaves those as they are,
and everything that is not registered. Of what is registered, it empties all else, and keeps the
rest on the registry, in the same order. Right behind it there is no need for another one. -/
theorem collection_exact (built : s.Built made) (hr : s.IsScope root) :
    (WellFounded fun u t => Trace.Step s t u) ∧
    (∀ t : Trace, t.Done ∨ ∃ u, Trace.Step s t u) ∧
    ∀ marks, s.Traces root marks →
      (∀ a, a ∈ marks.scopes ↔ Relation.ReflTransGen s.Leads (.scope root) (.scope a)) ∧
      (∀ id, id ∈ marks.instances ↔
        ∃ object, Relation.ReflTransGen s.Leads (.scope root) (.value (.instance id object))) ∧
      let t := s.collect root
      (∀ a ∈ marks.scopes, t.bindings a = s.bindings a) ∧
      (∀ id ∈ marks.instances, t.fields id = s.fields id) ∧
      (∀ a, a ∉ s.scopes → a ∉ s.instances → t.cells[a]? = s.cells[a]?) ∧
      (∀ a ∈ s.scopes, a ∉ marks.scopes → t.bindings a = .empty) ∧
      (∀ id ∈ s.instances, id ∉ marks.instances → t.fields id = .empty) ∧
      (∀ a, t.parent? a = s.parent? a) ∧
      t.scopes = s.scopes.filter (· ∈ marks.scopes) ∧
      t.instances = s.instances.filter (· ∈ marks.instances) ∧
      t.threshold = max 1024 (2 * (t.scopes.size + t.instances.size)) ∧
      t.shouldCollect = false := by
  have h := built.consistent
  refine ⟨Trace.terminates s, fun t => ?_, fun marks traces => ?_⟩
  · by_cases done : t.Done
    · exact .inl done
    · exact .inr (Trace.exists_step done)
  -- A trace and the marks of a collection meet the same things: both meet what the root leads to.
  have scopes : ∀ a, a ∈ marks.scopes ↔ _ :=
    fun a => Trace.mem_scopes_iff h.toTold traces.1 traces.2
  have instances : ∀ id, id ∈ marks.instances ↔ _ :=
    fun id => Trace.mem_instances_iff h.toTold traces.1 traces.2
  have sameScopes : ∀ a ∈ s.scopes, a ∈ s.marked root ↔ a ∈ marks.scopes :=
    fun a ha => (h.mem_marked_scope hr (h.scopes a ha)).trans (scopes a).symm
  have sameInstances : ∀ id ∈ s.instances, id ∈ s.marked root ↔ id ∈ marks.instances :=
    fun id hid => (h.mem_marked_instance hr (h.instances id hid)).trans (instances id).symm
  refine ⟨scopes, instances, ?_, ?_, ?_, ?_, ?_, ?_, ?_, ?_, rfl, shouldCollect_collect⟩
  · intro a ha
    have marked := (h.mem_marked hr).mpr (.inl ((scopes a).mp ha))
    exact bindings_collect_of_kept fun released => released.2 marked
  · intro id hid
    have marked := (h.mem_marked hr).mpr (.inr ((instances id).mp hid))
    exact fields_collect_of_kept fun released => released.2 marked
  · intro a noScope noInstance
    exact cells_collect_of_kept fun released => released.1.elim noScope noInstance
  · intro a ha unmet
    exact bindings_collect_of_releases ⟨.inl ha, fun marked => unmet ((sameScopes a ha).mp marked)⟩
  · intro id hid unmet
    exact fields_collect_of_releases
      ⟨.inr hid, fun marked => unmet ((sameInstances id hid).mp marked)⟩
  · exact parent?_collect s root
  · exact filter_eq_of_mem_iff sameScopes
  · exact filter_eq_of_mem_iff sameInstances

def cyclicFunction : FunctionDecl Stmt := ⟨⟨.identifier, "f", none, 1⟩, [], []⟩

def cycles : Store :=
  let s := (initial.newScope globals).2
  let (f, s) := s.newFunction cyclicFunction 1
  let s := ((s.define 1 "f" f).newScope globals).2
  let (g, s) := s.newFunction cyclicFunction 3
  (s.define 3 "g" g).define globals "g" g

theorem built_cycles : ∃ made, cycles.Built made := by
  have s1 := @Built.child initial ∅ globals .initial ⟨none, .empty, rfl⟩
  have s2 := @Built.function _ _ cyclicFunction 1 s1 ⟨some globals, .empty, rfl⟩
  have s3 := @Built.define _ _ 1 "f" _ s2 (Set.mem_insert _ _)
  have s4 := @Built.child _ _ globals s3 ⟨none, .empty, rfl⟩
  have s5 := @Built.function _ _ cyclicFunction 3 s4 ⟨some globals, .empty, rfl⟩
  have s6 := @Built.define _ _ 3 "g" _ s5 (Set.mem_insert _ _)
  exact ⟨_, s6.define (Set.mem_insert _ _)⟩

theorem collection_exact_cycles : ∃ made marks, cycles.Built made ∧ cycles.IsScope globals ∧
    cycles.Traces globals marks ∧ 1 ∉ marks.scopes ∧ 3 ∈ marks.scopes ∧
    (cycles.collect globals).bindings 1 = .empty ∧
    (cycles.collect globals).bindings 3 = cycles.bindings 3 := by
  obtain ⟨made, built⟩ := built_cycles
  have root : cycles.IsScope globals := ⟨none, _, rfl⟩
  obtain ⟨marks, steps, done⟩ := Trace.exists_done cycles (.start globals)
  have exact := (collection_exact built root).2.2 marks ⟨steps, done⟩
  obtain ⟨scopes, -, kept, -, -, emptied, -, -, registry, -⟩ := exact
  have registered : 1 ∈ cycles.scopes := by decide +kernel
  have left : (cycles.collect globals).scopes = #[3] := by decide +kernel
  have met : 3 ∈ marks.scopes := by
    have mem : 3 ∈ (cycles.collect globals).scopes := by simp [left]
    rw [registry] at mem
    simpa using (Array.mem_filter.mp mem).2
  have unmet : 1 ∉ marks.scopes := by
    intro mem
    have stays : 1 ∈ (cycles.collect globals).scopes := by
      rw [registry]
      exact Array.mem_filter.mpr ⟨registered, by simpa using mem⟩
    simp [left] at stays
  exact ⟨made, marks, built, root, ⟨steps, done⟩, unmet, met, emptied 1 registered unmet,
    kept 3 met⟩

end ClassScript.Store
