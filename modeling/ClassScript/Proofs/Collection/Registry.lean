import Mathlib.Data.Set.Card
import ClassScript.Proofs.Collection.Alike
import ClassScript.Proofs.Session.Reached

/-!
# The registry after a run

`Leads` follows what a scope, a value or an instance holds on to, one thing at a time. The main
statement is `registry_exact`: after a program was run, however it ended, the registry lists the
scopes and the instances that the global scope leads to, each once, and nothing else.
-/

namespace ClassScript.Store

inductive Node where
  | scope (a : Address)
  | value (v : Value)

/-- What a scope or a value holds on to. -/
inductive Leads (s : Store) : Node → Node → Prop
  | binding {a entry} : entry ∈ (s.bindings a).entries → Leads s (.scope a) (.value entry.2)
  | parent {a p} : s.parent? a = some p → Leads s (.scope a) (.scope p)
  | function {id closure} : Leads s (.value (.function id closure)) (.scope closure.scope)
  | bound {id closure} : Leads s (.value (.bound id closure)) (.scope closure.scope)
  | method {object m} : m ∈ object.layer.methods →
    Leads s (.value (.class object)) (.scope m.2.scope)
  | superclass {layer above rest} :
      Leads s (.value (.class ⟨layer, above :: rest⟩)) (.value (.class ⟨above, rest⟩))
  | instanceOf {id object} : Leads s (.value (.instance id object)) (.value (.class object))
  | field {id object entry} : entry ∈ (s.fields id).entries →
      Leads s (.value (.instance id object)) (.value entry.2)

def ScopeLive (s : Store) (a : Address) : Prop :=
  Relation.ReflTransGen s.Leads (.scope globals) (.scope a)

def InstanceLive (s : Store) (id : Address) : Prop :=
  ∃ object, Relation.ReflTransGen s.Leads (.scope globals) (.value (.instance id object))

variable {s : Store} {a b root : Address} {x y : Node}

def Node.addresses : Node → List Address
  | .scope a => [a]
  | .value v => v.references

def Node.Listed (s : Store) : Node → Prop
  | .scope a => s.ScopeListed a
  | .value v => s.ValueListed v

theorem mem_referencesOf_of_binding {entry : String × Value}
    (h : entry ∈ (s.bindings a).entries) (hb : b ∈ entry.2.references) : b ∈ s.referencesOf a := by
  unfold bindings at h
  split at h
  · rename_i parent bs hc
    rw [referencesOf_of_cell hc]
    exact List.mem_append_right _ (List.mem_flatMap.mpr ⟨entry, h, hb⟩)
  · cases h

theorem mem_referencesOf_of_field {entry : String × Value}
    (h : entry ∈ (s.fields a).entries) (hb : b ∈ entry.2.references) : b ∈ s.referencesOf a := by
  unfold fields at h
  split at h
  · rename_i bs hc
    rw [referencesOf_of_cell hc]
    exact List.mem_flatMap.mpr ⟨entry, h, hb⟩
  · cases h

theorem mem_classScopes_of_method {object : ClassObject} {m : String × Closure}
    (h : m ∈ object.layer.methods) : m.2.scope ∈ Value.classScopes object :=
  List.mem_flatMap.mpr ⟨object.layer, List.mem_cons_self, List.mem_map.mpr ⟨m, h, rfl⟩⟩

theorem classScopes_superclass {layer above : ClassLayer} {rest : List ClassLayer}
    (h : a ∈ Value.classScopes ⟨above, rest⟩) : a ∈ Value.classScopes ⟨layer, above :: rest⟩ :=
  List.mem_flatMap.mpr
    (by obtain ⟨l, hl, ha⟩ := List.mem_flatMap.mp h
        exact ⟨l, List.mem_cons_of_mem _ hl, ha⟩)

theorem Leads.reaches (h : s.Leads x y) (hx : ∀ a ∈ x.addresses, s.Reaches root a) :
    ∀ b ∈ y.addresses, s.Reaches root b := by
  intro b hb
  cases h with
  | binding mem =>
      exact (hx _ (List.mem_singleton.mpr rfl)).tail (mem_referencesOf_of_binding mem hb)
  | parent hp =>
      obtain rfl := List.mem_singleton.mp hb
      exact (hx _ (List.mem_singleton.mpr rfl)).trans (reaches_parent? hp)
  | function => exact hx b hb
  | bound => exact hx b hb
  | method mem =>
      obtain rfl := List.mem_singleton.mp hb
      exact hx _ (mem_classScopes_of_method mem)
  | superclass => exact hx b (classScopes_superclass hb)
  | instanceOf => exact hx b (List.mem_cons_of_mem _ hb)
  | field mem => exact (hx _ List.mem_cons_self).tail (mem_referencesOf_of_field mem hb)

theorem reaches_of_leads (h : Relation.ReflTransGen s.Leads (.scope root) x) :
    ∀ a ∈ x.addresses, s.Reaches root a := by
  induction h with
  | refl =>
      intro a ha
      rw [List.mem_singleton.mp ha]
      exact .refl
  | tail _ step ih => exact step.reaches ih

theorem Leads.listed (sound : s.Sound) (h : s.Leads x y) (hx : x.Listed s) : y.Listed s := by
  cases h with
  | @binding a entry mem =>
      obtain ⟨parent, bs, hc⟩ := sound.scopeListed_cell hx
      rw [bindings_of_cell hc] at mem
      exact (sound.cell_listed a _ (.inl hx) hc).2 entry mem
  | parent hp => exact sound.parent_listed hx hp
  | function => exact hx
  | bound => exact hx
  | method mem => exact hx _ (mem_classScopes_of_method mem)
  | superclass => exact fun a ha => hx a (classScopes_superclass ha)
  | instanceOf => exact hx.2
  | @field id object entry mem =>
      obtain ⟨bs, hc⟩ := sound.instance_cell id hx.1
      rw [fields_of_cell hc] at mem
      exact sound.cell_listed id _ (.inr hx.1) hc entry mem

theorem listed_of_leads (sound : s.Sound) (hr : s.ScopeListed root)
    (h : Relation.ReflTransGen s.Leads (.scope root) x) : x.Listed s := by
  induction h with
  | refl => exact hr
  | tail _ step ih => exact step.listed sound ih

theorem leads_classScopes {object : ClassObject} (h : a ∈ Value.classScopes object) :
    Relation.ReflTransGen s.Leads (.value (.class object)) (.scope a) := by
  obtain ⟨layer, ancestors⟩ := object
  induction ancestors generalizing layer with
  | nil =>
      obtain ⟨l, hl, ha⟩ := List.mem_flatMap.mp h
      obtain rfl := List.mem_singleton.mp hl
      obtain ⟨m, mem, rfl⟩ := List.mem_map.mp ha
      exact .single (.method mem)
  | cons above rest ih =>
      obtain ⟨l, hl, ha⟩ := List.mem_flatMap.mp h
      rcases List.mem_cons.mp hl with rfl | hl
      · obtain ⟨m, mem, rfl⟩ := List.mem_map.mp ha
        exact .single (.method mem)
      · exact .head .superclass (ih above (List.mem_flatMap.mpr ⟨l, hl, ha⟩))

def AddressLive (s : Store) (root a : Address) : Prop :=
  Relation.ReflTransGen s.Leads (.scope root) (.scope a) ∨
    ∃ object, Relation.ReflTransGen s.Leads (.scope root) (.value (.instance a object))

theorem addressLive_of_value {v : Value}
    (h : Relation.ReflTransGen s.Leads (.scope root) (.value v)) (ha : a ∈ v.references) :
    s.AddressLive root a := by
  cases v with
  | function id closure =>
      obtain rfl := List.mem_singleton.mp ha
      exact .inl (h.tail .function)
  | bound id closure =>
      obtain rfl := List.mem_singleton.mp ha
      exact .inl (h.tail .bound)
  | «class» object => exact .inl (h.trans (leads_classScopes ha))
  | «instance» id object =>
      rcases List.mem_cons.mp ha with rfl | ha
      · exact .inr ⟨object, h⟩
      · exact .inl ((h.tail .instanceOf).trans (leads_classScopes ha))
  | _ => cases ha

theorem addressLive_of_kinds
    (scopes : ∀ b, Relation.ReflTransGen s.Leads (.scope root) (.scope b) → s.IsScope b)
    (instances : ∀ b object, Relation.ReflTransGen s.Leads (.scope root)
      (.value (.instance b object)) → s.IsInstance b)
    (h : s.Reaches root a) : s.AddressLive root a := by
  induction h with
  | refl => exact .inl .refl
  | @tail a b _ step ih =>
      rcases ih with live | ⟨object, live⟩
      · obtain ⟨parent, bs, hc⟩ := scopes a live
        rw [referencesOf_of_cell hc] at step
        rcases List.mem_append.mp step with mem | mem
        · obtain rfl := Option.mem_toList.mp mem
          exact .inl (live.tail (.parent (parent?_of_cell hc)))
        · obtain ⟨entry, he, mem⟩ := List.mem_flatMap.mp mem
          rw [← bindings_of_cell hc] at he
          exact addressLive_of_value (live.tail (.binding he)) mem
      · obtain ⟨bs, hc⟩ := instances a object live
        rw [referencesOf_of_cell hc] at step
        obtain ⟨entry, he, mem⟩ := List.mem_flatMap.mp step
        rw [← fields_of_cell hc] at he
        exact addressLive_of_value (live.tail (.field he)) mem

theorem addressLive_of_reaches (sound : s.Sound) (hr : s.ScopeListed root)
    (h : s.Reaches root a) : s.AddressLive root a := by
  apply addressLive_of_kinds _ _ h
  · exact fun b live => sound.scopeListed_cell (listed_of_leads sound hr live)
  · intro b object live
    have listed : s.ValueListed (.instance b object) := listed_of_leads sound hr live
    exact sound.instance_cell b listed.1

theorem Sound.scope_not_instance (h : s.Sound) (ha : s.ScopeListed a) : a ∉ s.instances := by
  intro mem
  obtain ⟨parent, bs, hc⟩ := h.scopeListed_cell ha
  obtain ⟨bs', hc'⟩ := h.instance_cell a mem
  rw [hc] at hc'
  cases hc'

theorem Sound.scopeLive_iff (h : s.Sound) :
    s.ScopeLive a ↔ s.ScopeListed a ∧ s.Reaches globals a := by
  constructor
  · intro live
    exact ⟨listed_of_leads h (scopeListed_globals s) live,
      reaches_of_leads live a (List.mem_singleton.mpr rfl)⟩
  · rintro ⟨listed, reach⟩
    rcases addressLive_of_reaches h (scopeListed_globals s) reach with live | ⟨object, live⟩
    · exact live
    · have inst : s.ValueListed (.instance a object) :=
        listed_of_leads h (scopeListed_globals s) live
      exact (h.scope_not_instance listed inst.1).elim

theorem Sound.instanceLive_iff (h : s.Sound) :
    s.InstanceLive a ↔ a ∈ s.instances ∧ s.Reaches globals a := by
  constructor
  · rintro ⟨object, live⟩
    have listed : s.ValueListed (.instance a object) :=
      listed_of_leads h (scopeListed_globals s) live
    exact ⟨listed.1, reaches_of_leads live a List.mem_cons_self⟩
  · rintro ⟨mem, reach⟩
    rcases addressLive_of_reaches h (scopeListed_globals s) reach with live | live
    · exact (h.scope_not_instance (listed_of_leads h (scopeListed_globals s) live) mem).elim
    · exact live

/-- The registry lists the live scopes but the global one, and the live instances, each once. -/
structure RegistryExact (s : Store) : Prop where
  scopes : ∀ a, a ∈ s.scopes ↔ s.ScopeLive a ∧ a ≠ globals
  instances : ∀ a, a ∈ s.instances ↔ s.InstanceLive a
  scopes_nodup : s.scopes.toList.Nodup
  instances_nodup : s.instances.toList.Nodup

theorem Sound.reaches_collect (h : s.Sound) (hr : s.ScopeListed root) :
    (s.collect root).Reaches root a ↔ s.Reaches root a := by
  have same : ∀ b, s.Reaches root b →
      (s.collect root).referencesOf b = s.referencesOf b := by
    intro b hb
    unfold referencesOf
    rw [cells_collect_of_marked ((h.mem_marked_iff hr).mpr hb)]
  constructor
  · intro reach
    induction reach with
    | refl => exact .refl
    | tail _ step ih => exact ih.tail (same _ ih ▸ step)
  · intro reach
    induction reach with
    | refl => exact .refl
    | tail before step ih => exact ih.tail (same _ before ▸ step)

theorem Sound.registryExact_collect (h : s.Sound) : (s.collect globals).RegistryExact := by
  have root := scopeListed_globals s
  have collected := h.collect root
  refine ⟨fun a => ?_, fun a => ?_, collected.scopes_nodup, collected.instances_nodup⟩
  · rw [collected.scopeLive_iff, h.reaches_collect root, mem_scopes_collect, h.mem_marked_iff root]
    constructor
    · rintro ⟨mem, reach⟩
      have listed : (s.collect globals).ScopeListed a :=
        .inr (mem_scopes_collect.mpr ⟨mem, (h.mem_marked_iff root).mpr reach⟩)
      exact ⟨⟨listed, reach⟩, fun eq => h.globals_not_registered (eq ▸ mem)⟩
    · rintro ⟨⟨listed, reach⟩, ne⟩
      exact ⟨(mem_scopes_collect.mp (listed.resolve_left ne)).1, reach⟩
  · rw [collected.instanceLive_iff, h.reaches_collect root, mem_instances_collect,
      h.mem_marked_iff root]
    tauto

theorem ncard_eq_size {xs : Array Address} {live : Set Address} (nodup : xs.toList.Nodup)
    (mem : ∀ a, a ∈ xs ↔ a ∈ live) : live.ncard = xs.size := by
  have eq : live = ↑xs.toList.toFinset := by
    ext a
    simp [← mem]
  rw [eq, Set.ncard_coe_finset, List.toFinset_card_of_nodup nodup, Array.length_toList]

theorem RegistryExact.counts (h : s.RegistryExact) :
    {a | s.ScopeLive a ∧ a ≠ globals}.ncard = s.scopes.size ∧
      {a | s.InstanceLive a}.ncard = s.instances.size :=
  ⟨ncard_eq_size h.scopes_nodup h.scopes, ncard_eq_size h.instances_nodup h.instances⟩

theorem RegistryExact.live_binding (h : s.RegistryExact) (ha : s.ScopeListed a)
    {entry : String × Value} (mem : entry ∈ (s.bindings a).entries) :
    Relation.ReflTransGen s.Leads (.scope globals) (.value entry.2) := by
  rcases ha with rfl | listed
  · exact .single (.binding mem)
  · exact ((h.scopes a).mp listed).1.tail (.binding mem)

theorem RegistryExact.live_field (h : s.RegistryExact) (ha : a ∈ s.instances)
    {entry : String × Value} (mem : entry ∈ (s.fields a).entries) :
    Relation.ReflTransGen s.Leads (.scope globals) (.value entry.2) := by
  obtain ⟨_, live⟩ := (h.instances a).mp ha
  exact live.tail (.field mem)

variable {t : Store}

theorem Alike.leads (h : s.Alike t) (hs : x.Listed s) (ht : x.Listed t) (step : s.Leads x y) :
    t.Leads x y := by
  cases step with
  | binding mem =>
      rw [h.bindings ⟨hs, ht⟩] at mem
      exact .binding mem
  | parent found =>
      rw [h.parent? ⟨hs, ht⟩] at found
      exact .parent found
  | function => exact .function
  | bound => exact .bound
  | method mem => exact .method mem
  | superclass => exact .superclass
  | instanceOf => exact .instanceOf
  | field mem =>
      rw [h.fields hs.1 ht.1] at mem
      exact .field mem

theorem Alike.live (h : s.Alike t) (path : Relation.ReflTransGen s.Leads (.scope globals) x) :
    Relation.ReflTransGen t.Leads (.scope globals) x := by
  induction path with
  | refl => exact .refl
  | tail path step ih =>
      have hs := listed_of_leads h.left (scopeListed_globals s) path
      have ht := listed_of_leads h.right (scopeListed_globals t) ih
      exact ih.tail (h.leads hs ht step)

theorem Alike.scopeLive_iff (h : s.Alike t) : s.ScopeLive a ↔ t.ScopeLive a :=
  ⟨h.live, h.symm.live⟩

theorem Alike.instanceLive_iff (h : s.Alike t) : s.InstanceLive a ↔ t.InstanceLive a :=
  ⟨fun ⟨object, path⟩ => ⟨object, h.live path⟩, fun ⟨object, path⟩ => ⟨object, h.symm.live path⟩⟩

theorem Alike.sizes (h : s.Alike t) (hs : s.RegistryExact) (ht : t.RegistryExact) :
    s.scopes.size = t.scopes.size ∧ s.instances.size = t.instances.size := by
  rw [← hs.counts.1, ← hs.counts.2, ← ht.counts.1, ← ht.counts.2]
  simp only [h.scopeLive_iff, h.instanceLive_iff, and_self]

end ClassScript.Store

namespace ClassScript.Session

open Store

/-- After a program that the analysis accepted was run, however the run ended, the registry lists
what the global scope leads to, and its sizes are the numbers of live scopes and instances. -/
theorem registry_exact {s : Session} (reachable : s.Reachable) (host : Host) (fuel : Nat)
    (program : List Stmt) (accepted : (s.machine.analyse program).1 = .ok ()) :
    let store := (s.machine.interpret host fuel program).2.store
    store.RegistryExact ∧
      store.scopes.size = {a | store.ScopeLive a ∧ a ≠ globals}.ncard ∧
      store.instances.size = {a | store.InstanceLive a}.ncard := by
  have rest := (reachable.atRest.analyse program).afterProgram host fuel program
  have exact : (s.machine.interpret host fuel program).2.store.RegistryExact := by
    rw [Machine.interpret_accepted accepted]
    dsimp only
    rw [rest.environment]
    exact rest.sound.store.registryExact_collect
  exact ⟨exact, exact.counts.1.symm, exact.counts.2.symm⟩

def selfReference : List Stmt :=
  let f : Token := ⟨.identifier, "f", none, 1⟩
  [.block [.funDecl ⟨f, [], [.expression (.var ⟨0, f⟩)]⟩] 1]

theorem registry_exact_selfReference :
    (initial.machine.analyse selfReference).1 = .ok () ∧
      ∀ host fuel, (initial.machine.interpret host fuel selfReference).2.store.RegistryExact := by
  have accepted : (initial.machine.analyse selfReference).1 = .ok () := rfl
  exact ⟨accepted, fun host fuel => (registry_exact reachable_initial host fuel _ accepted).1⟩

end ClassScript.Session
