import Mathlib.Data.Set.Insert
import ClassScript.Proofs.Store.Stored

/-!
# How a store evolves

`Operates` lists the operations that a run does on its store, with what is true of their arguments,
and `Evolves` is any number of them one after the other. Two facts follow from the list: everything
is made after what it is made from (`Ordered`), and a scope gets a new name only where names are
declared (`Evolves.frame`).
-/

namespace ClassScript

/-- Classes from the nearest one up: each is made after the one above it, and after the scope that
its methods were declared in. -/
def LayersMade : (before : Address) → List ClassLayer → Prop
  | _, [] => True
  | before, layer :: above =>
    layer.id < before ∧ (∀ m ∈ layer.methods, m.2.scope < layer.id) ∧ LayersMade layer.id above

def Value.Made (before : Address) : Value → Prop
  | .function id closure | .bound id closure => closure.scope < id ∧ id < before
  | .class object => LayersMade before object.layers
  | .instance id object => LayersMade id object.layers ∧ id < before
  | _ => True

variable {i k : Address} {value : Value} {layers : List ClassLayer}

theorem LayersMade.mono (le : i ≤ k) (h : LayersMade i layers) :
    LayersMade k layers := by
  cases layers with
  | nil => trivial
  | cons layer above => exact ⟨h.1.trans_le le, h.2⟩

theorem Value.Made.mono (le : i ≤ k) (h : value.Made i) : value.Made k := by
  cases value with
  | function id closure | bound id closure => exact ⟨h.1, h.2.trans_le le⟩
  | «class» object => exact LayersMade.mono le h
  | «instance» id object => exact ⟨h.1, h.2.trans_le le⟩
  | _ => trivial

namespace Store

def names (s : Store) (a : Address) : Set String := {name | (s.bindings a).contains name}

def Made (s : Store) (v : Value) : Prop := v.Made s.cells.size

/-- What is stored was made in order, and only what is registered stores anything. -/
structure Ordered (s : Store) : Prop where
  parent : ∀ a p, s.parent? a = some p → p < a
  binding : ∀ a, ∀ entry ∈ (s.bindings a).entries, s.ScopeListed a ∧ s.Made entry.2
  field : ∀ a, ∀ entry ∈ (s.fields a).entries, a ∈ s.instances ∧ s.Made entry.2

/-- An operation of a run. Names are declared in some of the scopes only. -/
inductive Operates (A : Set Address) (s : Store) : Store → Prop
  | newScope {p} : p < s.cells.size → Operates A s (s.newScope p).2
  | newInstance : Operates A s s.newInstance.2
  | newIdentity : Operates A s s.newIdentity.2
  | declare {a name v} : a ∈ A → s.ScopeListed a → s.Made v →
      Operates A s (s.define a name v)
  | assign {a name v} : (s.bindings a).contains name → s.Made v →
      Operates A s (s.define a name v)
  | setField {id name v} : id ∈ s.instances → s.Made v →
      Operates A s (s.setField id name v)
  | collect {root} : s.Sound → s.ScopeListed root → Operates A s (s.collect root)

def Evolves (A : Set Address) : Store → Store → Prop := Relation.ReflTransGen (Operates A)

variable {A : Set Address} {s t u : Store} {a p : Address} {name : String}

theorem Made.mono (h : s.Made value) (ext : s.Extends t) : t.Made value :=
  Value.Made.mono ext.size_le h

theorem mem_names : name ∈ s.names a ↔ (s.bindings a).contains name = true := Iff.rfl

theorem names_congr (same : t.bindings a = s.bindings a) : t.names a = s.names a := by
  unfold names
  rw [same]

theorem Operates.ext (h : Operates A s t) : s.Extends t := by
  cases h with
  | newScope => exact extends_newScope s _
  | newInstance => exact extends_newInstance s
  | newIdentity => exact extends_newIdentity s
  | declare | assign => exact extends_define s _ _ _
  | setField => exact extends_setField s _ _ _
  | collect => exact extends_collect s _

theorem Ordered.later (h : s.Ordered) (ext : s.Extends t)
    (parent : ∀ a p, t.parent? a = some p → s.parent? a = some p ∨ p < a)
    (binding : ∀ a, ∀ entry ∈ (t.bindings a).entries, t.ScopeListed a ∧
      (entry ∈ (s.bindings a).entries ∨ s.Made entry.2))
    (field : ∀ a, ∀ entry ∈ (t.fields a).entries, a ∈ t.instances ∧
      (entry ∈ (s.fields a).entries ∨ s.Made entry.2)) : t.Ordered where
  parent a p hp := (parent a p hp).elim (h.parent a p) id
  binding a entry he := by
    obtain ⟨listed, old | made⟩ := binding a entry he
    · exact ⟨listed, (h.binding a entry old).2.mono ext⟩
    · exact ⟨listed, made.mono ext⟩
  field a entry he := by
    obtain ⟨listed, old | made⟩ := field a entry he
    · exact ⟨listed, (h.field a entry old).2.mono ext⟩
    · exact ⟨listed, made.mono ext⟩

theorem parent?_newInstance (s : Store) (a : Address) :
    s.newInstance.2.parent? a = s.parent? a := by
  unfold parent?
  rw [cells_newInstance]
  by_cases eq : a = s.cells.size <;> simp [eq]

theorem parent?_newIdentity (s : Store) (a : Address) :
    s.newIdentity.2.parent? a = s.parent? a := by
  unfold parent?
  rw [cells_newIdentity]
  by_cases eq : a = s.cells.size <;> simp [eq]

theorem Ordered.newScope (h : s.Ordered) (lt : p < s.cells.size) : (s.newScope p).2.Ordered := by
  apply h.later (extends_newScope s p)
  · intro a q hq
    by_cases new : a = s.cells.size
    · subst new
      have around := parent?_newScope s p
      rw [fst_newScope] at around
      rw [around] at hq
      cases hq
      exact .inr lt
    · unfold parent? at hq ⊢
      rw [cells_newScope, if_neg new] at hq
      exact .inl hq
  · intro a entry he
    rw [bindings_newScope] at he
    split at he
    · cases he
    · exact ⟨(h.binding a entry he).1.mono (grows_newScope s p), .inl he⟩
  · intro a entry he
    rw [fields_newScope] at he
    exact ⟨(h.field a entry he).1, .inl he⟩

theorem Ordered.newInstance (h : s.Ordered) : s.newInstance.2.Ordered := by
  apply h.later (extends_newInstance s)
  · exact fun a q hq => .inl (parent?_newInstance s a ▸ hq)
  · intro a entry he
    rw [bindings_newInstance] at he
    exact ⟨(h.binding a entry he).1, .inl he⟩
  · intro a entry he
    rw [fields_newInstance] at he
    split at he
    · cases he
    · exact ⟨Array.mem_push_of_mem _ (h.field a entry he).1, .inl he⟩

theorem Ordered.newIdentity (h : s.Ordered) : s.newIdentity.2.Ordered := by
  apply h.later (extends_newIdentity s)
  · exact fun a q hq => .inl (parent?_newIdentity s a ▸ hq)
  · intro a entry he
    rw [bindings_newIdentity] at he
    exact ⟨(h.binding a entry he).1, .inl he⟩
  · intro a entry he
    rw [fields_newIdentity] at he
    exact ⟨(h.field a entry he).1, .inl he⟩

theorem Ordered.define (h : s.Ordered) (listed : s.ScopeListed a)
    (made : s.Made value) : (s.define a name value).Ordered := by
  apply h.later (extends_define s a name value)
  · exact fun b q hq => .inl ((extends_define s a _ _).parent?_of_size_eq size_define b ▸ hq)
  · intro b entry he
    by_cases eq : a = b
    · refine ⟨eq ▸ listed, ?_⟩
      exact (mem_bindings_define he).symm.imp id fun same => by rwa [same]
    · rw [bindings_define_of_ne eq] at he
      exact ⟨(h.binding b entry he).1, .inl he⟩
  · intro b entry he
    rw [fields_define] at he
    exact ⟨(h.field b entry he).1, .inl he⟩

theorem fields_setField_of_ne {b : Address} (ne : a ≠ b) :
    (s.setField a name value).fields b = s.fields b := by
  unfold fields
  rw [cells_setField, if_neg ne]

theorem Ordered.setField (h : s.Ordered) (listed : a ∈ s.instances)
    (made : s.Made value) : (s.setField a name value).Ordered := by
  apply h.later (extends_setField s a name value)
  · exact fun b q hq => .inl ((extends_setField s a _ _).parent?_of_size_eq size_setField b ▸ hq)
  · intro b entry he
    rw [bindings_setField] at he
    exact ⟨(h.binding b entry he).1, .inl he⟩
  · intro b entry he
    by_cases eq : a = b
    · refine ⟨eq ▸ listed, ?_⟩
      exact (mem_fields_setField he).symm.imp id fun same => by rwa [same]
    · rw [fields_setField_of_ne eq] at he
      exact ⟨(h.field b entry he).1, .inl he⟩

theorem Ordered.collect (h : s.Ordered) (sound : s.Sound) {root : Address}
    (hr : s.ScopeListed root) : (s.collect root).Ordered := by
  have ext := extends_collect s root
  apply h.later ext
  · exact fun a q hq => .inl (parent?_collect s root a ▸ hq)
  · intro a entry he
    by_cases released : s.Releases root a
    · rw [bindings_collect_of_releases released] at he
      cases he
    · rw [bindings_collect_of_kept released] at he
      have listed := (h.binding a entry he).1
      refine ⟨(sound.scopeListed_collect hr).mpr ⟨listed, ?_⟩, .inl he⟩
      rcases listed with rfl | mem
      · exact sound.marked_globals hr
      · exact by_contra fun unmarked => released ⟨.inl mem, unmarked⟩
  · intro a entry he
    by_cases released : s.Releases root a
    · rw [fields_collect_of_releases released] at he
      cases he
    · rw [fields_collect_of_kept released] at he
      have mem := (h.field a entry he).1
      refine ⟨mem_instances_collect.mpr ⟨mem, ?_⟩, .inl he⟩
      exact by_contra fun unmarked => released ⟨.inr mem, unmarked⟩

theorem scopeListed_of_contains (h : s.Ordered) (bound : (s.bindings a).contains name = true) :
    s.ScopeListed a := by
  obtain ⟨value, found⟩ := Bindings.get?_of_contains bound
  exact (h.binding a _ (Bindings.mem_entries_of_get? found)).1

theorem Operates.ordered (op : Operates A s t) (h : s.Ordered) : t.Ordered := by
  cases op with
  | newScope lt => exact h.newScope lt
  | newInstance => exact h.newInstance
  | newIdentity => exact h.newIdentity
  | declare _ listed made => exact h.define listed made
  | assign bound made => exact h.define (scopeListed_of_contains h bound) made
  | setField listed made => exact h.setField listed made
  | collect sound listed => exact h.collect sound listed

theorem names_define_of_contains (bound : (s.bindings a).contains name = true) (b : Address) :
    (s.define a name value).names b = s.names b := by
  by_cases eq : a = b
  · subst eq
    obtain ⟨p, bs, hc⟩ := cell_of_contains bound
    ext other
    rw [mem_names, mem_names, bindings_define_of_cell hc, Bindings.contains_set,
      bindings_of_cell hc]
    rw [bindings_of_cell hc] at bound
    by_cases same : other = name <;> simp [same, bound]
  · exact names_congr (bindings_define_of_ne eq)

theorem names_define (scope : s.IsScope a) (name : String) (value : Value) :
    (s.define a name value).names a = insert name (s.names a) := by
  obtain ⟨p, bs, hc⟩ := scope
  ext other
  rw [mem_names, bindings_define_of_cell hc, Bindings.contains_set, Set.mem_insert_iff, mem_names,
    bindings_of_cell hc]
  simp

theorem Operates.frame (op : Operates A s t) (old : a < s.cells.size) (out : a ∉ A)
    (kept : t.ScopeListed a) : s.ScopeListed a ∧ t.names a = s.names a := by
  cases op with
  | newScope =>
      have ne := Nat.ne_of_lt old
      refine ⟨kept.imp id fun mem => (Array.mem_push.mp mem).resolve_right ne, names_congr ?_⟩
      rw [bindings_newScope, if_neg ne]
  | newInstance => exact ⟨kept, names_congr (bindings_newInstance s a)⟩
  | newIdentity => exact ⟨kept, names_congr (bindings_newIdentity s a)⟩
  | declare mem =>
      have ne : _ ≠ a := fun eq => out (eq ▸ mem)
      exact ⟨kept, names_congr (bindings_define_of_ne ne)⟩
  | assign bound => exact ⟨kept, names_define_of_contains bound a⟩
  | setField => exact ⟨kept, names_congr (bindings_setField s _ a _ _)⟩
  | collect sound hr =>
      obtain ⟨listed, marked⟩ := (sound.scopeListed_collect hr).mp kept
      exact ⟨listed, names_congr (bindings_collect_of_marked marked)⟩

namespace Evolves

theorem refl (s : Store) : Evolves A s s := Relation.ReflTransGen.refl

theorem step (op : Operates A s t) : Evolves A s t := .single op

theorem trans (hst : Evolves A s t) (htu : Evolves A t u) : Evolves A s u :=
  Relation.ReflTransGen.trans hst htu

theorem add (hst : Evolves A s t) (op : Operates A t u) : Evolves A s u := hst.tail op

theorem ext (h : Evolves A s t) : s.Extends t := by
  induction h with
  | refl => exact .refl s
  | tail _ op ih => exact ih.trans op.ext

theorem ordered (h : Evolves A s t) (hs : s.Ordered) : t.Ordered := by
  induction h with
  | refl => exact hs
  | tail _ op ih => exact op.ordered ih

theorem frame (h : Evolves A s t) (old : a < s.cells.size) (out : a ∉ A)
    (kept : t.ScopeListed a) : s.ScopeListed a ∧ t.names a = s.names a := by
  induction h with
  | refl => exact ⟨kept, rfl⟩
  | tail before op ih =>
      obtain ⟨listed, same⟩ := op.frame (old.trans_le (Evolves.ext before).size_le) out kept
      exact ⟨(ih listed).1, same.trans (ih listed).2⟩

end Evolves

def BindsLast (A : Set Address) (scope : Address) (name : String) (s u : Store) : Prop :=
  ∃ t v, Evolves A s t ∧ t.ScopeListed scope ∧ t.Made v ∧ u = t.define scope name v

variable {v : Value}

theorem BindsLast.after {scope : Address} {name : String} {u : Store}
    (h : BindsLast A scope name t u) (before : Evolves A s t) : BindsLast A scope name s u := by
  obtain ⟨last, v, evolves, listed, made, rfl⟩ := h
  exact ⟨last, v, before.trans evolves, listed, made, rfl⟩

theorem Ordered.get? {name : String} (h : s.Ordered) (found : (s.bindings a).get? name = some v) :
    s.Made v := (h.binding a _ (Bindings.mem_entries_of_get? found)).2

theorem Ordered.getAt {name : String} {distance line : Nat} (h : s.Ordered)
    (found : s.getAt a distance name line = .ok v) : s.Made v := by
  unfold Store.getAt at found
  split at found
  · rename_i value reads
    cases found
    obtain ⟨b, -, reads⟩ := Option.bind_eq_some_iff.mp reads
    exact h.get? reads
  · cases found

theorem evolves_defineAll {entries : List (String × Value)} (mem : a ∈ A) (listed : s.ScopeListed a)
    (made : ∀ entry ∈ entries, s.Made entry.2) : Evolves A s (s.defineAll a entries) := by
  induction entries generalizing s with
  | nil => exact .refl s
  | cons entry rest ih =>
      have op : Operates A s (s.define a entry.1 entry.2) :=
        .declare mem listed (made entry List.mem_cons_self)
      refine (Evolves.step op).trans (ih ?_ fun other inRest => ?_)
      · exact listed.mono (grows_define s a _ _)
      · exact (made other (List.mem_cons_of_mem _ inRest)).mono op.ext

theorem evolves_newScope_define {p : Address} {name : String} (lt : p < s.cells.size)
    (fresh : s.cells.size ∈ A) (made : s.Made v) :
    Evolves A s ((s.newScope p).2.define (s.newScope p).1 name v) := by
  apply (Evolves.step (.newScope lt)).add
  exact .declare fresh (newScope_listed s p) (made.mono (extends_newScope s p))

theorem made_newClass (name : String) {superclass : Option ClassObject} {scope : Address}
    (decls : List (FunctionDecl Stmt)) (lt : scope < s.cells.size)
    (made : ∀ object ∈ superclass, s.Made (.class object)) :
    (s.newClass name superclass (decls.map (methodEntry scope))).2.Made
      (s.newClass name superclass (decls.map (methodEntry scope))).1 := by
  refine ⟨?_, fun m mem => ?_, ?_⟩
  · simp only [newClass, newIdentity, Array.size_push, Nat.lt_succ_self]
  · obtain ⟨decl, -, rfl⟩ := List.mem_map.mp (mem_lastOfEach mem)
    exact lt
  · cases superclass with
    | none => trivial
    | some object => exact made object rfl

end Store

end ClassScript
