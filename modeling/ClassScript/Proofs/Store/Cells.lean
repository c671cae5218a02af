import Mathlib.Logic.Relation
import Mathlib.Tactic.Common
import ClassScript.Store.Collect

namespace ClassScript

def Cell.SameShape : Cell → Cell → Prop
  | .scope p _, .scope q _ => p = q
  | .instance _, .instance _ => True
  | .identity, .identity => True
  | _, _ => False

namespace Cell

@[simp] theorem sameShape_refl (c : Cell) : SameShape c c := by
  cases c <;> simp [SameShape]

theorem SameShape.trans {a b c : Cell} (hab : SameShape a b) (hbc : SameShape b c) :
    SameShape a c := by
  cases a <;> cases b <;> cases c <;> simp_all [SameShape]

theorem sameShape_emptied (c : Cell) : SameShape c c.emptied := by
  cases c <;> simp [SameShape, emptied]

def define (name : String) (value : Value) : Cell → Cell
  | .scope parent b => .scope parent (b.set name value)
  | cell => cell

def setField (name : String) (value : Value) : Cell → Cell
  | .instance b => .instance (b.set name value)
  | cell => cell

theorem sameShape_define (name : String) (value : Value) (c : Cell) :
    SameShape c (c.define name value) := by
  cases c <;> simp [SameShape, define]

theorem sameShape_setField (name : String) (value : Value) (c : Cell) :
    SameShape c (c.setField name value) := by
  cases c <;> simp [SameShape, setField]

end Cell

namespace Bindings

@[simp] theorem get?_empty (name : String) : empty.get? name = none := rfl

@[simp] theorem entries_empty : empty.entries = [] := rfl

theorem mem_of_lookup {α : Type} {name : String} {x : α} {entries : List (String × α)}
    (h : entries.lookup name = some x) : (name, x) ∈ entries := by
  obtain ⟨before, after, rfl, -⟩ := List.lookup_eq_some_iff.mp h
  simp

theorem mem_entries_of_get? {b : Bindings} {name : String} {value : Value}
    (h : b.get? name = some value) : (name, value) ∈ b.entries := mem_of_lookup h

theorem mem_replace {name : String} {value : Value} {entries : List (String × Value)}
    {entry : String × Value} (h : entry ∈ replace name value entries) :
    entry.2 = value ∨ entry ∈ entries := by
  induction entries with
  | nil => simp_all [replace]
  | cons first rest ih =>
      obtain ⟨n, v⟩ := first
      simp only [replace] at h
      split at h <;> rcases List.mem_cons.mp h with rfl | h
      · exact .inl rfl
      · exact .inr (List.mem_cons_of_mem _ h)
      · exact .inr List.mem_cons_self
      · exact (ih h).imp id (List.mem_cons_of_mem _)

theorem mem_entries_set {b : Bindings} {name : String} {value : Value} {entry : String × Value}
    (h : entry ∈ (b.set name value).entries) : entry.2 = value ∨ entry ∈ b.entries :=
  mem_replace h

theorem contains_set (b : Bindings) (name other : String) (value : Value) :
    (b.set name value).contains other = (decide (other = name) || b.contains other) := by
  unfold contains
  rw [get?_set]
  split <;> simp_all

theorem contains_set_self (b : Bindings) (name : String) (value : Value) :
    (b.set name value).contains name = true := by
  simp [contains_set]

theorem contains_set_of_contains {b : Bindings} {other : String} (name : String) (value : Value)
    (h : b.contains other = true) : (b.set name value).contains other = true := by
  simp [contains_set, h]

theorem get?_of_contains {b : Bindings} {name : String} (h : b.contains name = true) :
    ∃ value, b.get? name = some value := Option.isSome_iff_exists.mp h

end Bindings

namespace Store

variable {s t u : Store} {a b : Address} {name : String} {value : Value}

theorem cells_define (s : Store) (a b : Address) (name : String) (value : Value) :
    (s.define a name value).cells[b]? =
      if a = b then (s.cells[b]?).map (Cell.define name value) else s.cells[b]? := by
  have same : (s.define a name value).cells = s.cells.modify a (Cell.define name value) := rfl
  rw [same, Array.getElem?_modify]

theorem cells_setField (s : Store) (a b : Address) (name : String) (value : Value) :
    (s.setField a name value).cells[b]? =
      if a = b then (s.cells[b]?).map (Cell.setField name value) else s.cells[b]? := by
  have same : (s.setField a name value).cells = s.cells.modify a (Cell.setField name value) := rfl
  rw [same, Array.getElem?_modify]

@[simp] theorem size_define : (s.define a name value).cells.size = s.cells.size :=
  Array.size_modify

@[simp] theorem size_setField : (s.setField a name value).cells.size = s.cells.size :=
  Array.size_modify

@[simp] theorem scopes_define : (s.define a name value).scopes = s.scopes := rfl
@[simp] theorem instances_define : (s.define a name value).instances = s.instances := rfl
@[simp] theorem scopes_setField : (s.setField a name value).scopes = s.scopes := rfl
@[simp] theorem instances_setField : (s.setField a name value).instances = s.instances := rfl

@[simp] theorem fst_newScope : (s.newScope a).1 = s.cells.size := rfl
@[simp] theorem fst_newInstance : s.newInstance.1 = s.cells.size := rfl
@[simp] theorem fst_newIdentity : s.newIdentity.1 = s.cells.size := rfl

theorem cells_newScope (s : Store) (parent b : Address) :
    (s.newScope parent).2.cells[b]? =
      if b = s.cells.size then some (.scope (some parent) .empty) else s.cells[b]? :=
  Array.getElem?_push

theorem cells_newInstance (s : Store) (b : Address) :
    s.newInstance.2.cells[b]? = if b = s.cells.size then some (.instance .empty) else s.cells[b]? :=
  Array.getElem?_push

theorem cells_newIdentity (s : Store) (b : Address) :
    s.newIdentity.2.cells[b]? = if b = s.cells.size then some .identity else s.cells[b]? :=
  Array.getElem?_push

def Extends (s t : Store) : Prop :=
  ∀ (a : Address) (c : Cell), s.cells[a]? = some c → ∃ d, t.cells[a]? = some d ∧ c.SameShape d

theorem Extends.refl (s : Store) : s.Extends s := fun _ c h => ⟨c, h, c.sameShape_refl⟩

theorem Extends.trans (hst : s.Extends t) (htu : t.Extends u) : s.Extends u := by
  intro a c hc
  obtain ⟨d, hd, hcd⟩ := hst a c hc
  obtain ⟨e, he, hde⟩ := htu a d hd
  exact ⟨e, he, hcd.trans hde⟩

theorem extends_define (s : Store) (a : Address) (name : String) (value : Value) :
    s.Extends (s.define a name value) := by
  intro b c hc
  rw [cells_define, hc]
  split
  · exact ⟨_, rfl, c.sameShape_define name value⟩
  · exact ⟨c, rfl, c.sameShape_refl⟩

theorem extends_setField (s : Store) (a : Address) (name : String) (value : Value) :
    s.Extends (s.setField a name value) := by
  intro b c hc
  rw [cells_setField, hc]
  split
  · exact ⟨_, rfl, c.sameShape_setField name value⟩
  · exact ⟨c, rfl, c.sameShape_refl⟩

theorem ne_size_of_cell {c : Cell} (h : s.cells[a]? = some c) : a ≠ s.cells.size := by
  rintro rfl
  simp at h

theorem extends_newScope (s : Store) (parent : Address) : s.Extends (s.newScope parent).2 :=
  fun b c hc => ⟨c, by rw [cells_newScope, if_neg (ne_size_of_cell hc), hc], c.sameShape_refl⟩

theorem extends_newInstance (s : Store) : s.Extends s.newInstance.2 :=
  fun b c hc => ⟨c, by rw [cells_newInstance, if_neg (ne_size_of_cell hc), hc], c.sameShape_refl⟩

theorem extends_newIdentity (s : Store) : s.Extends s.newIdentity.2 :=
  fun b c hc => ⟨c, by rw [cells_newIdentity, if_neg (ne_size_of_cell hc), hc], c.sameShape_refl⟩

theorem parent?_of_cell {p : Option Address} {bs : Bindings}
    (h : s.cells[a]? = some (.scope p bs)) : s.parent? a = p := by
  simp [parent?, h]

theorem parent?_newScope (s : Store) (p : Address) :
    (s.newScope p).2.parent? (s.newScope p).1 = some p := by
  have created := cells_newScope s p s.cells.size
  rw [if_pos rfl] at created
  exact parent?_of_cell created

theorem bindings_of_cell {p : Option Address} {bs : Bindings}
    (h : s.cells[a]? = some (.scope p bs)) : s.bindings a = bs := by
  simp [bindings, h]

theorem fields_of_cell {bs : Bindings} (h : s.cells[a]? = some (.instance bs)) :
    s.fields a = bs := by
  simp [fields, h]

theorem cell_of_contains (h : (s.bindings a).contains name = true) :
    ∃ p bs, s.cells[a]? = some (.scope p bs) := by
  unfold bindings at h
  split at h
  · rename_i p bs found
    exact ⟨p, bs, found⟩
  · simp [Bindings.contains] at h

theorem ne_size_of_contains (h : (s.bindings a).contains name = true) : a ≠ s.cells.size := by
  obtain ⟨p, bs, found⟩ := cell_of_contains h
  exact ne_size_of_cell found

theorem bindings_newScope (s : Store) (parent b : Address) :
    (s.newScope parent).2.bindings b =
      if b = s.cells.size then .empty else s.bindings b := by
  unfold bindings
  rw [cells_newScope]
  by_cases eq : b = s.cells.size <;> simp [eq]

theorem bindings_newInstance (s : Store) (b : Address) :
    s.newInstance.2.bindings b = s.bindings b := by
  unfold bindings
  rw [cells_newInstance]
  by_cases eq : b = s.cells.size <;> simp [eq]

theorem bindings_newIdentity (s : Store) (b : Address) :
    s.newIdentity.2.bindings b = s.bindings b := by
  unfold bindings
  rw [cells_newIdentity]
  by_cases eq : b = s.cells.size <;> simp [eq]

theorem bindings_define_of_ne (ne : a ≠ b) : (s.define a name value).bindings b = s.bindings b := by
  unfold bindings
  rw [cells_define, if_neg ne]

theorem bindings_define_of_cell {p : Option Address} {bs : Bindings}
    (h : s.cells[a]? = some (.scope p bs)) :
    (s.define a name value).bindings a = bs.set name value := by
  have cell := cells_define s a a name value
  rw [if_pos rfl, h] at cell
  exact bindings_of_cell cell

theorem get?_define_self {p : Option Address} {bs : Bindings}
    (h : s.cells[a]? = some (.scope p bs)) (name : String) (value : Value) :
    ((s.define a name value).bindings a).get? name = some value := by
  rw [bindings_define_of_cell h, Bindings.get?_set, if_pos rfl]

theorem get?_newScope_define (s : Store) (p : Address) (name : String) (value : Value) :
    (((s.newScope p).2.define (s.newScope p).1 name value).bindings (s.newScope p).1).get? name =
      some value := by
  have created := cells_newScope s p s.cells.size
  rw [if_pos rfl] at created
  exact get?_define_self created name value

theorem bindings_setField (s : Store) (a b : Address) (name : String) (value : Value) :
    (s.setField a name value).bindings b = s.bindings b := by
  unfold bindings
  rw [cells_setField]
  by_cases eq : a = b
  · cases found : s.cells[b]? with
    | none => simp [eq]
    | some c => cases c <;> simp [eq, Cell.setField]
  · simp [eq]

theorem cell_of_parent? {p : Address} (h : s.parent? a = some p) :
    ∃ bs, s.cells[a]? = some (.scope (some p) bs) := by
  unfold parent? at h
  split at h
  · rename_i q bs found
    exact ⟨bs, by rw [found, h]⟩
  · cases h

theorem Extends.scope_cell (h : s.Extends t) {p : Option Address} {bs : Bindings}
    (hc : s.cells[a]? = some (.scope p bs)) : ∃ bs', t.cells[a]? = some (.scope p bs') := by
  obtain ⟨d, hd, shape⟩ := h a _ hc
  cases d with
  | scope q bs' =>
      obtain rfl : p = q := shape
      exact ⟨bs', hd⟩
  | «instance» _ => exact shape.elim
  | identity => exact shape.elim

theorem Extends.instance_cell (h : s.Extends t) {bs : Bindings}
    (hc : s.cells[a]? = some (.instance bs)) : ∃ bs', t.cells[a]? = some (.instance bs') := by
  obtain ⟨d, hd, shape⟩ := h a _ hc
  cases d with
  | scope _ _ => exact shape.elim
  | «instance» bs' => exact ⟨bs', hd⟩
  | identity => exact shape.elim

theorem Extends.parent? (h : s.Extends t) {p : Address} (hp : s.parent? a = some p) :
    t.parent? a = some p := by
  obtain ⟨bs, hc⟩ := cell_of_parent? hp
  obtain ⟨bs', hc'⟩ := h.scope_cell hc
  exact parent?_of_cell hc'

theorem parent?_newScope_define (s : Store) (p : Address) (name : String) (value : Value) :
    ((s.newScope p).2.define (s.newScope p).1 name value).parent? (s.newScope p).1 = some p :=
  (extends_define _ _ name value).parent? (parent?_newScope s p)

theorem Extends.size_le (h : s.Extends t) : s.cells.size ≤ t.cells.size := by
  by_contra more
  have last : t.cells.size < s.cells.size := Nat.lt_of_not_le more
  obtain ⟨d, hd, -⟩ := h t.cells.size _ (Array.getElem?_eq_getElem last)
  simp at hd

theorem Extends.parent?_eq (h : s.Extends t) (lt : a < s.cells.size) :
    t.parent? a = s.parent? a := by
  have cell := Array.getElem?_eq_getElem lt
  generalize s.cells[a] = c at cell
  cases c with
  | scope p bs =>
      obtain ⟨bs', cell'⟩ := h.scope_cell cell
      rw [parent?_of_cell cell, parent?_of_cell cell']
  | «instance» bs =>
      obtain ⟨bs', cell'⟩ := h.instance_cell cell
      simp [Store.parent?, cell, cell']
  | identity =>
      obtain ⟨d, cell', shape⟩ := h a _ cell
      cases d with
      | identity => simp [Store.parent?, cell, cell']
      | scope _ _ => exact shape.elim
      | «instance» _ => exact shape.elim

theorem parent?_of_size_le (h : s.cells.size ≤ a) : s.parent? a = none := by
  simp [parent?, Array.getElem?_eq_none h]

theorem Extends.parent?_of_size_eq (h : s.Extends t) (size : t.cells.size = s.cells.size)
    (a : Address) : t.parent? a = s.parent? a := by
  by_cases old : a < s.cells.size
  · exact h.parent?_eq old
  · have le := Nat.le_of_not_lt old
    rw [parent?_of_size_le le, parent?_of_size_le (Nat.le_trans (Nat.le_of_eq size) le)]

def IsScope (s : Store) (a : Address) : Prop := ∃ p bs, s.cells[a]? = some (.scope p bs)

def IsInstance (s : Store) (a : Address) : Prop := ∃ bs, s.cells[a]? = some (.instance bs)

theorem Extends.isScope (h : s.Extends t) (ha : s.IsScope a) : t.IsScope a := by
  obtain ⟨p, bs, hc⟩ := ha
  exact ⟨p, h.scope_cell hc⟩

theorem Extends.isInstance (h : s.Extends t) (ha : s.IsInstance a) : t.IsInstance a := by
  obtain ⟨bs, hc⟩ := ha
  exact h.instance_cell hc

theorem IsScope.lt (h : s.IsScope a) : a < s.cells.size := by
  obtain ⟨p, bs, hc⟩ := h
  exact (Array.getElem?_eq_some_iff.mp hc).1

theorem IsInstance.lt (h : s.IsInstance a) : a < s.cells.size := by
  obtain ⟨bs, hc⟩ := h
  exact (Array.getElem?_eq_some_iff.mp hc).1

theorem IsScope.not_isInstance (h : s.IsScope a) : ¬ s.IsInstance a := by
  rintro ⟨bs, hc⟩
  obtain ⟨p, bs', hc'⟩ := h
  rw [hc] at hc'
  cases hc'

end Store

end ClassScript
