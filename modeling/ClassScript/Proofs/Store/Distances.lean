import Mathlib.Order.Bounds.Basic
import ClassScript.Proofs.Lexical.Ancestors
import ClassScript.Proofs.Collection.Built
import ClassScript.Machine

/-!
# Names by distance and names by search

A name is found in two ways: by walking a known number of scopes outward, or by searching for the
nearest scope that binds it. Both meet the same scope when the number is the least at which the name
is bound (`search_meets_least`), and a search that fails means that no distance succeeds. An
assignment replaces the value of one entry (`Rebinds`), so what every other lookup finds stays
(`Rebinds.getAt`, `Rebinds.get`).

All of this needs of a store is that outward addresses become smaller (`Outward`), which every
operation keeps (`Built.outward`).
-/

namespace ClassScript

/-- The scope in which a run begins to look for what an occurrence names. -/
def Machine.origin (m : Machine) (o : Occurrence) : Address :=
  if (m.distances[o.id]?).isSome then m.environment else Store.globals

namespace Store

variable {s t : Store} {a b p holder : Address} {name : String} {value : Value} {bound d : Nat}
  {made : Set Value}

/-! ## Scopes that are around others -/

def Outward (s : Store) : Prop := ∀ a p, s.parent? a = some p → p < a

theorem Outward.later (h : s.Outward) (ext : s.Extends t)
    (created : ∀ a p, s.cells.size ≤ a → t.parent? a = some p → p < a) : t.Outward := by
  intro a p hp
  by_cases old : a < s.cells.size
  · rw [ext.parent?_eq old] at hp
    exact h a p hp
  · exact created a p (Nat.le_of_not_lt old) hp

theorem Outward.of_size_eq (h : s.Outward) (ext : s.Extends t)
    (size : t.cells.size = s.cells.size) : t.Outward := by
  intro a p hp
  rw [ext.parent?_of_size_eq size] at hp
  exact h a p hp

theorem Outward.define (h : s.Outward) (a : Address) (name : String) (value : Value) :
    (s.define a name value).Outward := h.of_size_eq (extends_define s a name value) size_define

theorem Outward.newScope (h : s.Outward) (lt : p < s.cells.size) : (s.newScope p).2.Outward := by
  apply h.later (extends_newScope s p)
  intro a q le hq
  obtain ⟨bs, hc⟩ := cell_of_parent? hq
  rw [cells_newScope] at hc
  split at hc
  · cases hc
    exact Nat.lt_of_lt_of_le lt le
  · rw [Array.getElem?_eq_none le] at hc
    cases hc

theorem Outward.newInstance (h : s.Outward) : s.newInstance.2.Outward := by
  apply h.later (extends_newInstance s)
  intro a q le hq
  obtain ⟨bs, hc⟩ := cell_of_parent? hq
  rw [cells_newInstance] at hc
  split at hc
  · cases hc
  · rw [Array.getElem?_eq_none le] at hc
    cases hc

theorem Outward.newIdentity (h : s.Outward) : s.newIdentity.2.Outward := by
  apply h.later (extends_newIdentity s)
  intro a q le hq
  obtain ⟨bs, hc⟩ := cell_of_parent? hq
  rw [cells_newIdentity] at hc
  split at hc
  · cases hc
  · rw [Array.getElem?_eq_none le] at hc
    cases hc

theorem outward_initial : Store.initial.Outward := by
  intro a p hp
  cases a <;> cases hp

theorem Built.outward (built : s.Built made) : s.Outward := by
  induction built with
  | initial => exact outward_initial
  | simple _ _ ih => exact ih
  | child _ hp ih => exact ih.newScope hp.lt
  | define _ _ ih => exact ih.define _ _ _
  | @assign s made a name v line t _ _ assigned ih =>
      unfold Store.assign at assigned
      cases found : s.target a name line with
      | ok holder =>
          rw [found] at assigned
          cases assigned
          exact ih.define holder name v
      | error e =>
          rw [found] at assigned
          cases assigned
  | function _ _ ih => exact ih.newIdentity
  | «class» _ _ _ ih => exact ih.newIdentity
  | «instance» _ _ ih => exact ih.newInstance
  | setField _ _ _ ih => exact ih.of_size_eq (extends_setField _ _ _ _) size_setField
  | @getProperty s made id object name property built ho found ih =>
      cases property with
      | field value => exact ih
      | method closure =>
          have scope : s.IsScope closure.scope := by
            unfold property? at found
            split at found
            · cases found
            · obtain ⟨_, method, same⟩ := Option.map_eq_some_iff.mp found
              cases same
              exact (built.consistent.grounded _ ho).2 _ (method?_scope_mem method)
          exact ((ih.newScope scope.lt).define _ _ _).newIdentity
  | collect _ _ ih => exact ih.of_size_eq (extends_collect _ _) size_collect

/-! ## The nearest scope that binds a name -/

/-- The scope a number of steps outward exists and binds a name. -/
def BindsAt (s : Store) (a : Address) (name : String) (d : Nat) : Prop :=
  ∃ holder, s.ancestor? a d = some holder ∧ (s.bindings holder).contains name = true

theorem bindsAt_zero : s.BindsAt a name 0 ↔ (s.bindings a).contains name = true := by
  constructor
  · rintro ⟨holder, here, contains⟩
    cases here
    exact contains
  · exact fun contains => ⟨a, rfl, contains⟩

theorem bindsAt_succ (hp : s.parent? a = some p) :
    s.BindsAt a name (d + 1) ↔ s.BindsAt p name d := by
  unfold BindsAt
  rw [ancestor?_succ hp]

theorem not_bindsAt_succ (outermost : s.parent? a = none) : ¬ s.BindsAt a name (d + 1) := by
  rintro ⟨holder, outward, -⟩
  rw [ancestor?, outermost] at outward
  cases outward

theorem holderWithin_of_contains (h : (s.bindings a).contains name = true) :
    s.holderWithin name bound a = some a := by
  unfold holderWithin
  rw [if_pos h]

theorem holderWithin_succ (h : ¬ (s.bindings a).contains name = true)
    (hp : s.parent? a = some p) :
    s.holderWithin name (bound + 1) a = s.holderWithin name bound p := by
  rw [holderWithin, if_neg h, hp, Option.bind_some]

theorem holderWithin_outermost (h : ¬ (s.bindings a).contains name = true)
    (outermost : s.parent? a = none) : s.holderWithin name bound a = none := by
  cases bound with
  | zero => rw [holderWithin, if_neg h]
  | succ bound => rw [holderWithin, if_neg h, outermost, Option.bind_none]

theorem Outward.holderWithin (h : s.Outward) (name : String) (le : a ≤ bound) :
    (∃ d, IsLeast {d | s.BindsAt a name d} d ∧ s.holderWithin name bound a = s.ancestor? a d) ∨
    (∀ d, ¬ s.BindsAt a name d) ∧ s.holderWithin name bound a = none := by
  induction a using Nat.strong_induction_on generalizing bound with
  | _ a ih =>
      by_cases contains : (s.bindings a).contains name = true
      · refine .inl ⟨0, ⟨bindsAt_zero.mpr contains, fun _ _ => Nat.zero_le _⟩, ?_⟩
        rw [holderWithin_of_contains contains, ancestor?]
      have here : ¬ s.BindsAt a name 0 := fun binds => contains (bindsAt_zero.mp binds)
      cases hp : s.parent? a with
      | none =>
          refine .inr ⟨fun d => ?_, holderWithin_outermost contains hp⟩
          cases d with
          | zero => exact here
          | succ d => exact not_bindsAt_succ hp
      | some p =>
          have lt := h a p hp
          obtain ⟨k, rfl⟩ := Nat.exists_eq_add_of_lt (lt.trans_le le)
          rw [holderWithin_succ contains hp]
          rcases ih p lt (Nat.le_add_right p k) with ⟨d, ⟨binds, least⟩, found⟩ | ⟨nowhere, found⟩
          · refine .inl ⟨d + 1, ⟨(bindsAt_succ hp).mpr binds, ?_⟩, ?_⟩
            · rintro (_ | e) he
              · exact (here he).elim
              · exact Nat.succ_le_succ (least ((bindsAt_succ hp).mp he))
            · rw [found, ancestor?_succ hp]
          · refine .inr ⟨fun d => ?_, found⟩
            cases d with
            | zero => exact here
            | succ d => exact fun binds => nowhere d ((bindsAt_succ hp).mp binds)

theorem search_meets_least (outward : s.Outward) (least : IsLeast {d | s.BindsAt a name d} d) :
    s.holder? a name = s.ancestor? a d := by
  rcases outward.holderWithin name (Nat.le_refl a) with ⟨e, least', found⟩ | ⟨nowhere, -⟩
  · rw [least.unique least']
    exact found
  · exact (nowhere d least.1).elim

theorem search_fails (outward : s.Outward) (nowhere : ∀ d, ¬ s.BindsAt a name d) :
    s.holder? a name = none := by
  rcases outward.holderWithin name (Nat.le_refl a) with ⟨e, least, -⟩ | ⟨-, found⟩
  · exact (nowhere e least.1).elim
  · exact found

/-! ## Lookups and assignments -/

theorem getAt_of_not_bindsAt (h : ¬ s.BindsAt a name d) (line : Nat) :
    s.getAt a d name line = .error (undefined name line) := by
  unfold getAt
  cases found : s.ancestor? a d with
  | none => rfl
  | some holder =>
      cases missing : (s.bindings holder).get? name with
      | none => simp only [Option.bind_some, missing]
      | some value =>
          exact (h ⟨holder, found, by rw [Bindings.contains, missing, Option.isSome_some]⟩).elim

theorem targetAt_of_not_bindsAt (h : ¬ s.BindsAt a name d) (line : Nat) :
    s.targetAt a d name line = .error (undefined name line) := by
  unfold targetAt
  cases found : s.ancestor? a d with
  | none => rfl
  | some holder => exact if_neg fun contains => h ⟨holder, found, contains⟩

theorem targetAt_of_contains (found : s.ancestor? a d = some holder)
    (contains : (s.bindings holder).contains name = true) (line : Nat) :
    s.targetAt a d name line = .ok holder := by
  rw [targetAt, found]
  exact if_pos contains

theorem get_of_holder?_none (h : s.holder? a name = none) (line : Nat) :
    s.get a name line = .error (undefined name line) := by
  rw [get, h, Option.bind_none]

theorem target_of_holder?_none (h : s.holder? a name = none) (line : Nat) :
    s.target a name line = .error (undefined name line) := by
  rw [target, h]

/-! ## The binding that an assignment changes -/

theorem replace_at_entry {before : List (String × Value)} (apart : ∀ entry ∈ before, entry.1 ≠ name)
    (old value : Value) (after : List (String × Value)) :
    Bindings.replace name value (before ++ (name, old) :: after) =
      before ++ (name, value) :: after := by
  induction before with
  | nil => rw [List.nil_append, Bindings.replace, if_pos (beq_self_eq_true name), List.nil_append]
  | cons entry before ih =>
      have ne : name ≠ entry.1 := Ne.symm (apart entry List.mem_cons_self)
      have later := ih fun e mem => apart e (List.mem_cons_of_mem _ mem)
      rw [List.cons_append, Bindings.replace, beq_eq_false_iff_ne.mpr ne, if_neg Bool.false_ne_true,
        later, List.cons_append]

/-- The store `t` is `s` but for the value in one entry of one scope: the first one of the name. -/
structure Rebinds (s : Store) (holder : Address) (name : String) (value : Value) (t : Store) :
    Prop where
  entry : ∃ parent before old after, (∀ entry ∈ before, entry.1 ≠ name) ∧
    s.cells[holder]? = some (.scope parent ⟨before ++ (name, old) :: after⟩) ∧
    t.cells[holder]? = some (.scope parent ⟨before ++ (name, value) :: after⟩)
  others : ∀ b, b ≠ holder → t.cells[b]? = s.cells[b]?
  registry : t.scopes = s.scopes ∧ t.instances = s.instances ∧ t.threshold = s.threshold

theorem rebinds_define (contains : (s.bindings holder).contains name = true) (value : Value) :
    s.Rebinds holder name value (s.define holder name value) := by
  obtain ⟨parent, bs, cell⟩ := cell_of_contains contains
  obtain ⟨old, found⟩ := Bindings.get?_of_contains contains
  rw [bindings_of_cell cell] at found
  obtain ⟨before, after, split, apart⟩ := List.lookup_eq_some_iff.mp found
  have apart : ∀ entry ∈ before, entry.1 ≠ name :=
    fun entry mem => (bne_iff_ne.mp (apart entry mem)).symm
  constructor
  · refine ⟨parent, before, old, after, apart, ?_, ?_⟩
    · rw [cell, ← split]
    · rw [cells_define, if_pos rfl, cell, ← replace_at_entry apart old, ← split]
      rfl
  · intro b ne
    rw [cells_define, if_neg ne.symm]
  · exact ⟨rfl, rfl, rfl⟩

theorem Rebinds.bindings (h : s.Rebinds holder name value t) (b : Address) :
    t.bindings b = if b = holder then (s.bindings b).set name value else s.bindings b := by
  split
  · rename_i here
    subst here
    obtain ⟨parent, before, old, after, apart, cell, cell'⟩ := h.entry
    rw [bindings_of_cell cell, bindings_of_cell cell', Bindings.set, replace_at_entry apart]
  · rename_i ne
    rw [Store.bindings, h.others b ne, ← Store.bindings]

theorem Rebinds.get? (h : s.Rebinds holder name value t) (b : Address) (other : String) :
    (t.bindings b).get? other =
      if b = holder ∧ other = name then some value else (s.bindings b).get? other := by
  rw [h.bindings]
  by_cases here : b = holder
  · simp only [here, if_true, Bindings.get?_set, true_and]
  · simp only [here, if_false, false_and]

theorem Rebinds.contains (h : s.Rebinds holder name value t) (b : Address) (other : String) :
    (t.bindings b).contains other = (s.bindings b).contains other := by
  rw [h.bindings]
  split
  · rename_i here
    subst here
    obtain ⟨parent, before, old, after, apart, cell, -⟩ := h.entry
    have bound : (s.bindings b).contains name = true := by
      rw [bindings_of_cell cell, Bindings.contains, Bindings.get?]
      exact Option.isSome_iff_exists.mpr ⟨old, List.lookup_eq_some_iff.mpr
        ⟨before, after, rfl, fun e mem => bne_iff_ne.mpr (apart e mem).symm⟩⟩
    rw [Bindings.contains_set]
    by_cases same : other = name
    · rw [same, bound, Bool.or_true]
    · rw [decide_eq_false same, Bool.false_or]
  · rfl

theorem Rebinds.parent? (h : s.Rebinds holder name value t) (b : Address) :
    t.parent? b = s.parent? b := by
  by_cases here : b = holder
  · obtain ⟨parent, before, old, after, -, cell, cell'⟩ := h.entry
    subst here
    rw [parent?_of_cell cell, parent?_of_cell cell']
  · rw [Store.parent?, h.others b here, ← Store.parent?]

theorem Rebinds.ancestor? (h : s.Rebinds holder name value t) (b : Address) (d : Nat) :
    t.ancestor? b d = s.ancestor? b d := by
  induction d generalizing b with
  | zero => rfl
  | succ d ih => simp only [Store.ancestor?, h.parent?, ih]

theorem Rebinds.holderWithin (h : s.Rebinds holder name value t) (other : String) (bound : Nat)
    (b : Address) : t.holderWithin other bound b = s.holderWithin other bound b := by
  induction bound generalizing b with
  | zero => rw [Store.holderWithin, Store.holderWithin, h.contains]
  | succ bound ih => simp only [Store.holderWithin, h.contains, h.parent?, ih]

theorem Rebinds.found (h : s.Rebinds holder name value t) (scope : Option Address)
    (other : String) :
    (scope.bind fun b => (t.bindings b).get? other) =
      if scope = some holder ∧ other = name then some value
      else scope.bind fun b => (s.bindings b).get? other := by
  cases scope with
  | none => simp only [Option.bind_none, reduceCtorEq, false_and, if_false]
  | some b => simp only [Option.bind_some, h.get?, Option.some.injEq]

theorem Rebinds.getAt (h : s.Rebinds holder name value t) (b : Address) (d : Nat) (other : String)
    (line : Nat) :
    t.getAt b d other line =
      if s.ancestor? b d = some holder ∧ other = name then .ok value
      else s.getAt b d other line := by
  rw [Store.getAt, h.ancestor?, h.found]
  by_cases changed : s.ancestor? b d = some holder ∧ other = name
  · simp only [if_pos changed]
  · simp only [if_neg changed, Store.getAt]

theorem Rebinds.get (h : s.Rebinds holder name value t) (b : Address) (other : String)
    (line : Nat) :
    t.get b other line =
      if s.holder? b other = some holder ∧ other = name then .ok value else s.get b other line := by
  rw [Store.get, Store.holder?, h.holderWithin, ← Store.holder?, h.found]
  by_cases changed : s.holder? b other = some holder ∧ other = name
  · simp only [if_pos changed]
  · simp only [if_neg changed, Store.get]

/-! ## The two ways agree -/

theorem assign_of_target {line : Nat} (found : s.target a name line = .ok holder) :
    s.assign a name value line = .ok (s.define holder name value) := by
  rw [assign, found]
  rfl

theorem assignAt_of_targetAt {line : Nat} (found : s.targetAt a d name line = .ok holder) :
    s.assignAt a d name value line = .ok (s.define holder name value) := by
  rw [assignAt, found]
  rfl

theorem rebinds_of_assignAt {line : Nat} (assigned : s.assignAt a d name value line = .ok t) :
    ∃ holder, s.ancestor? a d = some holder ∧ s.Rebinds holder name value t := by
  by_cases binds : s.BindsAt a name d
  · obtain ⟨holder, found, contains⟩ := binds
    rw [assignAt_of_targetAt (targetAt_of_contains found contains line)] at assigned
    cases assigned
    exact ⟨holder, found, rebinds_define contains value⟩
  · rw [assignAt, targetAt_of_not_bindsAt binds line] at assigned
    cases assigned

theorem search_eq_distance (outward : s.Outward) (least : IsLeast {d | s.BindsAt a name d} d)
    (value : Value) (line : Nat) :
    s.get a name line = s.getAt a d name line ∧
      s.assign a name value line = s.assignAt a d name value line := by
  have met := search_meets_least outward least
  obtain ⟨holder, found, contains⟩ := least.1
  have target : s.target a name line = .ok holder := by
    rw [Store.target, met, found]
  refine ⟨?_, ?_⟩
  · rw [get, getAt, met]
  · rw [assign_of_target target, assignAt_of_targetAt (targetAt_of_contains found contains line)]

theorem lookup_fails {m : Machine} {o : Occurrence}
    (nowhere : ∀ d, ¬ m.store.BindsAt (m.origin o) name d) (outward : m.store.Outward) :
    Run.lookup o name m = .error (.fault (undefined name o.token.line)) m := by
  unfold Run.lookup
  unfold Machine.origin at nowhere
  cases known : m.distances[o.id]? with
  | some d =>
      simp only [known, Option.isSome_some, if_true] at nowhere
      simp only [getAt_of_not_bindsAt (nowhere d)]
  | none =>
      simp only [known, Option.isSome_none, Bool.false_eq_true, if_false] at nowhere
      simp only [get_of_holder?_none (search_fails outward nowhere)]

theorem assign_fails {m : Machine} {o : Occurrence}
    (nowhere : ∀ d, ¬ m.store.BindsAt (m.origin o) o.token.lexeme d) (outward : m.store.Outward)
    (value : Value) :
    Run.assign o value m = .error (.fault (undefined o.token.lexeme o.token.line)) m := by
  unfold Run.assign
  unfold Machine.origin at nowhere
  cases known : m.distances[o.id]? with
  | some d =>
      simp only [known, Option.isSome_some, if_true] at nowhere
      simp only [targetAt_of_not_bindsAt (nowhere d)]
  | none =>
      simp only [known, Option.isSome_none, Bool.false_eq_true, if_false] at nowhere
      simp only [target_of_holder?_none (search_fails outward nowhere)]

theorem rebinds_of_assigned {line : Nat} (outward : s.Outward)
    (assigned : s.assign a name value line = .ok t ∨ s.assignAt a d name value line = .ok t) :
    ∃ holder, (∃ e, s.ancestor? a e = some holder) ∧ s.Rebinds holder name value t := by
  rcases assigned with assigned | assigned
  · rcases outward.holderWithin name (Nat.le_refl a) with ⟨e, least, -⟩ | ⟨nowhere, -⟩
    · rw [(search_eq_distance outward least value line).2] at assigned
      obtain ⟨holder, found, rebinds⟩ := rebinds_of_assignAt assigned
      exact ⟨holder, ⟨e, found⟩, rebinds⟩
    · rw [assign, target_of_holder?_none (search_fails outward nowhere)] at assigned
      cases assigned
  · obtain ⟨holder, found, rebinds⟩ := rebinds_of_assignAt assigned
    exact ⟨holder, ⟨d, found⟩, rebinds⟩

/-- A name looked up by search is the name at the least distance that binds it; a name that no scope
binds is undefined either way, and the run that asks for it keeps its state; and what is found after
an assignment is what was found before, but for the one binding. -/
theorem search_agrees_with_distances (outward : s.Outward) (a : Address) (name : String)
    (value : Value) (line : Nat) :
    (∀ d, IsLeast {d | s.BindsAt a name d} d →
      s.get a name line = s.getAt a d name line ∧
      s.assign a name value line = s.assignAt a d name value line ∧
      ∃ holder found t, s.ancestor? a d = some holder ∧ s.getAt a d name line = .ok found ∧
        s.assignAt a d name value line = .ok t ∧ s.Rebinds holder name value t) ∧
    ((∀ d, ¬ s.BindsAt a name d) →
      s.get a name line = .error (undefined name line) ∧
      s.assign a name value line = .error (undefined name line) ∧
      (∀ d, s.getAt a d name line = .error (undefined name line) ∧
        s.assignAt a d name value line = .error (undefined name line)) ∧
      ∀ (m : Machine) (o : Occurrence), m.store = s → m.origin o = a → o.token.lexeme = name →
        o.token.line = line →
        Run.lookup o name m = .error (.fault (undefined name line)) m ∧
        Run.assign o value m = .error (.fault (undefined name line)) m) ∧
    (∀ d t, s.assign a name value line = .ok t ∨ s.assignAt a d name value line = .ok t →
      ∃ holder, (∃ e, s.ancestor? a e = some holder) ∧ s.Rebinds holder name value t) ∧
    (∀ holder t, s.Rebinds holder name value t →
      (∀ b e other line', t.getAt b e other line' =
        if s.ancestor? b e = some holder ∧ other = name then .ok value
        else s.getAt b e other line') ∧
      ∀ b other line', t.get b other line' =
        if s.holder? b other = some holder ∧ other = name then .ok value
        else s.get b other line') ∧
    (undefined name line).fault.message = "Undefined variable '" ++ name ++ "'." ∧
    (undefined name line).line = line := by
  refine ⟨fun d least => ?_, fun nowhere => ?_, fun d t => rebinds_of_assigned outward,
    fun holder t rebinds => ⟨rebinds.getAt, rebinds.get⟩, rfl, rfl⟩
  · obtain ⟨got, assigned⟩ := search_eq_distance outward least value line
    obtain ⟨holder, found, contains⟩ := least.1
    obtain ⟨old, stored⟩ := Bindings.get?_of_contains contains
    refine ⟨got, assigned, holder, old, s.define holder name value, found, ?_, ?_, ?_⟩
    · rw [getAt, found, Option.bind_some, stored]
    · exact assignAt_of_targetAt (targetAt_of_contains found contains line)
    · exact rebinds_define contains value
  -- A search that goes outward to the end has passed every distance.
  · have none := search_fails outward nowhere
    refine ⟨get_of_holder?_none none line, ?_, fun d => ⟨?_, ?_⟩, ?_⟩
    · rw [assign, target_of_holder?_none none]
      rfl
    · exact getAt_of_not_bindsAt (nowhere d) line
    · rw [assignAt, targetAt_of_not_bindsAt (nowhere d)]
      rfl
    · rintro m o rfl rfl rfl rfl
      exact ⟨lookup_fails nowhere outward, assign_fails nowhere outward value⟩

def shadowed : Store :=
  let s := ((initial.define globals "a" .nil).newScope globals).2
  ((s.define 1 "a" (.bool true)).newScope 1).2

theorem built_shadowed : ∃ made, shadowed.Built made := by
  have s1 := @Built.simple _ _ .nil .initial (.inl trivial)
  have s2 := @Built.define _ _ globals "a" _ s1 (Set.mem_insert _ _)
  have s3 := @Built.child _ _ globals s2 ⟨none, _, rfl⟩
  have s4 := @Built.simple _ _ (.bool true) s3 (.inl trivial)
  have s5 := @Built.define _ _ 1 "a" _ s4 (Set.mem_insert _ _)
  exact ⟨_, s5.child ⟨some globals, _, rfl⟩⟩

theorem outward_shadowed : shadowed.Outward := by
  obtain ⟨made, built⟩ := built_shadowed
  exact built.outward

theorem least_shadowed : IsLeast {d | shadowed.BindsAt 2 "a" d} 1 := by
  refine ⟨⟨1, rfl, by decide +kernel⟩, ?_⟩
  rintro (_ | d) binds
  · exact absurd (bindsAt_zero.mp binds) (by decide +kernel)
  · exact Nat.succ_le_succ (Nat.zero_le d)

theorem nowhere_shadowed (d : Nat) : ¬ shadowed.BindsAt 2 "b" d := by
  have inner : shadowed.parent? 2 = some 1 := rfl
  have outer : shadowed.parent? 1 = some 0 := rfl
  rcases d with _ | _ | _ | d
  · rw [bindsAt_zero]
    decide +kernel
  · rw [bindsAt_succ inner, bindsAt_zero]
    decide +kernel
  · rw [bindsAt_succ inner, bindsAt_succ outer, bindsAt_zero]
    decide +kernel
  · rw [bindsAt_succ inner, bindsAt_succ outer]
    exact not_bindsAt_succ rfl

theorem search_agrees_with_distances_shadowed : shadowed.Outward ∧
    IsLeast {d | shadowed.BindsAt 2 "a" d} 1 ∧ (∀ d, ¬ shadowed.BindsAt 2 "b" d) ∧
    shadowed.get 2 "a" 7 = .ok (.bool true) ∧ shadowed.get 2 "b" 7 = .error (undefined "b" 7) ∧
    ∃ t, shadowed.assign 2 "a" .nil 7 = .ok t ∧ shadowed.Rebinds 1 "a" .nil t ∧
      t.get 2 "a" 7 = .ok .nil ∧ t.getAt 2 2 "a" 7 = shadowed.getAt 2 2 "a" 7 := by
  obtain ⟨found, -, -, reads, -⟩ := search_agrees_with_distances outward_shadowed 2 "a" .nil 7
  obtain ⟨-, missing, -⟩ := search_agrees_with_distances outward_shadowed 2 "b" .nil 7
  obtain ⟨got, assigned, holder, old, t, here, -, ok, rebinds⟩ := found 1 least_shadowed
  cases here
  refine ⟨outward_shadowed, least_shadowed, nowhere_shadowed, got, (missing nowhere_shadowed).1, t,
    assigned.trans ok, rebinds, ?_, ?_⟩
  · exact ((reads 1 t rebinds).2 2 "a" 7).trans (if_pos ⟨by decide +kernel, rfl⟩)
  · exact ((reads 1 t rebinds).1 2 2 "a" 7).trans (if_neg fun both =>
      absurd both.1 (by decide +kernel))

end Store

end ClassScript
