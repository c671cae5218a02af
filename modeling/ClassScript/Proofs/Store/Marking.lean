import Mathlib.Data.Finset.Card
import Mathlib.Data.Finset.Range
import Mathlib.Data.List.TakeWhile
import ClassScript.Proofs.Store.Sound

namespace ClassScript.Store

variable {s : Store} {a b root : Address}

def Reaches (s : Store) : Address → Address → Prop :=
  Relation.ReflTransGen fun a b => b ∈ s.referencesOf a

theorem referencesOf_of_cell {c : Cell} (h : s.cells[a]? = some c) :
    s.referencesOf a = c.references := by
  simp [referencesOf, h]

def unmarked (s : Store) (marks : Marks) : Finset Address :=
  (Finset.range s.cells.size).filter (· ∉ marks)

theorem card_unmarked_insert {marks : Marks} (range : a < s.cells.size) (fresh : a ∉ marks) :
    (s.unmarked (marks.insert a)).card + 1 ≤ (s.unmarked marks).card := by
  have mem : a ∈ s.unmarked marks := by simp [unmarked, range, fresh]
  have sub : s.unmarked (marks.insert a) ⊆ (s.unmarked marks).erase a := by
    intro b hb
    simp only [unmarked, Finset.mem_filter, Std.TreeSet.mem_insert, not_or, Finset.mem_erase] at hb ⊢
    exact ⟨fun eq => hb.2.1 (by simp [eq]), hb.1, hb.2.2⟩
  have le := Finset.card_le_card sub
  rw [Finset.card_erase_of_mem mem] at le
  have pos : 0 < (s.unmarked marks).card := Finset.card_pos.mpr ⟨a, mem⟩
  omega

theorem mem_marks_insert {marks : Marks} : b ∈ marks.insert a ↔ b = a ∨ b ∈ marks := by
  rw [Std.TreeSet.mem_insert, Nat.compare_eq_eq, eq_comm]

theorem mem_of_dropWhile_eq_nil {marks : Marks} {pending : List Address}
    (h : pending.dropWhile marks.contains = []) : ∀ a ∈ pending, a ∈ marks := by
  intro a ha
  exact Std.TreeSet.contains_iff_mem.mp (List.dropWhile_eq_nil_iff.mp h a ha)

theorem mem_pending {marks : Marks} {pending rest : List Address} {id : Address}
    (h : pending.dropWhile marks.contains = id :: rest) (ha : a ∈ pending) :
    a ∈ marks ∨ a = id ∨ a ∈ rest := by
  rw [← List.takeWhile_append_dropWhile (p := marks.contains) (l := pending), h] at ha
  rcases List.mem_append.mp ha with ha | ha
  · exact .inl (Std.TreeSet.contains_iff_mem.mp (List.mem_takeWhile_imp ha))
  · exact .inr (List.mem_cons.mp ha)

theorem not_mem_of_dropWhile {marks : Marks} {pending rest : List Address} {id : Address}
    (h : pending.dropWhile marks.contains = id :: rest) : id ∉ marks := by
  have first := List.head?_dropWhile_not marks.contains pending
  rw [h] at first
  intro mem
  simp [Std.TreeSet.contains_iff_mem.mpr mem] at first

theorem mem_pending_of_dropWhile {marks : Marks} {pending rest : List Address} {id : Address}
    (h : pending.dropWhile marks.contains = id :: rest) (ha : a = id ∨ a ∈ rest) : a ∈ pending := by
  have sub := (List.dropWhile_suffix (l := pending) marks.contains).subset
  rw [h] at sub
  exact sub (List.mem_cons.mpr ha)

theorem markFrom_sound {bound : Nat} {pending : List Address} {marks : Marks}
    (hp : ∀ a ∈ pending, s.Reaches root a) (hm : ∀ a ∈ marks, s.Reaches root a) :
    ∀ a ∈ s.markFrom bound pending marks, s.Reaches root a := by
  induction bound generalizing pending marks with
  | zero => exact hm
  | succ bound ih =>
      unfold markFrom
      split
      · exact hm
      · rename_i id rest eq
        have reach : s.Reaches root id := hp id (mem_pending_of_dropWhile eq (.inl rfl))
        refine ih ?_ ?_
        · intro a ha
          rcases List.mem_append.mp ha with ha | ha
          · exact reach.tail ha
          · exact hp a (mem_pending_of_dropWhile eq (.inr ha))
        · intro a ha
          rcases mem_marks_insert.mp ha with rfl | ha
          · exact reach
          · exact hm a ha

def Covers (s : Store) (pending : List Address) (marks : Marks) : Prop :=
  ∀ a ∈ marks, ∀ b ∈ s.referencesOf a, b ∈ marks ∨ b ∈ pending

theorem markFrom_covers {bound : Nat} {pending : List Address} {marks : Marks}
    (enough : (s.unmarked marks).card ≤ bound)
    (range : ∀ a b, s.Reaches root a → b ∈ s.referencesOf a → b < s.cells.size)
    (hp : ∀ a ∈ pending, s.Reaches root a ∧ a < s.cells.size) (covers : s.Covers pending marks) :
    (∀ a ∈ marks, a ∈ s.markFrom bound pending marks) ∧
      (∀ a ∈ pending, a ∈ s.markFrom bound pending marks) ∧
      s.Covers [] (s.markFrom bound pending marks) := by
  induction bound generalizing pending marks with
  | zero =>
      -- With nothing unmarked left there is nothing that could be missed.
      have all : ∀ a, a < s.cells.size → a ∈ marks := by
        intro a ha
        by_contra fresh
        have mem : a ∈ s.unmarked marks := by simp [unmarked, ha, fresh]
        rw [Finset.card_eq_zero.mp (Nat.le_zero.mp enough)] at mem
        simp at mem
      refine ⟨fun a ha => ha, fun a ha => all a (hp a ha).2, fun a ha b hb => .inl ?_⟩
      rcases covers a ha b hb with hb | hb
      · exact hb
      · exact all b (hp b hb).2
  | succ bound ih =>
      unfold markFrom
      split
      · rename_i eq
        refine ⟨fun a ha => ha, mem_of_dropWhile_eq_nil eq, fun a ha b hb => .inl ?_⟩
        exact (covers a ha b hb).elim id (mem_of_dropWhile_eq_nil eq b)
      · rename_i id rest eq
        obtain ⟨reach, lt⟩ := hp id (mem_pending_of_dropWhile eq (.inl rfl))
        have fewer := card_unmarked_insert (s := s) lt (not_mem_of_dropWhile eq)
        have step := @ih (s.referencesOf id ++ rest) (marks.insert id) (by omega) ?_ ?_
        · obtain ⟨hmarks, hpending, closed⟩ := step
          refine ⟨fun a ha => hmarks a (mem_marks_insert.mpr (.inr ha)), fun a ha => ?_, closed⟩
          rcases mem_pending eq ha with ha | rfl | ha
          · exact hmarks a (mem_marks_insert.mpr (.inr ha))
          · exact hmarks a (mem_marks_insert.mpr (.inl rfl))
          · exact hpending a (List.mem_append_right _ ha)
        · intro a ha
          rcases List.mem_append.mp ha with ha | ha
          · exact ⟨reach.tail ha, range id a reach ha⟩
          · exact hp a (mem_pending_of_dropWhile eq (.inr ha))
        · intro a ha b hb
          rcases mem_marks_insert.mp ha with rfl | ha
          · exact .inr (List.mem_append_left _ hb)
          · rcases covers a ha b hb with hb | hb
            · exact .inl (mem_marks_insert.mpr (.inr hb))
            · rcases mem_pending eq hb with hb | rfl | hb
              · exact .inl (mem_marks_insert.mpr (.inr hb))
              · exact .inl (mem_marks_insert.mpr (.inl rfl))
              · exact .inr (List.mem_append_right _ hb)

theorem mem_marked_iff_reaches (range : ∀ b, s.Reaches root b → b < s.cells.size) :
    a ∈ s.marked root ↔ s.Reaches root a := by
  have only : ∀ b ∈ [root], s.Reaches root b := by
    intro b hb
    rw [List.mem_singleton.mp hb]
    exact .refl
  have none : ∀ b ∈ (∅ : Marks), False := fun b hb => Std.TreeSet.not_mem_emptyc hb
  constructor
  · exact markFrom_sound only (fun b hb => (none b hb).elim) a
  · intro reach
    obtain ⟨-, pending, covers⟩ := @markFrom_covers s root s.cells.size [root] ∅
      ((Finset.card_filter_le _ _).trans (Finset.card_range _).le)
      (fun b c hb hc => range c (hb.tail hc))
      (fun b hb => ⟨only b hb, range b (only b hb)⟩)
      (fun b hb => (none b hb).elim)
    induction reach with
    | refl => exact pending root (List.mem_singleton.mpr rfl)
    | tail _ step ih => exact (covers _ ih _ step).resolve_right (List.not_mem_nil)

theorem ValueListed.references {v : Value} (h : s.ValueListed v) (ha : a ∈ v.references) :
    s.Listed a := by
  cases v <;> simp only [Value.references, List.mem_cons, List.not_mem_nil, or_false] at ha
  case function => exact .inl (ha ▸ h)
  case bound => exact .inl (ha ▸ h)
  case «class» => exact .inl (h a ha)
  case «instance» =>
      rcases ha with rfl | ha
      · exact .inr h.1
      · exact .inl (h.2 a ha)

theorem CellListed.references {c : Cell} (h : s.CellListed c) (ha : a ∈ c.references) :
    s.Listed a := by
  cases c with
  | scope parent bs =>
      rcases List.mem_append.mp ha with ha | ha
      · exact .inl (h.1 a (Option.mem_toList.mp ha))
      · obtain ⟨entry, he, ha⟩ := List.mem_flatMap.mp ha
        exact (h.2 entry he).references ha
  | «instance» bs =>
      obtain ⟨entry, he, ha⟩ := List.mem_flatMap.mp ha
      exact (h entry he).references ha
  | identity => cases ha

theorem Sound.referencesOf_listed (h : s.Sound) (ha : s.Listed a) (hb : b ∈ s.referencesOf a) :
    s.Listed b := by
  obtain ⟨c, hc⟩ := h.listed_cell ha
  rw [referencesOf_of_cell hc] at hb
  exact (h.cell_listed a c ha hc).references hb

theorem Sound.reaches_listed (h : s.Sound) (ha : s.Listed a) (hb : s.Reaches a b) : s.Listed b := by
  induction hb with
  | refl => exact ha
  | tail _ step ih => exact h.referencesOf_listed ih step

theorem reaches_parent? (h : s.parent? a = some b) : s.Reaches a b := by
  obtain ⟨bs, hc⟩ := cell_of_parent? h
  refine .single ?_
  rw [referencesOf_of_cell hc]
  exact List.mem_append_left _ (List.mem_singleton.mpr rfl)

theorem Sound.reaches_globals (h : s.Sound) (ha : s.ScopeListed a) : s.Reaches a globals := by
  induction a using Nat.strong_induction_on with
  | _ a ih =>
      rcases ha with rfl | mem
      · exact .refl
      · obtain ⟨p, bs, hc, lt⟩ := h.scope_cell a mem
        have hp := parent?_of_cell hc
        exact (reaches_parent? hp).trans (ih p lt (h.parent_listed (.inr mem) hp))

theorem Sound.mem_marked_iff (h : s.Sound) (hr : s.ScopeListed root) :
    a ∈ s.marked root ↔ s.Reaches root a :=
  mem_marked_iff_reaches fun _ reach => h.listed_lt (h.reaches_listed (.inl hr) reach)

theorem cells_emptyAll (cells : Array Cell) (ids : Array Address) (a : Address) :
    (emptyAll cells ids)[a]? = if a ∈ ids then (cells[a]?).map Cell.emptied else cells[a]? := by
  obtain ⟨ids⟩ := ids
  simp only [emptyAll, List.size_toArray, List.foldl_toArray', List.mem_toArray]
  induction ids generalizing cells with
  | nil => simp
  | cons id rest ih =>
      rw [List.foldl_cons, ih, Array.getElem?_modify]
      by_cases eq : id = a
      · subst eq
        have twice : Cell.emptied ∘ Cell.emptied = Cell.emptied := by
          funext c
          cases c <;> rfl
        simp [twice]
      · by_cases mem : a ∈ rest <;> simp [eq, mem, Ne.symm eq]

theorem size_emptyAll (cells : Array Cell) (ids : Array Address) :
    (emptyAll cells ids).size = cells.size := by
  unfold emptyAll
  rw [← Array.foldl_toList]
  induction ids.toList generalizing cells with
  | nil => rfl
  | cons id rest ih => rw [List.foldl_cons, ih, Array.size_modify]

@[simp] theorem size_collect : (s.collect root).cells.size = s.cells.size := size_emptyAll _ _

theorem mem_scopes_collect :
    a ∈ (s.collect root).scopes ↔ a ∈ s.scopes ∧ a ∈ s.marked root := by
  simp [collect]

theorem mem_instances_collect :
    a ∈ (s.collect root).instances ↔ a ∈ s.instances ∧ a ∈ s.marked root := by
  simp [collect]

def Releases (s : Store) (root a : Address) : Prop :=
  (a ∈ s.scopes ∨ a ∈ s.instances) ∧ a ∉ s.marked root

theorem mem_released :
    a ∈ (s.scopes ++ s.instances).filter (!(s.marked root).contains ·) ↔ s.Releases root a := by
  simp [Releases, ← Std.TreeSet.contains_iff_mem, or_and_right]

theorem cells_collect_of_releases (h : s.Releases root a) :
    (s.collect root).cells[a]? = (s.cells[a]?).map Cell.emptied :=
  (cells_emptyAll _ _ a).trans (if_pos (mem_released.mpr h))

theorem cells_collect_of_kept (h : ¬ s.Releases root a) :
    (s.collect root).cells[a]? = s.cells[a]? :=
  (cells_emptyAll _ _ a).trans (if_neg fun mem => h (mem_released.mp mem))

theorem cells_collect_of_marked (h : a ∈ s.marked root) :
    (s.collect root).cells[a]? = s.cells[a]? := cells_collect_of_kept fun released => released.2 h

def EmptiedIn (s t : Store) (a : Address) : Prop := t.cells[a]? = (s.cells[a]?).map Cell.emptied

theorem extends_of_emptied {t : Store}
    (h : ∀ a, s.EmptiedIn t a ∨ t.cells[a]? = s.cells[a]?) : s.Extends t := by
  intro a c hc
  rcases h a with emptied | kept
  · refine ⟨c.emptied, ?_, c.sameShape_emptied⟩
    rw [emptied, hc]
    rfl
  · exact ⟨c, kept.trans hc, c.sameShape_refl⟩

theorem EmptiedIn.bindings {t : Store} (h : s.EmptiedIn t a) : t.bindings a = .empty := by
  unfold Store.bindings
  rw [h]
  cases s.cells[a]? with
  | none => rfl
  | some c => cases c <;> rfl

theorem EmptiedIn.fields {t : Store} (h : s.EmptiedIn t a) : t.fields a = .empty := by
  unfold Store.fields
  rw [h]
  cases s.cells[a]? with
  | none => rfl
  | some c => cases c <;> rfl

theorem extends_collect (s : Store) (root : Address) : s.Extends (s.collect root) := by
  apply extends_of_emptied
  intro a
  by_cases released : s.Releases root a
  · exact .inl (cells_collect_of_releases released)
  · exact .inr (cells_collect_of_kept released)

theorem parent?_collect (s : Store) (root a : Address) :
    (s.collect root).parent? a = s.parent? a :=
  (extends_collect s root).parent?_of_size_eq size_collect a

theorem bindings_collect_of_releases (h : s.Releases root a) :
    (s.collect root).bindings a = .empty := EmptiedIn.bindings (cells_collect_of_releases h)

theorem fields_collect_of_releases (h : s.Releases root a) :
    (s.collect root).fields a = .empty := EmptiedIn.fields (cells_collect_of_releases h)

theorem bindings_collect_of_kept (h : ¬ s.Releases root a) :
    (s.collect root).bindings a = s.bindings a := by
  unfold bindings
  rw [cells_collect_of_kept h]

theorem fields_collect_of_kept (h : ¬ s.Releases root a) :
    (s.collect root).fields a = s.fields a := by
  unfold fields
  rw [cells_collect_of_kept h]

theorem Sound.marked_root (h : s.Sound) (hr : s.ScopeListed root) : root ∈ s.marked root :=
  (h.mem_marked_iff hr).mpr .refl

theorem Sound.marked_globals (h : s.Sound) (hr : s.ScopeListed root) :
    globals ∈ s.marked root := (h.mem_marked_iff hr).mpr (h.reaches_globals hr)

theorem Sound.scopeListed_collect (h : s.Sound) (hr : s.ScopeListed root) :
    (s.collect root).ScopeListed a ↔ s.ScopeListed a ∧ a ∈ s.marked root := by
  constructor
  · rintro (rfl | mem)
    · exact ⟨.inl rfl, h.marked_globals hr⟩
    · exact (mem_scopes_collect.mp mem).imp .inr id
  · rintro ⟨rfl | mem, marked⟩
    · exact .inl rfl
    · exact .inr (mem_scopes_collect.mpr ⟨mem, marked⟩)

theorem Sound.listed_collect (h : s.Sound) (hr : s.ScopeListed root) :
    (s.collect root).Listed a ↔ s.Listed a ∧ a ∈ s.marked root := by
  simp only [Listed, h.scopeListed_collect hr, mem_instances_collect, or_and_right]

theorem Sound.marked_closed (h : s.Sound) (hr : s.ScopeListed root) (ha : a ∈ s.marked root)
    (hb : b ∈ s.referencesOf a) : b ∈ s.marked root :=
  (h.mem_marked_iff hr).mpr (((h.mem_marked_iff hr).mp ha).tail hb)

theorem Sound.marked_parent (h : s.Sound) (hr : s.ScopeListed root) (ha : a ∈ s.marked root)
    (hp : s.parent? a = some b) : b ∈ s.marked root := by
  obtain ⟨bs, hc⟩ := cell_of_parent? hp
  apply h.marked_closed hr ha
  rw [referencesOf_of_cell hc]
  exact List.mem_append_left _ (List.mem_singleton.mpr rfl)

theorem Sound.marked_ancestor (h : s.Sound) (hr : s.ScopeListed root) {n : Nat}
    (ha : a ∈ s.marked root) (hb : s.ancestor? a n = some b) : b ∈ s.marked root := by
  induction n generalizing a with
  | zero =>
      cases hb
      exact ha
  | succ n ih =>
      obtain ⟨p, hp, hb⟩ := Option.bind_eq_some_iff.mp hb
      exact ih (h.marked_parent hr ha hp) hb

theorem bindings_collect_of_marked (h : a ∈ s.marked root) :
    (s.collect root).bindings a = s.bindings a := by
  unfold bindings
  rw [cells_collect_of_marked h]

theorem ValueListed.collect (h : s.Sound) (hr : s.ScopeListed root) {v : Value}
    (hv : s.ValueListed v) (marked : ∀ a ∈ v.references, a ∈ s.marked root) :
    (s.collect root).ValueListed v := by
  have scope : ∀ a, s.ScopeListed a → a ∈ v.references → (s.collect root).ScopeListed a :=
    fun a ha mem => (h.scopeListed_collect hr).mpr ⟨ha, marked a mem⟩
  cases v <;> simp only [ValueListed] at hv ⊢
  case function => exact scope _ hv (List.mem_singleton.mpr rfl)
  case bound => exact scope _ hv (List.mem_singleton.mpr rfl)
  case «class» => exact fun a ha => scope a (hv a ha) ha
  case «instance» =>
      refine ⟨mem_instances_collect.mpr ⟨hv.1, marked _ List.mem_cons_self⟩, fun a ha => ?_⟩
      exact scope a (hv.2 a ha) (List.mem_cons_of_mem _ ha)

theorem CellListed.collect (h : s.Sound) (hr : s.ScopeListed root) {c : Cell}
    (hc : s.CellListed c) (marked : ∀ a ∈ c.references, a ∈ s.marked root) :
    (s.collect root).CellListed c := by
  cases c with
  | scope parent bs =>
      refine ⟨fun p hp => ?_, fun entry he => (hc.2 entry he).collect h hr fun a ha => ?_⟩
      · refine (h.scopeListed_collect hr).mpr ⟨hc.1 p hp, marked p ?_⟩
        exact List.mem_append_left _ (Option.mem_toList.mpr hp)
      · exact marked a (List.mem_append_right _ (List.mem_flatMap.mpr ⟨entry, he, ha⟩))
  | «instance» bs =>
      exact fun entry he => (hc entry he).collect h hr fun a ha =>
        marked a (List.mem_flatMap.mpr ⟨entry, he, ha⟩)
  | identity => trivial

/-- What a collection keeps refers only to what it keeps. -/
theorem Sound.collect (h : s.Sound) (hr : s.ScopeListed root) : (s.collect root).Sound := by
  have same : ∀ a, a ∈ s.marked root → (s.collect root).cells[a]? = s.cells[a]? :=
    fun a => cells_collect_of_marked
  refine ⟨?_, ?_, ?_, ?_, ?_, ?_⟩
  · obtain ⟨bs, hg⟩ := h.globalScope
    exact ⟨bs, by rw [same _ (h.marked_globals hr), hg]⟩
  · simpa [Store.collect] using h.scopes_nodup.filter _
  · simpa [Store.collect] using h.instances_nodup.filter _
  · intro a ha
    obtain ⟨mem, marked⟩ := mem_scopes_collect.mp ha
    rw [same a marked]
    exact h.scope_cell a mem
  · intro a ha
    obtain ⟨mem, marked⟩ := mem_instances_collect.mp ha
    rw [same a marked]
    exact h.instance_cell a mem
  · intro a c ha hc
    obtain ⟨listed, marked⟩ := (h.listed_collect hr).mp ha
    rw [same a marked] at hc
    refine (h.cell_listed a c listed hc).collect h hr fun b hb => ?_
    rw [← referencesOf_of_cell hc] at hb
    exact h.marked_closed hr marked hb

end ClassScript.Store
