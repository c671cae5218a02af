import ClassScript.Proofs.Lexical.Chain

namespace ClassScript.Store

open Binding

variable {s t : Store} {a b c p : Address} {i j n : Nat} {scopes : Scopes}

theorem ancestor?_add (s : Store) (a : Address) (i j : Nat) :
    s.ancestor? a (i + j) = (s.ancestor? a i).bind fun b => s.ancestor? b j := by
  induction i generalizing a with
  | zero => rw [Nat.zero_add, ancestor?, Option.bind_some]
  | succ i ih =>
      rw [Nat.succ_add, ancestor?, ancestor?]
      cases s.parent? a with
      | none => rfl
      | some p => exact ih p

theorem ancestor?_append (h : s.ancestor? a i = some b) (j : Nat) :
    s.ancestor? a (i + j) = s.ancestor? b j := by
  rw [ancestor?_add, h, Option.bind_some]

theorem ancestor?_succ (h : s.parent? a = some p) (n : Nat) :
    s.ancestor? a (n + 1) = s.ancestor? p n := by
  rw [ancestor?, h, Option.bind_some]

theorem exists_ancestor? (h : s.ancestor? a n = some b) (le : i ≤ n) :
    ∃ c, s.ancestor? a i = some c ∧ s.ancestor? c (n - i) = some b := by
  rw [← Nat.add_sub_of_le le, ancestor?_add] at h
  exact Option.bind_eq_some_iff.mp h

theorem Extends.ancestor? (h : s.Extends t) (ha : s.ancestor? a n = some b) :
    t.ancestor? a n = some b := by
  induction n generalizing a with
  | zero => exact ha
  | succ n ih =>
      obtain ⟨p, hp, hb⟩ := Option.bind_eq_some_iff.mp ha
      rw [ancestor?_succ (h.parent? hp)]
      exact ih hb

theorem ancestor?_unique (ordered : s.Extends t ∨ t.Extends s) (hs : s.ancestor? a n = some b)
    (ht : t.ancestor? a n = some c) : b = c := by
  rcases ordered with ext | ext
  · exact Option.some.inj ((ext.ancestor? hs).symm.trans ht)
  · exact Option.some.inj (hs.symm.trans (ext.ancestor? ht))

theorem Sound.parent_lt (sound : s.Sound) (ha : s.ScopeListed a) (hp : s.parent? a = some p) :
    p < a := by
  rcases ha with rfl | ha
  · obtain ⟨bs, hc⟩ := sound.globalScope
    rw [parent?_of_cell hc] at hp
    cases hp
  · obtain ⟨q, bs, hc, lt⟩ := sound.scope_cell a ha
    rw [parent?_of_cell hc] at hp
    cases hp
    exact lt

theorem Sound.ancestor_le (sound : s.Sound) (ha : s.ScopeListed a)
    (hb : s.ancestor? a n = some b) : b ≤ a := by
  induction n generalizing a with
  | zero =>
      cases hb
      exact Nat.le_refl _
  | succ n ih =>
      obtain ⟨p, hp, hb⟩ := Option.bind_eq_some_iff.mp hb
      exact (ih (sound.parent_listed ha hp) hb).trans (sound.parent_lt ha hp).le

theorem Extends.ancestor?_eq (h : s.Extends t) (sound : t.Sound) (ha : t.ScopeListed a)
    (lt : a < s.cells.size) (n : Nat) : s.ancestor? a n = t.ancestor? a n := by
  induction n generalizing a with
  | zero => rfl
  | succ n ih =>
      have same := h.parent?_eq lt
      cases hp : t.parent? a with
      | none => rw [Store.ancestor?, Store.ancestor?, ← same, hp]; rfl
      | some p =>
          rw [ancestor?_succ (same.symm.trans hp), ancestor?_succ hp]
          exact ih (sound.parent_listed ha hp) ((sound.parent_lt ha hp).trans lt)

theorem Sound.parent?_globals (sound : s.Sound) : s.parent? globals = none := by
  obtain ⟨bs, hc⟩ := sound.globalScope
  exact parent?_of_cell hc

theorem ScopesAgree.outermost (h : s.ScopesAgree a scopes) :
    s.ancestor? a scopes.length = some Store.globals := by
  induction h with
  | globals => rfl
  | scope hp _ _ ih =>
      rw [List.length_cons, ancestor?_succ hp]
      exact ih

theorem le_of_depth (root : s.parent? globals = none) (depth : s.ancestor? a n = some globals)
    (h : s.ancestor? a i = some b) : i ≤ n := by
  by_contra more
  obtain ⟨d, rfl⟩ := Nat.exists_eq_add_of_lt (Nat.lt_of_not_le more)
  rw [Nat.add_assoc, ancestor?_append depth, Store.ancestor?, root] at h
  cases h

theorem depth_unique (root : s.parent? globals = none) (hi : s.ancestor? a i = some globals)
    (hj : s.ancestor? a j = some globals) : i = j :=
  Nat.le_antisymm (le_of_depth root hj hi) (le_of_depth root hi hj)

end ClassScript.Store
