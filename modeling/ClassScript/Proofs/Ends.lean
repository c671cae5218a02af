import Mathlib.Tactic.Common

namespace ClassScript

variable {ε σ α β : Type} {m : σ} {Q R : α → σ → Prop} {E F : ε → σ → Prop}

/-- The part ends with a value and a state that satisfy `Q`, or fails in a state that satisfies
`E`. -/
def Ends (part : EStateM ε σ α) (m : σ) (Q : α → σ → Prop) (E : ε → σ → Prop) : Prop :=
  match part m with
  | .ok a m => Q a m
  | .error e m => E e m

theorem Ends.imp {part : EStateM ε σ α} (h : Ends part m Q E) (hQ : ∀ a m, Q a m → R a m)
    (hE : ∀ e m, E e m → F e m) : Ends part m R F := by
  unfold Ends at *
  generalize part m = result at *
  cases result with
  | ok a n => exact hQ a n h
  | error e n => exact hE e n h

theorem Ends.and {part : EStateM ε σ α} (h : Ends part m Q E) (h' : Ends part m R F) :
    Ends part m (fun a n => Q a n ∧ R a n) fun e n => E e n ∧ F e n := by
  unfold Ends at *
  generalize part m = result at *
  cases result with
  | ok a n => exact ⟨h, h'⟩
  | error e n => exact ⟨h, h'⟩

theorem Ends.ran {part : EStateM ε σ α} (h : Ends part m Q E) :
    Ends part m (fun a n => part m = .ok a n ∧ Q a n) E := by
  unfold Ends at *
  generalize part m = result at *
  cases result with
  | ok a n => exact ⟨rfl, h⟩
  | error e n => exact h

theorem ends_ok_iff {part : EStateM ε σ α} {a : α} {m' : σ} (h : part m = .ok a m') :
    Ends part m Q E ↔ Q a m' := by
  simp [Ends, h]

theorem ends_bind {part : EStateM ε σ α} {rest : α → EStateM ε σ β} {Q : β → σ → Prop} :
    Ends (part >>= rest) m Q E ↔ Ends part m (fun a m => Ends (rest a) m Q E) E := by
  simp only [Ends, bind, EStateM.bind]
  cases part m <;> rfl

theorem ends_pure {a : α} : Ends (pure a) m Q E ↔ Q a m := Iff.rfl

theorem ends_map {part : EStateM ε σ α} {f : α → β} {Q : β → σ → Prop} :
    Ends (f <$> part) m Q E ↔ Ends part m (fun a m => Q (f a) m) E := by
  simp only [Ends, Functor.map, EStateM.map]
  cases part m <;> rfl

theorem ends_discard {part : EStateM ε σ α} {Q : PUnit → σ → Prop} :
    Ends (discard part) m Q E ↔ Ends part m (fun _ m => Q ⟨⟩ m) E := ends_map

theorem get_bind (rest : σ → EStateM ε σ α) (m : σ) :
    ((get : EStateM ε σ σ) >>= rest) m = rest m m := rfl

theorem bind_ok {part : EStateM ε σ α} {rest : α → EStateM ε σ β} {a : α} {n : σ}
    (run : part m = .ok a n) : (part >>= rest) m = rest a n := by
  simp only [bind, EStateM.bind, run]

theorem bind_error {part : EStateM ε σ α} {rest : α → EStateM ε σ β} {e : ε} {n : σ}
    (run : part m = .error e n) : (part >>= rest) m = .error e n := by
  simp only [bind, EStateM.bind, run]

theorem ok_of_bind {part : EStateM ε σ α} {rest : α → EStateM ε σ β} {b : β} {n : σ}
    (run : (part >>= rest) m = .ok b n) : ∃ a l, part m = .ok a l ∧ rest a l = .ok b n := by
  cases first : part m with
  | ok a l =>
      rw [bind_ok first] at run
      exact ⟨a, l, rfl, run⟩
  | error e l =>
      rw [bind_error first] at run
      cases run

theorem ends_get {Q : σ → σ → Prop} : Ends get m Q E ↔ Q m m := Iff.rfl

theorem ends_throw {e : ε} : Ends (throw e) m Q E ↔ E e m := Iff.rfl

end ClassScript
