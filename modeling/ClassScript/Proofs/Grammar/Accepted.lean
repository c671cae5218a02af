import ClassScript.Proofs.Grammar.Recognized

namespace ClassScript.Grammar

open ClassScript.Parser

variable {α β : Type} {limited : Bool} {b c a : List Token} {P : α → Prop} {R : β → Prop}
  {wanted : TokenKind → Bool} {t : Token}

/-- The parser succeeds in front of the tokens `b`, leaves `a`, and has a result that satisfies `P`.
With `limited`, it does so without recording a fault. -/
def Accepts (limited : Bool) (p : Parser α) (b a : List Token) (P : α → Prop) : Prop :=
  ∀ s : State, s.tokens = b →
    Ends p s (fun x t => t.tokens = a ∧ P x ∧ (Clean limited s → Clean limited t)) fun _ _ => False

theorem Accepts.then {p : Parser α} {q : α → Parser β} (h : Accepts limited p b c P)
    (next : ∀ x, P x → Accepts limited (q x) c a R) : Accepts limited (p >>= q) b a R := by
  intro s tokens
  apply ends_bind.mpr
  apply Ends.imp (h s tokens)
  · rintro x t ⟨rest, result, clean⟩
    apply Ends.imp (next x result t rest)
    · rintro y u ⟨rest, result, clean'⟩
      exact ⟨rest, result, fun first => clean' (clean first)⟩
    · exact fun _ _ fails => fails
  · exact fun _ _ fails => fails

theorem Accepts.imp {p : Parser α} {Q : α → Prop} (h : Accepts limited p b a P)
    (imp : ∀ x, P x → Q x) : Accepts limited p b a Q := by
  intro s tokens
  apply Ends.imp (h s tokens)
  · rintro x t ⟨rest, result, clean⟩
    exact ⟨rest, imp x result, clean⟩
  · exact fun _ _ fails => fails

theorem accepts_pure {x : α} (h : P x) : Accepts limited (pure x) a a P :=
  fun _ tokens => ⟨tokens, h, fun clean => clean⟩

theorem accepts_map {p : Parser α} {f : α → β} (h : Accepts limited p b a fun x => R (f x)) :
    Accepts limited (f <$> p) b a R :=
  fun s tokens => ends_map.mpr (h s tokens)

theorem accepts_discard {p : Parser α} (h : Accepts limited p b a P) :
    Accepts limited (discard p) b a fun _ => True := by
  intro s tokens
  apply ends_discard.mpr
  apply Ends.imp (h s tokens)
  · rintro x t ⟨rest, -, clean⟩
    exact ⟨rest, trivial, clean⟩
  · exact fun _ _ fails => fails

theorem accepts_peek : Accepts limited peek (t :: a) (t :: a) (· = t) := by
  intro s tokens
  refine ⟨tokens, ?_, fun clean => clean⟩
  simp [State.front, tokens]

theorem accepts_advance : Accepts limited advance (t :: a) a fun _ => True := by
  intro s tokens
  refine ⟨?_, trivial, fun clean => clean⟩
  simp [tokens]

theorem accepts_sees (kind : TokenKind) :
    Accepts limited (sees kind) a a (· = startsWith (· == kind) a) := by
  rintro s rfl
  exact ⟨rfl, rfl, fun clean => clean⟩

theorem accepts_some (fits : wanted t.kind = true) :
    Accepts limited (accept? wanted) (t :: a) a (· = some t) := by
  intro s tokens
  exact (ends_ok_iff (accept?_found tokens fits)).mpr ⟨rfl, rfl, id⟩

theorem accepts_none (other : startsWith wanted a = false) :
    Accepts limited (accept? wanted) a a (· = none) := by
  rintro s rfl
  exact (ends_ok_iff (accept?_missed other)).mpr ⟨rfl, rfl, id⟩

theorem accepts_expect {what : Expectation} (kind : t.kind = what.kind) :
    Accepts limited (expect what) (t :: a) a (· = t) := by
  apply (accepts_some (by simp [kind])).then
  rintro found rfl
  exact accepts_pure rfl

theorem accepts_skip {what : Expectation} (kind : t.kind = what.kind) :
    Accepts limited (discard (expect what)) (t :: a) a fun _ => True :=
  accepts_discard (accepts_expect kind)

theorem accepts_freshId : Accepts limited freshId a a fun _ => True :=
  fun _ tokens => ⟨tokens, trivial, fun clean => clean⟩

theorem accepts_reportLength (tooMany : ParseFault) {count : Nat}
    (short : limited = true → count < maxListLength) :
    Accepts limited (reportLength tooMany count) a a fun _ => True := by
  intro s tokens
  unfold reportLength
  split
  · rename_i full
    refine ⟨tokens, trivial, fun _ limit => ?_⟩
    have := short limit
    simp only [beq_iff_eq] at full
    omega
  · exact ⟨tokens, trivial, fun clean => clean⟩

theorem accepts_recovering {p : Parser α} (h : Accepts limited p b a P) :
    Accepts limited (recovering p) b a fun found => ∃ x, found = some x ∧ P x := by
  intro s tokens
  have run := h s tokens
  unfold Ends recovering at *
  generalize p s = result at *
  cases result with
  | ok x t => exact ⟨run.1, ⟨x, rfl, run.2.1⟩, run.2.2⟩
  | error e t => exact run.elim

theorem accepts_commaList_last {item : Parser α} (h : Accepts limited item b a P)
    (tooMany : ParseFault) (bound : Nat) {count : Nat}
    (short : limited = true → count < maxListLength)
    (last : startsWith (· == .comma) a = false) :
    Accepts limited (commaList tooMany item bound count) b a fun xs => ∃ x, xs = [x] ∧ P x := by
  cases bound with
  | zero =>
      rw [commaList_zero]
      apply (accepts_reportLength tooMany short).then
      intro _ _
      apply h.then
      intro x hx
      exact accepts_pure ⟨x, rfl, hx⟩
  | succ bound =>
      rw [commaList_succ]
      apply (accepts_reportLength tooMany short).then
      intro _ _
      apply h.then
      intro x hx
      apply (accepts_none last).then
      rintro found rfl
      exact accepts_pure ⟨x, rfl, hx⟩

theorem accepts_commaList_more {item : Parser α} {Q : List α → Prop}
    (h : Accepts limited item b (t :: c) P) (tooMany : ParseFault) {bound count : Nat}
    (short : limited = true → count < maxListLength) (comma : t.kind = .comma)
    (rest : Accepts limited (commaList tooMany item bound (count + 1)) c a Q) :
    Accepts limited (commaList tooMany item (bound + 1) count) b a
      fun xs => ∃ x xs', xs = x :: xs' ∧ P x ∧ Q xs' := by
  rw [commaList_succ]
  apply (accepts_reportLength tooMany short).then
  intro _ _
  apply h.then
  intro x hx
  apply (accepts_some (by simp [comma])).then
  rintro found rfl
  apply rest.then
  intro xs hxs
  exact accepts_pure ⟨x, xs, rfl, hx, hxs⟩

theorem Accepts.of_run {p q : Parser α} (h : Accepts limited q b a P)
    (same : ∀ s : State, s.tokens = b → p s = q s) : Accepts limited p b a P := by
  intro s tokens
  unfold Ends
  rw [same s tokens]
  exact h s tokens

theorem accepts_many_none {item : Parser α} {stops : TokenKind → Bool} (bound : Nat)
    (ends : endsList stops a = true) : Accepts limited (many stops item bound) a a (· = []) := by
  cases bound with
  | zero => exact accepts_pure rfl
  | succ bound =>
      have empty : Accepts limited (pure [] : Parser (List α)) a a (· = []) := accepts_pure rfl
      apply empty.of_run
      rintro s rfl
      rw [many_succ, if_pos ends]

theorem accepts_many_more {item : Parser α} {stops : TokenKind → Bool} {Q : List α → Prop}
    {bound : Nat} (goesOn : endsList stops b = false) (h : Accepts limited item b c P)
    (rest : Accepts limited (many stops item bound) c a Q) :
    Accepts limited (many stops item (bound + 1)) b a
      fun xs => ∃ x xs', xs = x :: xs' ∧ P x ∧ Q xs' := by
  apply Accepts.of_run (q := do return (← item) :: (← many stops item bound))
  · apply h.then
    intro x hx
    apply rest.then
    intro xs hxs
    exact accepts_pure ⟨x, xs, rfl, hx, hxs⟩
  · rintro s rfl
    rw [many_succ, goesOn]
    rfl

end ClassScript.Grammar
