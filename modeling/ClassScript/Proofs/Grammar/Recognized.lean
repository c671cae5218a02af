import ClassScript.Proofs.Grammar.EntryLists
import ClassScript.Proofs.Parser.Advances

namespace ClassScript.Grammar

open ClassScript.Parser

variable {α β : Type} {limited : Bool} {s t : State} {Q R : α → State → Prop}
  {D : List Token → List Token → α → Prop} {wanted : TokenKind → Bool} {tokens : List Token}

def Clean (limited : Bool) (s : State) : Prop := limited = true → s.recorded = []

/-- If the part ends in a clean state, it started in one, and its result satisfies `Q`. -/
def Recognizes (limited : Bool) (p : Parser α) (s : State) (Q : α → State → Prop) : Prop :=
  Ends p s (fun a t => t.stop = s.stop ∧ (Clean limited t → Clean limited s ∧ Q a t))
    fun _ t => t.stop = s.stop

/-- The tokens that a parser takes in front of what it leaves are related to its result. With
`limited`, this is said of states without faults: parsers go on behind a list that is too long and
behind a faulty declaration, but they record the fault. -/
def Sound (limited : Bool) (p : Parser α) (D : List Token → List Token → α → Prop) : Prop :=
  ∀ s, s.stop.kind = .eof → Recognizes limited p s fun a t => D s.tokens t.tokens a

theorem Recognizes.imp {p : Parser α} (h : Recognizes limited p s Q)
    (hQ : ∀ a t, Q a t → R a t) : Recognizes limited p s R := by
  apply Ends.imp h
  · intro a t ht
    exact ⟨ht.1, fun clean => ⟨(ht.2 clean).1, hQ a t (ht.2 clean).2⟩⟩
  · exact fun _ _ same => same

theorem Recognizes.then {p : Parser α} {q : α → Parser β} {R : β → State → Prop}
    (h : Recognizes limited p s Q)
    (next : ∀ a t, t.stop = s.stop → Recognizes limited (q a) t fun b u => Q a t → R b u) :
    Recognizes limited (p >>= q) s R := by
  apply ends_bind.mpr
  apply Ends.imp h
  · intro a t ht
    apply Ends.imp (next a t ht.1)
    · intro b u hu
      refine ⟨hu.1.trans ht.1, fun clean => ?_⟩
      obtain ⟨first, second⟩ := hu.2 clean
      exact ⟨(ht.2 first).1, second (ht.2 first).2⟩
    · exact fun _ _ same => same.trans ht.1
  · exact fun _ _ same => same

theorem recognizes_pure {a : α} (h : Q a s) : Recognizes limited (pure a) s Q :=
  ⟨rfl, fun clean => ⟨clean, h⟩⟩

theorem recognizes_throw (e : ParseError) : Recognizes limited (throw e : Parser α) s Q :=
  show s.stop = s.stop from rfl

theorem recognizes_map {p : Parser α} {f : α → β} {R : β → State → Prop}
    (h : Recognizes limited p s fun a t => R (f a) t) : Recognizes limited (f <$> p) s R :=
  ends_map.mpr h

theorem recognizes_discard {p : Parser α} {R : PUnit → State → Prop}
    (h : Recognizes limited p s fun _ t => R ⟨⟩ t) : Recognizes limited (discard p) s R :=
  ends_discard.mpr h

theorem Recognizes.of_run {p q : Parser α} (h : Recognizes limited q s Q) (same : p s = q s) :
    Recognizes limited p s Q := by
  unfold Recognizes Ends at *
  rw [same]
  exact h

theorem recognizes_peek : Recognizes limited peek s fun t u => t = s.front ∧ u = s :=
  ⟨rfl, fun clean => ⟨clean, rfl, rfl⟩⟩

theorem recognizes_noExpression : Recognizes limited (noExpression : Parser α) s Q := by
  apply recognizes_peek.then
  exact fun _ _ _ => recognizes_throw _

theorem recognizes_advance : Recognizes limited advance s fun _ u => u.tokens = s.tokens.tail :=
  ⟨rfl, fun clean => ⟨clean, rfl⟩⟩

theorem tokens_of_front (stop : s.stop.kind = .eof) (other : s.front.kind ≠ .eof) :
    s.tokens = s.front :: s.tokens.tail := by
  unfold State.front at *
  cases tokens : s.tokens with
  | nil =>
      rw [tokens] at other
      exact (other stop).elim
  | cons t rest => rfl

theorem recognizes_sees (kind : TokenKind) : Recognizes limited (sees kind) s fun seen u =>
    u.tokens = s.tokens ∧ seen = startsWith (· == kind) s.tokens :=
  ⟨rfl, fun clean => ⟨clean, rfl, rfl⟩⟩

theorem recognizes_accept? (wanted : TokenKind → Bool) :
    Recognizes limited (accept? wanted) s fun found u =>
      match found with
      | some t => s.tokens = t :: u.tokens ∧ wanted t.kind = true
      | none => u.tokens = s.tokens ∧ startsWith wanted s.tokens = false := by
  unfold Recognizes Ends accept?
  cases tokens : s.tokens with
  | nil => simp [tokens]
  | cons first rest =>
      dsimp only
      cases fits : wanted first.kind with
      | false => simp [tokens, fits]
      | true => simp [Clean, fits]

theorem sound_expect (what : Expectation) : Sound limited (expect what) fun b a t =>
    b = t :: a ∧ t.kind = what.kind := by
  intro s _
  apply (recognizes_accept? _).then
  intro found u _
  cases found with
  | none =>
      apply recognizes_peek.then
      exact fun _ _ _ => recognizes_throw _
  | some t =>
      apply recognizes_pure
      rintro ⟨tokens, fits⟩
      exact ⟨tokens, by simpa using fits⟩

theorem sound_skip (what : Expectation) : Sound limited (discard (expect what)) fun b a _ =>
    ∃ t : Token, b = t :: a ∧ t.kind = what.kind := by
  intro s hs
  apply recognizes_discard
  apply (sound_expect what s hs).imp
  exact fun t _ h => ⟨t, h⟩

theorem recognizes_freshId : Recognizes limited freshId s fun _ u => u.tokens = s.tokens :=
  ⟨rfl, fun clean => ⟨clean, rfl⟩⟩

theorem recognizes_reportLength (tooMany : ParseFault) (count : Nat) :
    Recognizes limited (reportLength tooMany count) s fun _ u =>
      u.tokens = s.tokens ∧ (limited = true → count ≠ maxListLength) := by
  unfold reportLength
  split
  · refine ⟨rfl, fun clean => ?_⟩
    have never : limited ≠ true := fun limit => by simpa using clean limit
    exact ⟨fun limit => (never limit).elim, rfl, fun limit => (never limit).elim⟩
  · rename_i ne
    exact ⟨rfl, fun clean => ⟨clean, rfl, fun _ => by simpa using ne⟩⟩

theorem sound_commaList {item : Parser α} (h : Sound limited item D) (tooMany : ParseFault)
    {L : List Token → List Token → List α → Prop} (last : ∀ {b a x}, D b a x → L b a [x])
    (more : ∀ {b comma c a x xs}, D b (comma :: c) x → comma.kind = .comma → L c a xs →
      L b a (x :: xs)) (bound count : Nat) :
    Sound limited (commaList tooMany item bound count) fun b a xs =>
      L b a xs ∧ (limited = true → count ≤ maxListLength → count + xs.length ≤ maxListLength) := by
  -- The item after the greatest number is reported, so that a clean end excludes it.
  induction bound generalizing count with
  | zero =>
      intro s stop
      rw [commaList_zero]
      apply (recognizes_reportLength _ _).then
      intro _ t ht
      apply (h t (ht ▸ stop)).then
      intro x u _
      apply recognizes_pure
      rintro derives ⟨same, fits⟩
      rw [same] at derives
      exact ⟨last derives, fun limit short => Nat.lt_of_le_of_ne short (fits limit)⟩
  | succ bound ih =>
      intro s stop
      rw [commaList_succ]
      apply (recognizes_reportLength _ _).then
      intro _ t ht
      apply (h t (ht ▸ stop)).then
      intro x u hu
      apply (recognizes_accept? _).then
      intro found v hv
      cases found with
      | none =>
          apply recognizes_pure
          rintro comma derives ⟨same, fits⟩
          rw [same, ← comma.1] at derives
          exact ⟨last derives, fun limit short => Nat.lt_of_le_of_ne short (fits limit)⟩
      | some comma =>
          apply (ih (count + 1) v (by rw [hv, hu, ht, stop])).then
          intro xs w _
          apply recognizes_pure
          rintro ⟨rest, shorter⟩ ⟨tokens, kind⟩ derives ⟨same, fits⟩
          rw [same, tokens] at derives
          refine ⟨more derives (by simpa using kind) rest, fun limit short => ?_⟩
          have := shorter limit (Nat.lt_of_le_of_ne short (fits limit))
          simp only [List.length_cons]
          omega

theorem sound_many {item : Parser α} (h : Sound limited item D)
    (shorter : ∀ {b a x}, D b a x → a.length < b.length) {stops : TokenKind → Bool}
    {L : List Token → List Token → List α → Prop} (none : ∀ {a}, L a a [])
    (more : ∀ {b c a x xs}, D b c x → L c a xs → L b a (x :: xs)) (bound : Nat) :
    Sound limited (many stops item bound) fun b a xs =>
      L b a xs ∧ (b.length ≤ bound → endsList stops a = true) := by
  induction bound with
  | zero =>
      intro s _
      apply recognizes_pure
      refine ⟨none, fun empty => ?_⟩
      rw [List.length_eq_zero_iff.mp (Nat.le_zero.mp empty)]
      rfl
  | succ bound ih =>
      intro s stop
      apply Recognizes.of_run _ (many_succ stops item bound s)
      split
      · rename_i ends
        exact recognizes_pure ⟨none, fun _ => ends⟩
      · apply (h s stop).then
        intro x t ht
        apply (ih t (ht ▸ stop)).then
        intro xs u _
        apply recognizes_pure
        rintro ⟨rest, ends⟩ derives
        refine ⟨more derives rest, fun short => ends ?_⟩
        have := shorter derives
        omega

theorem recognizes_recovering {p : Parser α} (h : Recognizes true p s Q) :
    Recognizes true (recovering p) s fun found t => ∃ a, found = some a ∧ Q a t := by
  unfold Recognizes Ends recovering at *
  cases run : p s with
  | ok a t =>
      rw [run] at h
      exact ⟨h.1, fun clean => ⟨(h.2 clean).1, a, rfl, (h.2 clean).2⟩⟩
  | error e t =>
      rw [run] at h
      refine ⟨h, fun clean => ?_⟩
      simp [Clean] at clean

end ClassScript.Grammar
