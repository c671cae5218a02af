import ClassScript.Parser.Statement
import ClassScript.Proofs.Ends
import ClassScript.Proofs.Token.Spelled

namespace ClassScript.Parser

structure State.Advances (s t : State) : Prop where
  tokens : t.tokens <:+ s.tokens
  stop : t.stop = s.stop
  nextId : s.nextId ≤ t.nextId
  recorded : s.recorded <+: t.recorded

variable {α β : Type} {s t u : State} {Q R : α → State → Prop}

theorem State.Advances.refl (s : State) : s.Advances s :=
  ⟨List.suffix_refl _, rfl, Nat.le_refl _, List.prefix_refl _⟩

theorem State.Advances.trans (hst : s.Advances t) (htu : t.Advances u) : s.Advances u where
  tokens := htu.tokens.trans hst.tokens
  stop := htu.stop.trans hst.stop
  nextId := Nat.le_trans hst.nextId htu.nextId
  recorded := hst.recorded.trans htu.recorded

def Proceeds (p : Parser α) (s : State) (Q : α → State → Prop) : Prop :=
  Ends p s (fun a t => s.Advances t ∧ Q a t) fun _ t => s.Advances t

theorem Proceeds.imp {p : Parser α} (h : Proceeds p s Q)
    (hQ : ∀ a t, s.Advances t → Q a t → R a t) :
    Proceeds p s R :=
  Ends.imp h (fun a t ht => ⟨ht.1, hQ a t ht.1 ht.2⟩) fun _ _ ht => ht

theorem Proceeds.then {p : Parser α} {q : α → Parser β} {R : β → State → Prop}
    (h : Proceeds p s Q) (next : ∀ a t, s.Advances t → Q a t → Proceeds (q a) t R) :
    Proceeds (p >>= q) s R := by
  refine ends_bind.mpr (Ends.imp h (fun a t ht => ?_) fun _ _ ht => ht)
  exact Ends.imp (next a t ht.1 ht.2) (fun _ _ hu => ⟨ht.1.trans hu.1, hu.2⟩)
    fun _ _ hu => ht.1.trans hu

theorem Proceeds.map {p : Parser α} {f : α → β} {R : β → State → Prop}
    (h : Proceeds p s fun a t => R (f a) t) : Proceeds (f <$> p) s R := ends_map.mpr h

theorem Proceeds.discard {p : Parser α} {R : PUnit → State → Prop}
    (h : Proceeds p s fun _ t => R ⟨⟩ t) : Proceeds (discard p) s R := ends_discard.mpr h

theorem proceeds_pure {a : α} (h : Q a s) : Proceeds (pure a) s Q := ⟨.refl s, h⟩

theorem proceeds_throw (e : ParseError) : Proceeds (throw e : Parser α) s Q := State.Advances.refl s

theorem start_stop (firstId : Nat) (tokens : List Token) :
    (State.start firstId tokens).stop.kind = .eof := by
  unfold State.start
  dsimp only
  cases found : tokens.find? (·.kind == .eof) with
  | none => rfl
  | some t => simpa using List.find?_some found

theorem proceeds_peek : Proceeds peek s fun t u => t = s.front ∧ u = s := ⟨.refl s, rfl, rfl⟩

theorem proceeds_sees (kind : TokenKind) : Proceeds (sees kind) s fun _ u => u = s := ⟨.refl s, rfl⟩

theorem proceeds_advance : Proceeds advance s fun _ u => u.nextId = s.nextId :=
  ⟨⟨List.tail_suffix _, rfl, Nat.le_refl _, List.prefix_refl _⟩, rfl⟩

theorem proceeds_accept? (wanted : TokenKind → Bool) : Proceeds (accept? wanted) s fun found u =>
    u.nextId = s.nextId ∧ ∀ t, found = some t → t ∈ s.tokens ∧ wanted t.kind = true := by
  unfold Proceeds Ends accept?
  cases tokens : s.tokens with
  | nil => exact ⟨.refl s, rfl, fun t eq => by cases eq⟩
  | cons first rest =>
      dsimp only
      cases fits : wanted first.kind with
      | false =>
          refine ⟨.refl s, rfl, fun t eq => ?_⟩
          cases eq
      | true =>
          refine ⟨⟨?_, rfl, Nat.le_refl _, List.prefix_refl _⟩, rfl, fun t eq => ?_⟩
          · rw [tokens]
            exact List.suffix_cons _ _
          · cases eq
            exact ⟨List.mem_cons_self, fits⟩

theorem proceeds_expect (what : Expectation) : Proceeds (expect what) s fun t u =>
    u.nextId = s.nextId ∧ t ∈ s.tokens ∧ t.kind = what.kind := by
  refine (proceeds_accept? _).then fun found u hu hfound => ?_
  cases found with
  | none => exact (proceeds_peek).then fun _ _ _ _ => proceeds_throw _
  | some t =>
      obtain ⟨mem, fits⟩ := hfound.2 t rfl
      exact proceeds_pure ⟨hfound.1, mem, by simpa using fits⟩

theorem proceeds_skip (what : Expectation) :
    Proceeds (discard (expect what)) s fun _ u => u.nextId = s.nextId := by
  have taken : Proceeds (expect what) s fun _ u => u.nextId = s.nextId :=
    (proceeds_expect what).imp fun _ _ _ ht => ht.1
  exact taken.discard

theorem proceeds_noExpression : Proceeds (noExpression : Parser α) s Q :=
  proceeds_peek.then fun _ _ _ _ => proceeds_throw _

theorem proceeds_freshId : Proceeds freshId s fun i u => i = s.nextId ∧ u.nextId = s.nextId + 1 :=
  ⟨⟨List.suffix_refl _, rfl, Nat.le_succ _, List.prefix_refl _⟩, rfl, rfl⟩

theorem proceeds_record (fault : ParseFault) : Proceeds (record fault) s fun _ u =>
    u.nextId = s.nextId :=
  ⟨⟨List.suffix_refl _, rfl, Nat.le_refl _, List.prefix_append _ _⟩, rfl⟩

theorem resumeAfter_suffix (skipped : Token) (tokens : List Token) :
    resumeAfter skipped tokens <:+ tokens := by
  induction tokens generalizing skipped with
  | nil => exact List.suffix_refl _
  | cons t rest ih =>
      unfold resumeAfter
      split
      · exact List.suffix_refl _
      · exact (ih t).trans (List.suffix_cons _ _)

theorem resume_suffix (tokens : List Token) : resume tokens <:+ tokens := by
  cases tokens with
  | nil => exact List.suffix_refl _
  | cons t rest => exact (resumeAfter_suffix t rest).trans (List.suffix_cons _ _)

theorem proceeds_recovering {p : Parser α} (h : Proceeds p s Q) :
    Proceeds (recovering p) s fun found t => ∀ a, found = some a → Q a t := by
  unfold Proceeds Ends recovering at *
  generalize p s = result at *
  cases result with
  | ok a t =>
      refine ⟨h.1, fun b eq => ?_⟩
      cases eq
      exact h.2
  | error e t =>
      refine ⟨⟨(resume_suffix _).trans h.tokens, h.stop, h.nextId, ?_⟩, fun b eq => ?_⟩
      · exact h.recorded.trans (List.prefix_append _ _)
      · cases eq

def reportLength (tooMany : ParseFault) (count : Nat) : Parser Unit :=
  if count == maxListLength then record tooMany else pure ()

theorem proceeds_reportLength (tooMany : ParseFault) (count : Nat) :
    Proceeds (reportLength tooMany count) s fun _ u => u.nextId = s.nextId := by
  unfold reportLength
  split
  · exact proceeds_record _
  · exact proceeds_pure rfl

theorem commaList_zero (tooMany : ParseFault) (item : Parser α) (count : Nat) :
    commaList tooMany item 0 count = do
      reportLength tooMany count
      let a ← item
      return [a] := by
  unfold commaList reportLength
  cases count == maxListLength <;> rfl

theorem commaList_succ (tooMany : ParseFault) (item : Parser α) (bound count : Nat) :
    commaList tooMany item (bound + 1) count = do
      reportLength tooMany count
      let a ← item
      match ← accept? (· == .comma) with
      | some _ => return a :: (← commaList tooMany item bound (count + 1))
      | none => return [a] := by
  rw [commaList]
  unfold reportLength
  cases count == maxListLength <;> rfl

def endsList (stops : TokenKind → Bool) (tokens : List Token) : Bool :=
  tokens.head?.all (stops ·.kind)

theorem many_succ (stops : TokenKind → Bool) (item : Parser α) (bound : Nat) (s : State) :
    many stops item (bound + 1) s =
      (if endsList stops s.tokens then pure []
        else do return (← item) :: (← many stops item bound) : Parser (List α)) s := by
  rw [many, endsList]
  dsimp only
  cases s.tokens with
  | nil => rfl
  | cons t rest =>
      by_cases h : stops t.kind = true
      · simp only [h, List.head?_cons, Option.all_some, if_true]
        rfl
      · simp [h]

theorem Proceeds.of_run {p q : Parser α} (h : Proceeds q s Q) (same : p s = q s) :
    Proceeds p s Q := by
  unfold Proceeds Ends at *
  rw [same]
  exact h

end ClassScript.Parser
