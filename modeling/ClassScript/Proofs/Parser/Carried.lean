import ClassScript.Proofs.Grammar.EntryLists
import ClassScript.Proofs.Parser.Advances
import ClassScript.Proofs.Parser.Shifted

/-!
# Parsers in other surroundings

More tokens may stand behind the input of a parser, faults may be recorded before it starts, and its
first identity may be greater. As long as it does not look at what stands behind its own input, it
does in such surroundings what it does without them. `Carries` states this for one run of a parser
`p`, with a parser `p'` in the surroundings that may have other bounds, together with the kinds of
tokens that the run takes.
-/

namespace ClassScript.Parser

open Grammar

structure Surroundings where
  ids : Nat
  faults : List ParseError
  behind : List Token
  stop : Token
  eof : stop.kind = .eof

def Surroundings.place (w : Surroundings) (s : State) : State where
  tokens := s.tokens ++ w.behind
  stop := w.stop
  nextId := s.nextId + w.ids
  recorded := w.faults ++ s.recorded

def Surroundings.Hidden (w : Surroundings) (s : State) : Prop :=
  s.tokens ≠ [] ∨ w.behind = [] ∧ w.stop = s.stop

variable {α β γ δ : Type} {w : Surroundings} {only : TokenKind → Bool} {s t u : State}

theorem Surroundings.Hidden.before (h : w.Hidden t) (hst : s.Advances t) : w.Hidden s := by
  rcases h with some | ⟨none, same⟩
  · left
    intro empty
    have suffix := hst.tokens
    rw [empty, List.suffix_nil] at suffix
    exact some suffix
  · exact .inr ⟨none, same.trans hst.stop⟩

theorem Surroundings.Hidden.front (h : w.Hidden s) : (w.place s).front = s.front := by
  unfold State.front place
  rcases h with some | ⟨none, same⟩
  · cases tokens : s.tokens with
    | nil => exact absurd tokens some
    | cons t rest => rfl
  · simp [none, same]

theorem Surroundings.Hidden.nothing (h : w.Hidden s) (tokens : s.tokens = []) :
    (w.place s).tokens = [] := by
  rcases h with some | ⟨none, -⟩
  · exact absurd tokens some
  · simp [place, tokens, none]

/-! ## Tokens that a run takes -/

structure State.Takes (only : TokenKind → Bool) (s t : State) : Prop extends s.Advances t where
  kinds : ∀ taken, s.tokens = taken ++ t.tokens → ∀ x ∈ taken, only x.kind = true

theorem State.Takes.of_same (h : s.Advances t) (same : t.tokens = s.tokens) : s.Takes only t where
  toAdvances := h
  kinds taken eq := by
    rw [same, List.self_eq_append_left] at eq
    simp [eq]

theorem State.Takes.refl (s : State) : s.Takes only s := .of_same (.refl s) rfl

theorem State.Takes.trans (hst : s.Takes only t) (htu : t.Takes only u) : s.Takes only u where
  toAdvances := hst.toAdvances.trans htu.toAdvances
  kinds taken eq := by
    obtain ⟨first, hfirst⟩ := hst.tokens
    obtain ⟨second, hsecond⟩ := htu.tokens
    have split : taken = first ++ second := by
      rw [← hfirst, ← hsecond, ← List.append_assoc, List.append_cancel_right_eq] at eq
      exact eq.symm
    subst split
    intro x mem
    rcases List.mem_append.mp mem with mem | mem
    · exact hst.kinds first hfirst.symm x mem
    · exact htu.kinds second hsecond.symm x mem

theorem State.Takes.loosen {only' : TokenKind → Bool} (h : s.Takes only t)
    (more : ∀ k, only k = true → only' k = true) : s.Takes only' t :=
  ⟨h.toAdvances, fun taken eq x mem => more _ (h.kinds taken eq x mem)⟩

theorem State.Takes.length_le (h : s.Takes only t) : t.tokens.length ≤ s.tokens.length :=
  h.tokens.length_le

theorem takes_one {token : Token} {rest : List Token} (tokens : s.tokens = token :: rest)
    (kind : only token.kind = true) : s.Takes only { s with tokens := rest } where
  tokens := ⟨[token], tokens.symm⟩
  stop := rfl
  nextId := Nat.le_refl _
  recorded := List.prefix_refl _
  kinds taken eq := by
    rw [tokens, ← List.singleton_append, List.append_cancel_right_eq] at eq
    intro x mem
    rw [← eq, List.mem_singleton] at mem
    rw [mem, kind]

/-! ## What is carried over -/

structure Mode where
  /-- It takes a token. -/
  fewer : Bool
  /-- It never looks at what stands behind the tokens it takes. -/
  closed : Bool

def Mode.gives (m n : Mode) : Bool := (!n.fewer || m.fewer) && (!n.closed || m.closed)

def Mode.then (m n : Mode) : Mode := ⟨m.fewer || n.fewer, n.closed && (m.closed || n.fewer)⟩

/-- The surroundings change nothing but what they add to the states and to the result. -/
def Carries (w : Surroundings) (only : TokenKind → Bool) (m : Mode) (f : α → β) (p : Parser α)
    (p' : Parser β) (s : State) : Prop :=
  Ends p s
    (fun a t => s.Takes only t ∧ (m.fewer = true → t.tokens.length < s.tokens.length) ∧
      (m.closed = true ∨ w.Hidden t → p' (w.place s) = .ok (f a) (w.place t)))
    fun e t => s.Takes only t ∧ (w.Hidden t → p' (w.place s) = .error e (w.place t))

variable {m n : Mode} {f : α → β} {g : γ → δ} {p : Parser α} {p' : Parser β} {q : α → Parser γ}
  {q' : β → Parser δ}

theorem Carries.at (h : Carries w only m f p p' s) (gives : m.gives n = true) :
    Carries w only n f p p' s := by
  simp only [Mode.gives, Bool.and_eq_true, Bool.or_eq_true, Bool.not_eq_true'] at gives
  apply Ends.imp h
  · rintro a t ⟨takes, fewer, run⟩
    refine ⟨takes, fun wanted => fewer ?_, fun shown => run ?_⟩
    · simpa [wanted] using gives.1
    · rcases shown with closed | hidden
      · exact .inl (by simpa [closed] using gives.2)
      · exact .inr hidden
  · exact fun _ _ h => h

theorem Carries.loosen {only' : TokenKind → Bool} (h : Carries w only m f p p' s)
    (more : ∀ k, only k = true → only' k = true) : Carries w only' m f p p' s := by
  apply Ends.imp h
  · exact fun a t h => ⟨h.1.loosen more, h.2⟩
  · exact fun e t h => ⟨h.1.loosen more, h.2⟩

theorem Carries.then (h : Carries w only m f p p' s)
    (next : ∀ a t, s.Takes only t → (m.fewer = true → t.tokens.length < s.tokens.length) →
      Carries w only n g (q a) (q' (f a)) t) :
    Carries w only (m.then n) g (p >>= q) (p' >>= q') s := by
  apply ends_bind.mpr
  apply Ends.imp h
  · rintro a t ⟨hst, fewer, run⟩
    apply Ends.imp (next a t hst fewer)
    · rintro b u ⟨htu, fewer', run'⟩
      have notMore := hst.length_le
      have notMore' := htu.length_le
      refine ⟨hst.trans htu, fun wanted => ?_, fun shown => ?_⟩
      · rcases Bool.or_eq_true_iff.mp wanted with first | second
        · exact Nat.lt_of_le_of_lt notMore' (fewer first)
        · exact Nat.lt_of_lt_of_le (fewer' second) notMore
      · -- The first part has not seen the surroundings: it is closed, or a token was left for the
        -- second part to take.
        have first : m.closed = true ∨ w.Hidden t := by
          rcases shown with closed | hidden
          · rcases Bool.or_eq_true_iff.mp (Bool.and_eq_true_iff.mp closed).2 with closed | more
            · exact .inl closed
            · right
              left
              exact List.ne_nil_of_length_pos (Nat.zero_lt_of_lt (fewer' more))
          · exact .inr (hidden.before htu.toAdvances)
        have second : n.closed = true ∨ w.Hidden u :=
          shown.imp (fun closed => (Bool.and_eq_true_iff.mp closed).1) id
        rw [bind_ok (run first), run' second]
    · rintro e u ⟨htu, run'⟩
      refine ⟨hst.trans htu, fun hidden => ?_⟩
      rw [bind_ok (run (.inr (hidden.before htu.toAdvances))), run' hidden]
  · rintro e t ⟨hst, run⟩
    exact ⟨hst, fun hidden => bind_error (run hidden)⟩

theorem carries_pure (a : α) : Carries w only ⟨false, true⟩ f (pure a) (pure (f a)) s :=
  ⟨.refl s, nofun, fun _ => rfl⟩

theorem carries_return {a : α} {b : β} (eq : b = f a) :
    Carries w only ⟨false, true⟩ f (pure a) (pure b) s := by
  rw [eq]
  exact carries_pure a

theorem carries_throw (e : ParseError) :
    Carries w only ⟨true, true⟩ f (throw e) (throw e) s := ⟨.refl s, fun _ => rfl⟩

theorem Carries.map {h : α → γ} {h' : β → δ} (carries : Carries w only m f p p' s)
    (commutes : ∀ a, h' (f a) = g (h a)) : Carries w only m g (h <$> p) (h' <$> p') s := by
  apply ends_map.mpr
  apply Ends.imp carries
  · rintro a t ⟨takes, fewer, run⟩
    refine ⟨takes, fewer, fun shown => ?_⟩
    simp only [Functor.map, EStateM.map, run shown, commutes]
  · rintro e t ⟨takes, run⟩
    refine ⟨takes, fun hidden => ?_⟩
    simp only [Functor.map, EStateM.map, run hidden]

theorem Carries.discard (h : Carries w only m f p p' s) :
    Carries w only m id (discard p) (discard p') s := h.map fun _ => rfl

theorem Carries.of_runs {r : Parser α} {r' : Parser β} (h : Carries w only m f p p' s)
    (same : r s = p s) (same' : r' (w.place s) = p' (w.place s)) :
    Carries w only m f r r' s := by
  unfold Carries Ends at *
  rw [same, same']
  exact h

/-! ## Single steps -/

theorem carries_done {a : α} (run : p s = .ok a s)
    (run' : w.Hidden s → p' (w.place s) = .ok (f a) (w.place s)) :
    Carries w only ⟨false, false⟩ f p p' s := by
  unfold Carries Ends
  rw [run]
  exact ⟨.refl s, nofun, fun shown => run' (shown.resolve_left nofun)⟩

theorem carries_complain (fault : Token → ParseError) :
    Carries w only ⟨true, true⟩ f (do throw (fault (← peek))) (do throw (fault (← peek))) s := by
  refine ⟨.refl s, fun hidden => ?_⟩
  have run (s : State) : (do throw (fault (← peek)) : Parser β) s = .error (fault s.front) s := rfl
  rw [run, hidden.front]

theorem carries_noExpression : Carries w only ⟨true, true⟩ f noExpression noExpression s :=
  carries_complain fun t => ⟨.expectedExpression t.lexeme, t.line⟩

theorem carries_freshId : Carries w only ⟨false, true⟩ (· + w.ids) freshId freshId s := by
  refine ⟨.of_same ⟨List.suffix_refl _, rfl, Nat.le_succ _, List.prefix_refl _⟩ rfl, nofun,
    fun _ => ?_⟩
  simp only [freshId, Surroundings.place, Nat.add_right_comm]

theorem carries_record (fault : ParseFault) :
    Carries w only ⟨false, false⟩ id (record fault) (record fault) s := by
  refine ⟨.of_same ⟨List.suffix_refl _, rfl, Nat.le_refl _, List.prefix_append _ _⟩ rfl, nofun,
    fun shown => ?_⟩
  have hidden : w.Hidden s := (shown.resolve_left nofun : w.Hidden _)
  have front := hidden.front
  simp only [record, front]
  simp only [Surroundings.place, List.append_assoc, id]

theorem carries_reportLength (tooMany : ParseFault) (count : Nat) :
    Carries w only ⟨false, false⟩ id (reportLength tooMany count) (reportLength tooMany count) s := by
  unfold reportLength
  split
  · exact carries_record tooMany
  · exact (carries_pure ()).at rfl

section

variable {wanted : TokenKind → Bool} {token : Token} {rest : List Token}

theorem carries_advance (tokens : s.tokens = token :: rest) (kind : only token.kind = true) :
    Carries w only ⟨true, true⟩ id advance advance s := by
  have run : advance s = .ok () { s with tokens := rest } := by simp [advance, tokens]
  have run' : advance (w.place s) = .ok () (w.place { s with tokens := rest }) := by
    simp [advance, Surroundings.place, tokens]
  refine (ends_ok_iff run).mpr ⟨takes_one tokens kind, fun _ => ?_, fun _ => run'⟩
  simp [tokens]

theorem Carries.after {r : Parser γ} {r' : Parser δ} {q : γ → Parser α} {q' : δ → Parser β} {a : γ}
    {b : δ} (run : r s = .ok a t) (takes : s.Takes only t) (h : Carries w only m f (q a) (q' b) t)
    (fewer : n.fewer = true → m.fewer = true ∨ t.tokens.length < s.tokens.length)
    (closed : n.closed = true → m.closed = true)
    (run' : ∀ u, t.Takes only u →
      n.closed = true ∧ (m.fewer = true → u.tokens.length < t.tokens.length) ∨ w.Hidden u →
        r' (w.place s) = .ok b (w.place t)) :
    Carries w only n f (r >>= q) (r' >>= q') s := by
  apply ends_bind.mpr
  apply (ends_ok_iff run).mpr
  have notMore := takes.length_le
  apply Ends.imp h
  · rintro c u ⟨takes', fewer', carried⟩
    have notMore' := takes'.length_le
    refine ⟨takes.trans takes', fun wanted => ?_, fun shown => ?_⟩
    · rcases fewer wanted with more | more
      · exact Nat.lt_of_lt_of_le (fewer' more) notMore
      · exact Nat.lt_of_le_of_lt notMore' more
    · rw [bind_ok (run' u takes' (shown.imp (fun closed => ⟨closed, fewer'⟩) id))]
      exact carried (shown.imp closed id)
  · rintro e u ⟨takes', carried⟩
    refine ⟨takes.trans takes', fun hidden => ?_⟩
    rw [bind_ok (run' u takes' (.inr hidden))]
    exact carried hidden

theorem unseen (tokens : s.tokens = []) (takes : s.Takes only u)
    (shown : (n.fewer = true ∨ startsWith wanted w.behind = false) ∧
      (n.fewer = true → u.tokens.length < s.tokens.length) ∨ w.Hidden u) :
    startsWith wanted w.behind = false := by
  rcases shown with ⟨more | other, fewer⟩ | hidden
  · have impossible := fewer more
    simp [tokens] at impossible
  · exact other
  · rcases hidden.before takes.toAdvances with some | none
    · exact absurd tokens some
    · rw [none.1]
      rfl

theorem carries_accept? {q : Option Token → Parser α} {q' : Option Token → Parser β}
    (kinds : ∀ k, wanted k = true → only k = true)
    (found : ∀ token rest, s.tokens = token :: rest → wanted token.kind = true →
      Carries w only m f (q (some token)) (q' (some token)) { s with tokens := rest })
    (missed : startsWith wanted s.tokens = false → Carries w only n f (q none) (q' none) s)
    (apart : n.closed = true → n.fewer = true ∨ startsWith wanted w.behind = false) :
    Carries w only ⟨n.fewer, m.closed && n.closed⟩ f (accept? wanted >>= q)
      (accept? wanted >>= q') s := by
  have closes (closed : (m.closed && n.closed) = true) : m.closed = true ∧ n.closed = true :=
    Bool.and_eq_true_iff.mp closed
  cases tokens : s.tokens with
  | nil =>
      have missing : startsWith wanted s.tokens = false := by rw [tokens]; rfl
      have run' (other : startsWith wanted w.behind = false) :
          accept? wanted (w.place s) = .ok none (w.place s) := by
        apply accept?_missed
        rw [Surroundings.place, tokens]
        exact other
      exact (missed missing).after (accept?_missed missing) (.refl s) .inl
        (fun closed => (closes closed).2) fun u takes shown => run' (unseen tokens takes
          (shown.imp (fun closed => ⟨apart (closes closed.1).2, closed.2⟩) id))
  | cons token rest =>
      have placed : (w.place s).tokens = token :: (rest ++ w.behind) := by
        rw [Surroundings.place, tokens]
        rfl
      cases fits : wanted token.kind with
      | true =>
          have run' : accept? wanted (w.place s) =
              .ok (some token) (w.place { s with tokens := rest }) := accept?_found placed fits
          exact (found token rest tokens fits).after (accept?_found tokens fits)
            (takes_one tokens (kinds _ fits)) (fun _ => .inr (by simp [tokens]))
            (fun closed => (closes closed).1) fun _ _ _ => run'
      | false =>
          have other : startsWith wanted s.tokens = false := by rw [tokens, startsWith_cons, fits]
          have run' : accept? wanted (w.place s) = .ok none (w.place s) := by
            apply accept?_missed
            rw [placed, startsWith_cons, fits]
          exact (missed other).after (accept?_missed other) (.refl s) .inl
            (fun closed => (closes closed).2) fun _ _ _ => run'

theorem carries_expect (what : Expectation) (kind : only what.kind = true) :
    Carries w only ⟨true, true⟩ id (expect what) (expect what) s := by
  apply Carries.at
  · apply carries_accept?
    · intro k wanted
      rw [beq_iff_eq.mp wanted, kind]
    · exact fun token rest _ _ => carries_pure token
    · exact fun _ => carries_complain fun t => ⟨.expected what, t.line⟩
    · exact fun _ => .inl rfl
  · rfl

theorem carries_skip (what : Expectation) (kind : only what.kind = true) :
    Carries w only ⟨true, true⟩ id (discard (expect what)) (discard (expect what)) s :=
  (carries_expect what kind).discard

theorem carries_sees {kind : TokenKind} {q : Bool → Parser α} {q' : Bool → Parser β}
    (yes : startsWith (· == kind) s.tokens = true → Carries w only m f (q true) (q' true) s)
    (no : startsWith (· == kind) s.tokens = false → Carries w only n f (q false) (q' false) s)
    (apart : n.closed = true → n.fewer = true) :
    Carries w only ⟨m.fewer && n.fewer, m.closed && n.closed⟩ f (sees kind >>= q)
      (sees kind >>= q') s := by
  have both {x y : Bool} (h : (x && y) = true) : x = true ∧ y = true := Bool.and_eq_true_iff.mp h
  cases tokens : s.tokens with
  | nil =>
      have run : sees kind s = .ok false s := by simp [sees, tokens]
      have run' (other : startsWith (· == kind) w.behind = false) :
          sees kind (w.place s) = .ok false (w.place s) := by
        simp only [sees, Surroundings.place, tokens, List.nil_append]
        exact congrArg (EStateM.Result.ok · _) other
      exact (no (by rw [tokens]; rfl)).after run (.refl s) (fun fewer => .inl (both fewer).2)
        (fun closed => (both closed).2) fun u takes shown => run' (unseen tokens takes
          (shown.imp (fun closed => ⟨.inl (apart (both closed.1).2), closed.2⟩) id))
  | cons token rest =>
      have run : sees kind s = .ok (token.kind == kind) s := by simp [sees, tokens]
      have run' : sees kind (w.place s) = .ok (token.kind == kind) (w.place s) := by
        simp [sees, Surroundings.place, tokens]
      cases fits : token.kind == kind with
      | true =>
          rw [fits] at run run'
          exact (yes (by rw [tokens, startsWith_cons, fits])).after run (.refl s)
            (fun fewer => .inl (both fewer).1) (fun closed => (both closed).1) fun _ _ _ => run'
      | false =>
          rw [fits] at run run'
          exact (no (by rw [tokens, startsWith_cons, fits])).after run (.refl s)
            (fun fewer => .inl (both fewer).2) (fun closed => (both closed).2) fun _ _ _ => run'

end

/-! ## The end of the input -/

def Stuck (p : Parser α) : Prop :=
  ∀ s, s.tokens = [] → s.stop.kind = .eof → p s = noExpression s

theorem stuck_noExpression : Stuck (noExpression : Parser α) := fun _ _ _ => rfl

theorem Stuck.then {p : Parser α} (h : Stuck p) (q : α → Parser γ) : Stuck (p >>= q) := by
  exact fun s tokens stop => bind_error (h s tokens stop)

theorem accept?_end (wanted : TokenKind → Bool) (tokens : s.tokens = []) :
    accept? wanted s = .ok none s := accept?_missed (by rw [tokens]; rfl)

theorem Stuck.missed {q : Option Token → Parser α} (h : Stuck (q none))
    (wanted : TokenKind → Bool) : Stuck (accept? wanted >>= q) := by
  intro s tokens stop
  rw [bind_ok (accept?_end wanted tokens), h s tokens stop]

theorem carries_stuck (h : Stuck p) (h' : Stuck p') (tokens : s.tokens = [])
    (stop : s.stop.kind = .eof) : Carries w only m f p p' s := by
  have run := h s tokens stop
  unfold Carries Ends
  rw [run]
  refine ⟨.refl s, fun hidden => ?_⟩
  rw [h' (w.place s) (hidden.nothing tokens) w.eof]
  have run (s : State) : (noExpression : Parser β) s =
      .error ⟨.expectedExpression s.front.lexeme, s.front.line⟩ s := rfl
  rw [run, hidden.front]

/-! ## Lists -/

structure Surroundings.Fits (w : Surroundings) (bound bound' : Nat) (s : State) : Prop where
  alone : s.tokens.length ≤ bound
  placed : s.tokens.length + w.behind.length ≤ bound'

theorem Surroundings.Fits.le {bound bound' : Nat} (h : w.Fits bound bound' s)
    (le : t.tokens.length ≤ s.tokens.length) : w.Fits bound bound' t where
  alone := Nat.le_trans le h.alone
  placed := Nat.le_trans (Nat.add_le_add_right le _) h.placed

theorem Surroundings.Fits.takes {bound bound' : Nat} (h : w.Fits bound bound' s)
    (hst : s.Takes only t) : w.Fits bound bound' t := h.le hst.length_le

theorem Surroundings.Fits.empty {bound' : Nat} (h : w.Fits 0 bound' s) : s.tokens = [] :=
  List.eq_nil_of_length_eq_zero (Nat.le_zero.mp h.alone)

theorem Surroundings.Fits.empty' {bound : Nat} (h : w.Fits bound 0 s) : s.tokens = [] :=
  List.eq_nil_of_length_eq_zero (Nat.eq_zero_of_add_eq_zero_right (Nat.le_zero.mp h.placed))

theorem Surroundings.Fits.fewer {bound bound' : Nat} (h : w.Fits (bound + 1) (bound' + 1) s)
    (fewer : t.tokens.length < s.tokens.length) : w.Fits bound bound' t where
  alone := by
    have := h.alone
    omega
  placed := by
    have := h.placed
    omega

def nowhere (s : State) (stop : s.stop.kind = .eof) : Surroundings := ⟨0, [], [], s.stop, stop⟩

section

variable {stop : s.stop.kind = .eof}

theorem nowhere_place (same : t.stop = s.stop) : (nowhere s stop).place t = t := by
  simp [nowhere, Surroundings.place, ← same]

theorem nowhere_hidden (same : t.stop = s.stop) : (nowhere s stop).Hidden t :=
  .inr ⟨rfl, same.symm⟩

theorem nowhere_fits {bound bound' : Nat} (enough : t.tokens.length ≤ bound)
    (enough' : t.tokens.length ≤ bound') : (nowhere s stop).Fits bound bound' t :=
  ⟨enough, enough'⟩

end

variable {item : Parser α} {item' : Parser β}

def commaRest (tooMany : ParseFault) (item : Parser α) (bound count : Nat) (a : α) :
    Parser (List α) :=
  match bound with
  | 0 => return [a]
  | bound + 1 => do
    match ← accept? (· == .comma) with
    | some _ => return a :: (← commaList tooMany item bound (count + 1))
    | none => return [a]

theorem commaList_eq (tooMany : ParseFault) (item : Parser α) (bound count : Nat) :
    commaList tooMany item bound count = (do
      reportLength tooMany count
      commaRest tooMany item bound count (← item)) := by
  cases bound with
  | zero => rw [commaList_zero]; rfl
  | succ bound => rw [commaList_succ]; rfl

theorem carries_commaItem (tooMany : ParseFault) (k k' count : Nat)
    (h : ∀ t, s.Takes only t → Carries w only ⟨true, false⟩ f item item' t)
    (rest : ∀ a t, s.Takes only t → t.tokens.length < s.tokens.length →
      Carries w only ⟨false, false⟩ (List.map f) (commaRest tooMany item k count a)
        (commaRest tooMany item' k' count (f a)) t) :
    Carries w only ⟨true, false⟩ (List.map f) (commaList tooMany item k count)
      (commaList tooMany item' k' count) s := by
  rw [commaList_eq, commaList_eq]
  apply Carries.at
  · apply (carries_reportLength tooMany count).then
    intro _ t hst _
    apply (h t hst).then
    intro a u htu fewer
    exact rest a u (hst.trans htu) (Nat.lt_of_lt_of_le (fewer rfl) hst.length_le)
  · rfl

theorem carries_commaRest (comma : only .comma = true) (tooMany : ParseFault) (k k' count : Nat)
    (a : α) (h : ∀ t, s.Takes only t → t.tokens.length < s.tokens.length →
      Carries w only ⟨true, false⟩ (List.map f) (commaList tooMany item k (count + 1))
        (commaList tooMany item' k' (count + 1)) t) :
    Carries w only ⟨false, false⟩ (List.map f) (commaRest tooMany item (k + 1) count a)
      (commaRest tooMany item' (k' + 1) count (f a)) s := by
  apply Carries.at
  · apply carries_accept?
    · intro kind wanted
      rw [beq_iff_eq.mp wanted, comma]
    · intro token rest tokens wanted
      apply (h _ (takes_one tokens (by rw [beq_iff_eq.mp wanted, comma])) (by simp [tokens])).then
      exact fun as _ _ _ => carries_pure (a :: as)
    · exact fun _ => (carries_pure [a]).at (n := ⟨false, false⟩) rfl
    · exact nofun
  · rfl

theorem carries_commaList (comma : only .comma = true) (tooMany : ParseFault) {n : Nat}
    (h : ∀ s, s.stop.kind = .eof → s.tokens.length < n →
      Carries w only ⟨true, false⟩ f item item' s) (k k' count : Nat) {s : State}
    (stop : s.stop.kind = .eof) (short : s.tokens.length < n) (fits : w.Fits k k' s) :
    Carries w only ⟨true, false⟩ (List.map f) (commaList tooMany item k count)
      (commaList tooMany item' k' count) s := by
  have item (t : State) (hst : s.Takes only t) : Carries w only ⟨true, false⟩ f item item' t :=
    h t (hst.stop ▸ stop) (Nat.lt_of_le_of_lt hst.length_le short)
  induction k generalizing k' count s with
  | zero =>
      apply carries_commaItem tooMany 0 k' count item
      intro a t _ fewer
      have := fits.alone
      omega
  | succ k ih =>
      apply carries_commaItem tooMany (k + 1) k' count item
      intro a t hst fewer
      have placed := fits.placed
      obtain ⟨k', rfl⟩ := Nat.exists_eq_add_one.mpr (show 0 < k' by omega)
      apply carries_commaRest comma tooMany k k' count a
      intro u htu fewer'
      have hsu := hst.trans htu
      have fewer'' := Nat.lt_trans fewer' fewer
      exact ih k' (count + 1) (hsu.stop ▸ stop) (Nat.lt_trans fewer'' short) (fits.fewer fewer'')
        fun v huv => item v (hsu.trans huv)

theorem many_end (stops : TokenKind → Bool) (item : Parser α) (bound : Nat) (tokens : s.tokens = []) :
    many stops item bound s = .ok [] s := by
  cases bound with
  | zero => rfl
  | succ bound => rw [many_succ, tokens]; rfl

theorem carries_many_end (stops : TokenKind → Bool) (k k' : Nat) (tokens : s.tokens = []) :
    Carries w only ⟨false, false⟩ (List.map f) (many stops item k) (many stops item' k') s := by
  apply carries_done (many_end stops item k tokens)
  intro hidden
  exact many_end stops item' k' (hidden.nothing tokens)

theorem carries_many {n : Nat} (stops : TokenKind → Bool)
    (h : ∀ s, s.stop.kind = .eof → s.tokens.length ≤ n → s.tokens ≠ [] →
      Carries w only ⟨true, false⟩ f item item' s) (k k' : Nat) {s : State}
    (stop : s.stop.kind = .eof) (short : s.tokens.length ≤ n) (fits : w.Fits k k' s) :
    Carries w only ⟨false, false⟩ (List.map f) (many stops item k) (many stops item' k') s := by
  induction k generalizing k' s with
  | zero =>
      exact carries_many_end stops 0 k' fits.empty
  | succ k ih =>
      cases tokens : s.tokens with
      | nil => exact carries_many_end stops (k + 1) k' tokens
      | cons token rest =>
          have placed := fits.placed
          rw [tokens, List.length_cons] at placed
          obtain ⟨k', rfl⟩ := Nat.exists_eq_add_one.mpr (show 0 < k' by omega)
          have ends : endsList stops s.tokens = stops token.kind := by rw [tokens]; rfl
          have ends' : endsList stops (w.place s).tokens = stops token.kind := by
            simp only [Surroundings.place, tokens]
            rfl
          refine Carries.of_runs ?_ (many_succ stops item k s) (many_succ stops item' k' (w.place s))
          rw [ends, ends']
          split
          · exact (carries_pure []).at rfl
          · apply Carries.at
            · apply (h s stop short (by simp [tokens])).then
              intro a t hst fewer
              apply (ih k' (hst.stop ▸ stop) (Nat.le_trans hst.length_le short)
                (fits.fewer (fewer rfl))).then
              exact fun as _ _ _ => carries_pure (a :: as)
            · rfl

end ClassScript.Parser
