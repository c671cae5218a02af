import ClassScript.Proofs.Grammar.CompleteExpressions
import ClassScript.Proofs.Parser.CarriedExpressions

namespace ClassScript.Parser

open Grammar

variable {lists lists' : List EntryList} {b c a b' : List Token} {faults faults' : List ParseError}

/-- The list is too long in an earlier place. -/
def EarlierExcess (l l' : EntryList) : Prop := l'.excess.length < l.excess.length

/-- The reports on the long ones among these lists, in the order of the places where the first entry
starts that is one too many, which are in the tokens of `b` up to `a`. -/
structure FaultsOf (lists : List EntryList) (b a : List Token) (faults : List ParseError) :
    Prop where
  suffix : a <:+ b
  ordered : ∃ order : List EntryList, order.Perm (lists.filter EntryList.isLong) ∧
    order.Pairwise EarlierExcess ∧
    (∀ l ∈ order, l.excess <:+ b ∧ a.length < l.excess.length) ∧
    faults = order.map EntryList.report

theorem faultsOf_short (suffix : a <:+ b) (short : ∀ l ∈ lists, l.isLong = false) :
    FaultsOf lists b a [] where
  suffix := suffix
  ordered := by
    have none : lists.filter EntryList.isLong = [] := by
      rw [List.filter_eq_nil_iff]
      intro l mem
      rw [short l mem]
      exact Bool.false_ne_true
    exact ⟨[], by rw [none], .nil, nofun, rfl⟩

theorem faultsOf_nil (suffix : a <:+ b) : FaultsOf [] b a [] := faultsOf_short suffix nofun

theorem faultsOf_one {l : EntryList} (long : l.isLong = true) (suffix : a <:+ b)
    (inside : l.excess <:+ b) (before : a.length < l.excess.length) :
    FaultsOf [l] b a [l.report] where
  suffix := suffix
  ordered := by
    refine ⟨[l], ?_, List.pairwise_singleton _ _, ?_, rfl⟩
    · rw [List.filter_cons_of_pos long, List.filter_nil]
    · simp only [List.forall_mem_singleton]
      exact ⟨inside, before⟩

theorem FaultsOf.append (h : FaultsOf lists b c faults) (h' : FaultsOf lists' c a faults') :
    FaultsOf (lists ++ lists') b a (faults ++ faults') where
  suffix := h'.suffix.trans h.suffix
  ordered := by
    obtain ⟨order, perm, sorted, places, rfl⟩ := h.ordered
    obtain ⟨order', perm', sorted', places', rfl⟩ := h'.ordered
    refine ⟨order ++ order', ?_, ?_, ?_, by rw [List.map_append]⟩
    · rw [List.filter_append]
      exact perm.append perm'
    · refine List.pairwise_append.mpr ⟨sorted, sorted', fun l mem l' mem' => ?_⟩
      exact Nat.lt_of_le_of_lt (places' l' mem').1.length_le (places l mem).2
    · intro l mem
      rcases List.mem_append.mp mem with mem | mem
      · exact ⟨(places l mem).1, Nat.lt_of_le_of_lt h'.suffix.length_le (places l mem).2⟩
      · exact ⟨(places' l mem).1.trans h.suffix, (places' l mem).2⟩

theorem FaultsOf.perm (h : FaultsOf lists b a faults) (perm : lists.Perm lists') :
    FaultsOf lists' b a faults where
  suffix := h.suffix
  ordered := by
    obtain ⟨order, same, rest⟩ := h.ordered
    exact ⟨order, same.trans (perm.filter _), rest⟩

theorem FaultsOf.widen (h : FaultsOf lists b a faults) (suffix : b <:+ b') :
    FaultsOf lists b' a faults where
  suffix := h.suffix.trans suffix
  ordered := by
    obtain ⟨order, perm, sorted, places, eq⟩ := h.ordered
    exact ⟨order, perm, sorted, fun l mem => ⟨(places l mem).1.trans suffix, (places l mem).2⟩, eq⟩

theorem FaultsOf.narrow (h : FaultsOf lists b a faults) (suffix : a <:+ b')
    (within : EntriesWithin lists b') : FaultsOf lists b' a faults where
  suffix := suffix
  ordered := by
    obtain ⟨order, perm, sorted, places, eq⟩ := h.ordered
    refine ⟨order, perm, sorted, fun l mem => ⟨?_, (places l mem).2⟩, eq⟩
    exact l.excess_suffix (within l (List.mem_filter.mp (perm.subset mem)).1)

theorem FaultsOf.unique (h : FaultsOf lists b a faults) (h' : FaultsOf lists b' a faults') :
    faults = faults' := by
  obtain ⟨order, perm, sorted, -, rfl⟩ := h.ordered
  obtain ⟨order', perm', sorted', -, rfl⟩ := h'.ordered
  have same : order = order' := by
    apply List.Perm.eq_of_pairwise _ sorted sorted' (perm.trans perm'.symm)
    intro l l' _ _ first second
    exact absurd first (Nat.lt_asymm second)
  rw [same]

/-! ## Reading -/

structure State.Reads (s t : State) (width : Nat) (lists : List EntryList) : Prop where
  stop : t.stop = s.stop
  length : s.tokens.length = width + t.tokens.length
  recorded : ∃ faults, t.recorded = s.recorded ++ faults ∧ FaultsOf lists s.tokens t.tokens faults

variable {s t u v : State} {width width' : Nat}

theorem State.Reads.refl (s : State) : s.Reads s 0 [] where
  stop := rfl
  length := (Nat.zero_add _).symm
  recorded := ⟨[], (List.append_nil _).symm, faultsOf_nil (List.suffix_refl _)⟩

theorem State.Reads.trans (hst : s.Reads t width lists) (htu : t.Reads u width' lists') :
    s.Reads u (width + width') (lists ++ lists') where
  stop := htu.stop.trans hst.stop
  length := by rw [hst.length, htu.length, Nat.add_assoc]
  recorded := by
    obtain ⟨faults, eq, first⟩ := hst.recorded
    obtain ⟨faults', eq', second⟩ := htu.recorded
    refine ⟨faults ++ faults', ?_, first.append second⟩
    rw [eq', eq, List.append_assoc]

theorem State.Reads.perm (h : s.Reads t width lists) (perm : lists.Perm lists') :
    s.Reads t width lists' where
  stop := h.stop
  length := h.length
  recorded := by
    obtain ⟨faults, eq, of⟩ := h.recorded
    exact ⟨faults, eq, of.perm perm⟩

theorem State.Reads.eq (h : s.Reads t width lists) (sameWidth : width' = width)
    (same : lists' = lists) : s.Reads t width' lists' := by
  rw [sameWidth, same]
  exact h

theorem State.Reads.suffix (h : s.Reads t width lists) : t.tokens <:+ s.tokens := by
  obtain ⟨_, -, faults⟩ := h.recorded
  exact faults.suffix

theorem State.Reads.drop (h : s.Reads t width lists) : t.tokens = s.tokens.drop width := by
  have left := List.suffix_iff_eq_drop.mp h.suffix
  rwa [h.length, Nat.add_sub_cancel] at left

theorem State.Reads.eof (h : s.Reads t width lists) (stop : s.stop.kind = .eof) :
    t.stop.kind = .eof := by
  rw [h.stop, stop]

theorem reads_one {token : Token} {rest : List Token} (tokens : s.tokens = token :: rest) :
    s.Reads { s with tokens := rest } 1 [] where
  stop := rfl
  length := by rw [tokens, List.length_cons, Nat.add_comm]
  recorded := by
    refine ⟨[], (List.append_nil _).symm, faultsOf_nil ?_⟩
    rw [tokens]
    exact List.suffix_cons _ _

/-! ## Successful runs -/

variable {α β : Type} {p : Parser α} {q : α → Parser β} {Q : α → State → Prop}
  {R : β → State → Prop}

def Yields (p : Parser α) (s : State) (Q : α → State → Prop) : Prop := Ends p s Q fun _ _ => True

theorem Yields.imp {Q' : α → State → Prop} (h : Yields p s Q) (imp : ∀ x t, Q x t → Q' x t) :
    Yields p s Q' := Ends.imp h imp fun _ _ _ => trivial

theorem Yields.then (h : Yields p s Q) (next : ∀ x t, Q x t → Yields (q x) t R) :
    Yields (p >>= q) s R := ends_bind.mpr (Ends.imp h next fun _ _ _ => trivial)

theorem yields_pure {x : α} (h : Q x s) : Yields (pure x) s Q := h

theorem yields_throw (e : ParseError) : Yields (throw e : Parser α) s Q := trivial

theorem yields_peek {token : Token} {rest : List Token} (tokens : s.tokens = token :: rest) :
    Yields peek s fun x t => x = token ∧ t = s := by
  refine ⟨?_, rfl⟩
  simp [State.front, tokens]

theorem yields_accept? (wanted : TokenKind → Bool) : Yields (accept? wanted) s fun found t =>
    match found with
    | some _ => s.Reads t 1 []
    | none => t = s := by
  unfold Yields Ends accept?
  cases tokens : s.tokens with
  | nil => rfl
  | cons token rest =>
      cases fits : wanted token.kind with
      | true => simpa [fits] using reads_one tokens
      | false => simp [fits]

theorem yields_expect (what : Expectation) : Yields (expect what) s fun _ t => s.Reads t 1 [] := by
  apply (yields_accept? _).then
  intro found t ht
  cases found with
  | some token => exact yields_pure ht
  | none => trivial

theorem yields_skip (what : Expectation) :
    Yields (discard (expect what)) s fun _ t => s.Reads t 1 [] :=
  ends_discard.mpr (yields_expect what)

theorem yields_sees (kind : TokenKind) : Yields (sees kind) s fun _ t => t = s := rfl

theorem yields_freshId : Yields freshId s fun _ t => s.Reads t 0 [] :=
  ⟨rfl, (State.Reads.refl s).length, (State.Reads.refl s).recorded⟩

theorem yields_advance {token : Token} {rest : List Token} (tokens : s.tokens = token :: rest) :
    Yields advance s fun _ t => s.Reads t 1 [] := by
  have run : advance s = .ok () { s with tokens := rest } := by simp [advance, tokens]
  exact (ends_ok_iff run).mpr (reads_one tokens)

/-! ## Lists -/

def itemLists (width : α → Nat) (listsOf : α → List Token → List EntryList) :
    List α → List Token → List EntryList
  | [], _ => []
  | x :: xs, tokens => listsOf x tokens ++ itemLists width listsOf xs (tokens.drop (width x + 1))

def pending (count : Nat) (l : EntryList) : List EntryList :=
  if count ≤ maxListLength then [l] else []

def due (count : Nat) (l : EntryList) : List EntryList := if count = maxListLength then [l] else []

theorem pending_eq (count : Nat) (l : EntryList) :
    pending count l = due count l ++ pending (count + 1) l := by
  unfold pending due
  rcases Nat.lt_trichotomy count maxListLength with less | rfl | more
  · rw [if_pos (Nat.le_of_lt less), if_neg (Nat.ne_of_lt less), if_pos (Nat.succ_le_of_lt less),
      List.nil_append]
  · simp
  · rw [if_neg (Nat.not_le_of_lt more), if_neg (Nat.ne_of_gt more), if_neg (by omega),
      List.nil_append]

theorem tail_of_shorter (suffix : a <:+ b) (shorter : a.length < b.length) : a <:+ b.tail := by
  cases b with
  | nil => cases shorter
  | cons t rest =>
      rcases List.suffix_cons_iff.mp suffix with rfl | suffix
      · exact absurd shorter (Nat.lt_irrefl _)
      · exact suffix

theorem excess_of_entries {l : EntryList} {earlier more : List (List Token)}
    (entries : l.entries = earlier ++ b :: more) (full : earlier.length = maxListLength) :
    l.excess = b := by
  simp [EntryList.excess, entries, ← full]

theorem FaultsOf.entry {l : EntryList} {earlier more : List (List Token)}
    (entries : l.entries = earlier ++ b :: more) (h : FaultsOf lists b a faults)
    (shorter : a.length < b.length) (within : EntriesWithin lists b.tail) :
    FaultsOf (due earlier.length l ++ lists) b a
      ((due earlier.length l).map EntryList.report ++ faults) := by
  unfold due
  split
  · rename_i full
    have excess := excess_of_entries entries full
    have long : l.isLong = true := by
      simp [EntryList.isLong, entries, ← full]
    have first : FaultsOf [l] b b.tail [l.report] := by
      apply faultsOf_one long (List.tail_suffix b)
      · exact ⟨[], excess⟩
      · rw [excess, List.length_tail]
        omega
    exact first.append (h.narrow (tail_of_shorter h.suffix shorter) within)
  · exact h

theorem reads_pending {l : EntryList} {count : Nat} (entries : l.entries.length = count)
    (s : State) : s.Reads s 0 (pending count l) where
  stop := rfl
  length := (Nat.zero_add _).symm
  recorded := by
    refine ⟨[], (List.append_nil _).symm, faultsOf_short (List.suffix_refl _) ?_⟩
    unfold pending
    split
    · rename_i le
      simpa [EntryList.isLong, entries] using le
    · exact nofun

theorem yields_reportLength (kind : EntryKind) (count : Nat) :
    Yields (reportLength kind.tooMany count) s fun _ t => t.tokens = s.tokens ∧ t.stop = s.stop ∧
      ∀ l : EntryList, l.kind = kind → (count = maxListLength → l.excess = s.tokens) →
        s.tokens ≠ [] → t.recorded = s.recorded ++ (due count l).map EntryList.report := by
  unfold reportLength due
  split
  · rename_i full
    have full := beq_iff_eq.mp full
    refine ⟨rfl, rfl, fun l isOf excess some => ?_⟩
    rw [if_pos full]
    cases tokens : s.tokens with
    | nil => exact absurd tokens some
    | cons token rest => simp [EntryList.report, excess full, State.front, tokens, isOf]
  · rename_i other
    have other : ¬ count = maxListLength := by simpa using other
    refine ⟨rfl, rfl, fun _ _ _ _ => ?_⟩
    rw [if_neg other]
    exact (List.append_nil _).symm

section

variable {item : Parser α} {widthOf : α → Nat} {listsOf : α → List Token → List EntryList}

def State.ReadsItems (kind : EntryKind) (widthOf : α → Nat)
    (listsOf : α → List Token → List EntryList) (earlier : List (List Token)) (xs : List α)
    (s t : State) : Prop :=
  s.Reads t (entriesWidth (xs.map widthOf) - 1)
    (pending earlier.length ⟨kind, earlier ++ entriesFrom (xs.map widthOf) s.tokens⟩ ++
      itemLists widthOf listsOf xs s.tokens)

variable {kind : EntryKind} {earlier : List (List Token)} {x : α} {xs : List α}

theorem State.Reads.entry (more : List (List Token)) (same : t.tokens = s.tokens)
    (stop : t.stop = s.stop)
    (reported : ∀ l : EntryList, l.kind = kind →
      (earlier.length = maxListLength → l.excess = s.tokens) → s.tokens ≠ [] →
        t.recorded = s.recorded ++ (due earlier.length l).map EntryList.report)
    (h : t.Reads u width lists) (pos : 0 < width) (within : EntriesWithin lists t.tokens.tail) :
    s.Reads u width (due earlier.length ⟨kind, earlier ++ s.tokens :: more⟩ ++ lists) where
  stop := h.stop.trans stop
  length := by rw [← same, h.length]
  recorded := by
    obtain ⟨faults, eq, of⟩ := h.recorded
    have longer := h.length
    rw [same] at of within longer
    have some : s.tokens ≠ [] := List.ne_nil_of_length_pos (by omega)
    have now := reported ⟨kind, earlier ++ s.tokens :: more⟩ rfl (excess_of_entries rfl) some
    refine ⟨_, ?_, of.entry rfl (by omega) within⟩
    rw [eq, now, List.append_assoc]

theorem readsItems_last (entry : s.Reads t (widthOf x)
    (due earlier.length ⟨kind, earlier ++ [s.tokens]⟩ ++ listsOf x s.tokens)) :
    s.ReadsItems kind widthOf listsOf earlier [x] t := by
  have done : t.Reads t 0 (pending (earlier.length + 1) ⟨kind, earlier ++ [s.tokens]⟩) :=
    reads_pending (by simp) t
  apply (entry.trans done).perm
  rw [List.map_singleton, entriesFrom, entriesFrom, itemLists, itemLists, List.append_nil,
    pending_eq earlier.length, List.append_assoc, List.append_assoc]
  exact List.perm_append_comm.append_left _

theorem readsItems_more (entry : s.Reads t (widthOf x) (due earlier.length
      ⟨kind, earlier ++ s.tokens :: entriesFrom (xs.map widthOf) u.tokens⟩ ++
        listsOf x s.tokens))
    (comma : t.Reads u 1 []) (some : xs ≠ [])
    (rest : u.ReadsItems kind widthOf listsOf (earlier ++ [s.tokens]) xs v) :
    s.ReadsItems kind widthOf listsOf earlier (x :: xs) v := by
  have left : u.tokens = s.tokens.drop (widthOf x + 1) := (entry.trans comma).drop
  unfold State.ReadsItems at rest
  rw [List.append_assoc, List.length_append, List.singleton_append, List.length_singleton] at rest
  have all := (entry.trans comma).trans rest
  have width : widthOf x + 1 + (entriesWidth (xs.map widthOf) - 1) =
      entriesWidth ((x :: xs).map widthOf) - 1 := by
    cases xs with
    | nil => exact absurd rfl some
    | cons y ys =>
        simp only [List.map_cons, entriesWidth]
        omega
  rw [width] at all
  apply all.perm
  rw [List.map_cons, entriesFrom, itemLists, pending_eq earlier.length, ← left, List.append_nil]
  simp only [List.append_assoc]
  apply List.Perm.append_left
  simp only [← List.append_assoc]
  exact List.perm_append_comm.append_right _

theorem yields_commaList_of_rest {k : Nat} {R : List α → State → Prop}
    (h : ∀ s, s.stop.kind = .eof → Yields item s fun x t =>
      s.Reads t (widthOf x) (listsOf x s.tokens)) (pos : ∀ x, 0 < widthOf x)
    (within : ∀ x tokens, EntriesWithin (listsOf x tokens) tokens.tail) (stop : s.stop.kind = .eof)
    (rest : ∀ x u, u.stop.kind = .eof → (∀ more, s.Reads u (widthOf x)
        (due earlier.length ⟨kind, earlier ++ s.tokens :: more⟩ ++ listsOf x s.tokens)) →
      Yields (commaRest kind.tooMany item k earlier.length x) u R) :
    Yields (commaList kind.tooMany item k earlier.length) s R := by
  rw [commaList_eq]
  apply (yields_reportLength kind _).then
  rintro _ t ⟨same, stop', reported⟩
  apply (h t (stop' ▸ stop)).then
  intro x u hu
  apply rest x u (hu.eof (stop' ▸ stop))
  intro more
  have entry := hu.entry more same stop' reported (pos x) (within x _)
  rwa [same] at entry

theorem yields_commaList (kind : EntryKind) (h : ∀ s, s.stop.kind = .eof → Yields item s fun x t =>
      s.Reads t (widthOf x) (listsOf x s.tokens)) (pos : ∀ x, 0 < widthOf x)
    (within : ∀ x tokens, EntriesWithin (listsOf x tokens) tokens.tail) (k : Nat)
    (earlier : List (List Token)) {s : State} (stop : s.stop.kind = .eof) :
    Yields (commaList kind.tooMany item k earlier.length) s fun xs t => xs ≠ [] ∧
      s.ReadsItems kind widthOf listsOf earlier xs t := by
  -- The entries in front are arbitrary: that their number is known is enough to place the report.
  induction k generalizing earlier s with
  | zero =>
      apply yields_commaList_of_rest h pos within stop
      exact fun x u _ entry => yields_pure ⟨List.cons_ne_nil _ _, readsItems_last (entry [])⟩
  | succ k ih =>
      apply yields_commaList_of_rest h pos within stop
      intro x u stop' entry
      apply (yields_accept? _).then
      intro found v hv
      cases found with
      | none =>
          obtain rfl : v = u := hv
          exact yields_pure ⟨List.cons_ne_nil _ _, readsItems_last (entry [])⟩
      | some comma =>
          have rest := ih (earlier ++ [s.tokens]) (s := v) (hv.eof stop')
          rw [List.length_append, List.length_singleton] at rest
          apply rest.then
          rintro xs w ⟨some, hw⟩
          exact yields_pure ⟨List.cons_ne_nil _ _, readsItems_more (entry _) hv some hw⟩

end

theorem yields_parameters (k : Nat) (stop : s.stop.kind = .eof) :
    Yields (commaList .tooManyParameters (expect .parameterName) k 0) s fun names t =>
      s.Reads t (entriesWidth (names.map fun _ => 1) - 1)
        [⟨.parameters, entriesFrom (names.map fun _ => 1) s.tokens⟩] := by
  have none (xs tokens : List Token) : itemLists (fun _ => 1) (fun _ _ => []) xs tokens = [] := by
    induction xs generalizing tokens with
    | nil => rfl
    | cons x xs ih => rw [itemLists, ih, List.append_nil]
  apply Yields.imp (yields_commaList .parameters (fun s _ => yields_expect .parameterName)
    (fun _ => Nat.one_pos) (fun _ _ => entriesWithin_nil) k [] stop)
  rintro names t ⟨-, ht⟩
  unfold State.ReadsItems at ht
  rw [none, List.append_nil] at ht
  exact ht

/-! ## Expressions -/

theorem exprsWidth_eq (es : List Expr) : exprsWidth es = entriesWidth (es.map Expr.width) := by
  induction es with
  | nil => rfl
  | cons e es ih => rw [exprsWidth, ih, List.map_cons, entriesWidth]

theorem exprsLists_eq (es : List Expr) : exprsLists es = itemLists Expr.width Expr.lists es := by
  induction es with
  | nil => rfl
  | cons e es ih =>
      funext tokens
      rw [exprsLists, itemLists, ih]

def YieldsExpr (p : Parser Expr) : Prop :=
  ∀ s, s.stop.kind = .eof → Yields p s fun e t => s.Reads t e.width (e.lists s.tokens)

variable {nested operand : Parser Expr}

theorem yields_primary (h : YieldsExpr nested) : YieldsExpr (primary nested) := by
  intro s stop
  by_cases empty : s.tokens = []
  · unfold Yields Ends
    rw [stuck_primary nested s empty stop]
    trivial
  · obtain ⟨token, rest, tokens⟩ := List.exists_cons_of_ne_nil empty
    apply (yields_peek tokens).then
    rintro _ _ ⟨rfl, rfl⟩
    have advances := yields_advance tokens
    split
    case h_1 | h_2 | h_3 =>
      apply advances.then
      exact fun _ _ ht => yields_pure ht
    case h_4 | h_5 =>
      apply advances.then
      intro _ t ht
      split
      · exact yields_pure ht
      · exact yields_throw _
    case h_6 | h_8 =>
      apply advances.then
      intro _ t ht
      apply yields_freshId.then
      exact fun _ u hu => yields_pure (ht.trans hu)
    case h_7 =>
      apply advances.then
      intro _ t ht
      apply (yields_skip _).then
      intro _ u hu
      apply (yields_expect _).then
      intro method v hv
      apply yields_freshId.then
      exact fun _ w hw => yields_pure (((ht.trans hu).trans hv).trans hw)
    case h_9 =>
      apply advances.then
      intro _ t ht
      apply (h t (ht.eof stop)).then
      intro inner u hu
      apply (yields_skip _).then
      intro _ v hv
      apply yields_pure
      apply ((ht.trans hu).trans hv).eq
      · rw [Expr.width]
        omega
      · rw [Expr.lists, ← ht.drop, List.append_nil, List.nil_append]
    case h_10 => trivial

def YieldsBehind (p : Expr → Parser Expr) : Prop :=
  ∀ (s t : State) (e : Expr), s.stop.kind = .eof → s.Reads t e.width (e.lists s.tokens) →
    Yields (p e) t fun e' u => s.Reads u e'.width (e'.lists s.tokens)

theorem YieldsExpr.behind {p : Expr → Parser Expr} (h : YieldsExpr operand) (h' : YieldsBehind p) :
    YieldsExpr (operand >>= p) := by
  intro s stop
  apply (h s stop).then
  exact fun e t ht => h' s t e stop ht

theorem yields_arguments (h : YieldsExpr nested) (k : Nat) (stop : s.stop.kind = .eof) :
    Yields (arguments k nested) s fun es t => s.Reads t (exprsWidth es - 1)
      (⟨.arguments, entriesFrom (es.map Expr.width) s.tokens⟩ :: exprsLists es s.tokens) := by
  apply (yields_sees _).then
  rintro found t rfl
  split
  · exact yields_pure (reads_pending (l := ⟨.arguments, []⟩) rfl t)
  · apply Yields.imp (yields_commaList .arguments h Expr.width_pos Expr.lists_within k [] stop)
    rintro es u ⟨-, hu⟩
    rw [exprsWidth_eq, exprsLists_eq]
    exact hu

theorem yields_callChain (h : YieldsExpr nested) (k : Nat) :
    YieldsBehind (callChain nested k) := by
  induction k with
  | zero => exact fun _ _ _ _ ht => yields_pure ht
  | succ k ih =>
      intro s t e stop ht
      unfold callChain
      apply (yields_accept? _).then
      intro found u hu
      cases found with
      | none =>
          obtain rfl : u = t := hu
          exact yields_pure ht
      | some token =>
          have hsu := ht.trans hu
          dsimp only
          split
          · apply (yields_arguments h k (hsu.eof stop)).then
            intro args v hv
            apply (yields_expect _).then
            intro paren w hw
            apply ih s w (.call e paren args) stop
            apply ((hsu.trans hv).trans hw).eq
            · rw [Expr.width]
              omega
            · rw [Expr.lists, ← hsu.drop, List.append_nil, List.append_nil]
          · apply (yields_expect _).then
            intro name v hv
            apply ih s v (.get e name) stop
            apply (hsu.trans hv).eq
            · rw [Expr.width]
            · rw [Expr.lists, List.append_nil, List.append_nil]

theorem yields_call (h : YieldsExpr nested) (k : Nat) : YieldsExpr (call k nested) :=
  (yields_primary h).behind (yields_callChain h k)

theorem yields_unary (h : YieldsExpr operand) (k : Nat) : YieldsExpr (unary operand k) := by
  induction k with
  | zero => exact h
  | succ k ih =>
      intro s stop
      unfold unary
      apply (yields_accept? _).then
      intro found t ht
      cases found with
      | none =>
          obtain rfl : t = s := ht
          exact h t stop
      | some operator =>
          apply (ih t (ht.eof stop)).then
          intro e u hu
          apply yields_pure
          apply (ht.trans hu).eq
          · rw [Expr.width, Nat.add_comm]
          · rw [Expr.lists, ← ht.drop, List.nil_append]

theorem yields_leftChain (h : YieldsExpr operand) (l : Level) (k : Nat) :
    YieldsBehind (leftChain l.node l.operators operand k) := by
  induction k with
  | zero => exact fun _ _ _ _ ht => yields_pure ht
  | succ k ih =>
      intro s t e stop ht
      unfold leftChain
      apply (yields_accept? _).then
      intro found u hu
      cases found with
      | none =>
          obtain rfl : u = t := hu
          exact yields_pure ht
      | some operator =>
          have hsu := ht.trans hu
          apply (h u (hsu.eof stop)).then
          intro right v hv
          apply ih s v (l.node e operator right) stop
          have width : (l.node e operator right).width = e.width + 1 + right.width := by
            cases l <;> rfl
          have lists : (l.node e operator right).lists s.tokens =
              e.lists s.tokens ++ right.lists (s.tokens.drop (e.width + 1)) := by
            cases l <;> rfl
          apply (hsu.trans hv).eq width
          rw [lists, ← hsu.drop, List.append_nil]

theorem yields_level (h : YieldsExpr nested) (k : Nat) (l : Level) :
    YieldsExpr (l.parser k nested k) := by
  have above {l next : Level} (eq : l.next = some next) (h : YieldsExpr (next.parser k nested k)) :
      YieldsExpr (l.parser k nested k) := by
    rw [parser_of_next eq]
    exact h.behind (yields_leftChain h l k)
  have unary : YieldsExpr (Level.unary.parser k nested k) := yields_unary (yields_call h k) k
  have factor := above (l := .factor) rfl unary
  have term := above (l := .term) rfl factor
  have comparison := above (l := .comparison) rfl term
  have equality := above (l := .equality) rfl comparison
  have and := above (l := .and) rfl equality
  have or := above (l := .or) rfl and
  cases l <;> assumption

theorem yields_assignment (h : YieldsExpr nested) (k : Nat) : YieldsExpr (assignment k nested) := by
  intro s stop
  apply (yields_level h k .or s stop).then
  intro target t ht
  apply (yields_accept? _).then
  intro found u hu
  cases found with
  | none =>
      obtain rfl : u = t := hu
      exact yields_pure ht
  | some equals =>
      have hsu := ht.trans hu
      apply (h u (hsu.eof stop)).then
      intro value v hv
      have hsv := hsu.trans hv
      split
      · apply yields_freshId.then
        intro i w hw
        apply yields_pure
        apply (hsv.trans hw).eq
        · rw [Expr.width, Expr.width]
          omega
        · rw [Expr.lists, Expr.lists, hsu.drop, List.append_nil]
          rfl
      · apply yields_pure
        apply hsv.eq
        · rw [Expr.width, Expr.width]
        · rw [Expr.lists, Expr.lists, hsu.drop, List.append_nil]
          rfl
      · exact yields_throw _

theorem yields_expression (k : Nat) : YieldsExpr (expression k) := by
  induction k with
  | zero => exact fun _ _ => trivial
  | succ k ih => exact yields_assignment ih (k + 1)

end ClassScript.Parser
