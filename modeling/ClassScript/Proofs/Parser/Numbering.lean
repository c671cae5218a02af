import ClassScript.Proofs.Binding.Ordinary
import ClassScript.Proofs.Parser.Advances

namespace ClassScript.Parser

open Binding

structure IdsIn (low high : Nat) (ids : List Nat) : Prop where
  nodup : ids.Nodup
  range : ∀ i ∈ ids, low ≤ i ∧ i < high

variable {α β : Type} {s t u v : State} {low mid high : Nat} {xs ys : List Nat}

theorem idsIn_nil : IdsIn low high [] := ⟨List.nodup_nil, fun _ h => by cases h⟩

theorem idsIn_singleton (n : Nat) : IdsIn n (n + 1) [n] := by
  refine ⟨List.nodup_singleton n, fun i h => ?_⟩
  rw [List.mem_singleton.mp h]
  exact ⟨Nat.le_refl n, Nat.lt_succ_self n⟩

theorem IdsIn.mono {low' high' : Nat} (h : IdsIn low high xs) (hl : low' ≤ low)
    (hh : high ≤ high') : IdsIn low' high' xs :=
  ⟨h.nodup, fun i hi =>
    ⟨Nat.le_trans hl (h.range i hi).1, Nat.lt_of_lt_of_le (h.range i hi).2 hh⟩⟩

theorem IdsIn.append (h : IdsIn low mid xs) (h' : IdsIn mid high ys) (hl : low ≤ mid)
    (hh : mid ≤ high) : IdsIn low high (xs ++ ys) := by
  refine ⟨List.nodup_append'.mpr ⟨h.nodup, h'.nodup, fun i hi hi' => ?_⟩, fun i hi => ?_⟩
  · have below := (h.range i hi).2
    have above := (h'.range i hi').1
    omega
  · rcases List.mem_append.mp hi with hi | hi
    · exact (h.mono (Nat.le_refl _) hh).range i hi
    · exact (h'.mono hl (Nat.le_refl _)).range i hi

theorem IdsIn.perm (h : IdsIn low high xs) (p : xs.Perm ys) : IdsIn low high ys :=
  ⟨p.nodup_iff.mp h.nodup, fun i hi => h.range i (p.mem_iff.mpr hi)⟩

theorem IdsIn.then (h : IdsIn s.nextId t.nextId xs) (h' : IdsIn t.nextId u.nextId ys)
    (hst : s.Advances t) (htu : t.Advances u) : IdsIn s.nextId u.nextId (xs ++ ys) :=
  h.append h' hst.nextId htu.nextId

structure State.Spelled (s : State) : Prop where
  tokens : ∀ t ∈ s.tokens, t.Spelled
  stop : s.stop.Spelled

theorem State.Spelled.advances (h : s.Spelled) (hst : s.Advances t) : t.Spelled where
  tokens token mem := h.tokens token (hst.tokens.subset mem)
  stop := hst.stop ▸ h.stop

theorem State.Spelled.front (h : s.Spelled) : s.front.Spelled := by
  unfold State.front
  cases tokens : s.tokens with
  | nil => exact h.stop
  | cons first rest =>
      apply h.tokens
      rw [tokens]
      exact List.mem_cons_self

abbrev ReadSince (ids : α → List Nat) (good : α → Prop) (s : State) (a : α) (t : State) : Prop :=
  IdsIn s.nextId t.nextId (ids a) ∧ (s.Spelled → good a)

def Reads (p : Parser α) (ids : α → List Nat) (good : α → Prop) : Prop :=
  ∀ s, Proceeds p s (ReadSince ids good s)

abbrev ReadsExpr (p : Parser Expr) : Prop := Reads p Expr.ids OrdinaryExpr

def noIds (_ : α) : List Nat := []

section

variable {ids : α → List Nat} {good : α → Prop} {item : Parser α} {a : α}

theorem ReadSince.widen (h : ReadSince ids good t a u) (hst : s.Advances t) (huv : u.Advances v) :
    ReadSince ids good s a v :=
  ⟨h.1.mono hst.nextId huv.nextId, fun spelled => h.2 (spelled.advances hst)⟩

theorem Reads.behind {p : Parser α} (h : Reads p ids good) (hst : s.Advances t) :
    Proceeds p t (ReadSince ids good s) :=
  (h t).imp fun _ u _ ha => ha.widen hst (.refl u)

theorem reads_expect (what : Expectation) :
    Reads (expect what) noIds fun t => t.kind = what.kind ∧ t.Spelled := fun _ =>
  (proceeds_expect what).imp fun t _ _ ht =>
    ⟨idsIn_nil, fun spelled => ⟨ht.2.2, spelled.tokens t ht.2.1⟩⟩

theorem reads_noExpression : Reads (noExpression : Parser α) ids good := fun _ =>
  proceeds_noExpression

abbrev ListSince (ids : α → List Nat) (good : α → Prop) : State → List α → State → Prop :=
  ReadSince (List.flatMap ids) fun as => ∀ a ∈ as, good a

theorem listSince_nil : ListSince ids good s [] t := ⟨idsIn_nil, fun _ _ h => by cases h⟩

theorem ListSince.cons {as : List α} (ha : ReadSince ids good s a t)
    (h : ListSince ids good t as u) (hst : s.Advances t) (htu : t.Advances u) :
    ListSince ids good s (a :: as) u := by
  refine ⟨ha.1.then h.1 hst htu, fun spelled b hb => ?_⟩
  rcases List.mem_cons.mp hb with rfl | hb
  · exact ha.2 spelled
  · exact h.2 (spelled.advances hst) b hb

theorem reads_commaList (h : Reads item ids good) (tooMany : ParseFault) (bound count : Nat) :
    Reads (commaList tooMany item bound count) (List.flatMap ids) fun as => ∀ a ∈ as, good a := by
  induction bound generalizing count with
  | zero =>
      intro s
      rw [commaList_zero]
      refine (proceeds_reportLength tooMany count).then fun _ t hst _ => ?_
      refine (h t).then fun a u htu ha => ?_
      exact proceeds_pure (ListSince.cons (ha.widen hst (.refl u)) listSince_nil
        (hst.trans htu) (.refl u))
  | succ bound ih =>
      intro s
      rw [commaList_succ]
      refine (proceeds_reportLength tooMany count).then fun _ t hst _ => ?_
      refine (h t).then fun a u htu ha => ?_
      refine (proceeds_accept? _).then fun comma v huv _ => ?_
      have ha := ha.widen hst huv
      have hsv := (hst.trans htu).trans huv
      cases comma with
      | none => exact proceeds_pure (ListSince.cons ha listSince_nil hsv (.refl v))
      | some _ =>
          refine (ih (count + 1) v).then fun as w hvw has => ?_
          exact proceeds_pure (ListSince.cons ha has hsv hvw)

theorem reads_many (h : Reads item ids good) (stops : TokenKind → Bool) (bound : Nat) :
    Reads (many stops item bound) (List.flatMap ids) fun as => ∀ a ∈ as, good a := by
  induction bound with
  | zero => exact fun s => proceeds_pure listSince_nil
  | succ bound ih =>
      intro s
      refine Proceeds.of_run ?_ (many_succ stops item bound s)
      split
      · exact proceeds_pure listSince_nil
      · refine (h s).then fun a t hst ha => ?_
        refine (ih t).then fun as u htu has => ?_
        exact proceeds_pure (ListSince.cons ha has hst htu)

end

theorem exprsIds_eq (es : List Expr) : exprsIds es = es.flatMap Expr.ids := by
  induction es with
  | nil => rfl
  | cons e es ih => simp [exprsIds, ih]

structure Joins (node : Expr → Token → Expr → Expr) : Prop where
  ids : ∀ l o r, (node l o r).ids = l.ids ++ r.ids
  ordinary : ∀ l o r, OrdinaryExpr l → OrdinaryExpr r → OrdinaryExpr (node l o r)

theorem joins_binary : Joins .binary := ⟨fun _ _ _ => rfl, fun _ _ _ hl hr => hl.append hr⟩

theorem joins_logical : Joins .logical := ⟨fun _ _ _ => rfl, fun _ _ _ hl hr => hl.append hr⟩

abbrev ExprSince : State → Expr → State → Prop := ReadSince Expr.ids OrdinaryExpr

theorem reads_leftChain {node : Expr → Token → Expr → Expr} {operand : Parser Expr}
    (hn : Joins node) (h : ReadsExpr operand) (operators : TokenKind → Bool) (bound : Nat)
    {left : Expr} {s₀ : State} (hl : ExprSince s₀ left s) (h₀ : s₀.Advances s) :
    Proceeds (leftChain node operators operand bound left) s (ExprSince s₀) := by
  induction bound generalizing left s with
  | zero => exact proceeds_pure hl
  | succ bound ih =>
      unfold leftChain
      refine (proceeds_accept? _).then fun found t hst _ => ?_
      have hl := hl.widen (.refl s₀) hst
      cases found with
      | none => exact proceeds_pure hl
      | some operator =>
          refine (h t).then fun right u htu hr => ?_
          have h₁ := h₀.trans hst
          have both : IdsIn s₀.nextId u.nextId (node left operator right).ids := by
            rw [hn.ids]
            exact hl.1.then hr.1 h₁ htu
          have ordinary (spelled : s₀.Spelled) : OrdinaryExpr (node left operator right) :=
            hn.ordinary left operator right (hl.2 spelled) (hr.2 (spelled.advances h₁))
          exact ih ⟨both, ordinary⟩ (h₁.trans htu)

theorem reads_level {node : Expr → Token → Expr → Expr} {operand : Parser Expr}
    (hn : Joins node) (h : ReadsExpr operand) (operators : TokenKind → Bool) (bound : Nat) :
    ReadsExpr (level node operators bound operand) := by
  intro s
  refine (h s).then fun left t hst hl => ?_
  exact reads_leftChain hn h operators bound hl hst

theorem idsIn_fresh {i : Nat} (hi : i = s.nextId ∧ t.nextId = s.nextId + 1) :
    IdsIn s.nextId t.nextId [i] := by
  rw [hi.1, hi.2]
  exact idsIn_singleton _

theorem reads_primary {nested : Parser Expr} (h : ReadsExpr nested) :
    ReadsExpr (primary nested) := by
  intro s
  unfold primary
  have literal (value : Literal) (line : Nat) (t : State) :
      ExprSince s (.literal value line) t := ⟨idsIn_nil, fun _ => ordinary_nil⟩
  have plain (value : Literal) (line : Nat) :
      Proceeds (do advance; return .literal value line) s (ExprSince s) :=
    proceeds_advance.then fun _ t _ _ => proceeds_pure (literal value line t)
  have occurrence (node : Occurrence → Expr) (t : Token) (hn : ∀ o, (node o).ids = [o.id])
      (ho : s.Spelled → ∀ i, OrdinaryExpr (node ⟨i, t⟩)) :
      Proceeds (do advance; return node ⟨← freshId, t⟩) s (ExprSince s) := by
    refine proceeds_advance.then fun _ u _ hu => ?_
    refine proceeds_freshId.then fun i v _ hi => ?_
    rw [hu] at hi
    exact proceeds_pure ⟨by rw [hn]; exact idsIn_fresh hi, fun spelled => ho spelled i⟩
  refine proceeds_peek.then fun t _ _ ht => ?_
  obtain ⟨rfl, rfl⟩ := ht
  split
  · exact plain _ _
  · exact plain _ _
  · exact plain _ _
  · refine proceeds_advance.then fun _ u hsu _ => ?_
    split
    · exact proceeds_pure (literal _ _ u)
    · exact proceeds_throw _
  · refine proceeds_advance.then fun _ u hsu _ => ?_
    split
    · exact proceeds_pure (literal _ _ u)
    · exact proceeds_throw _
  · exact occurrence _ _ (fun _ => rfl) fun _ _ => ordinary_mention trivial
  · refine proceeds_advance.then fun _ u _ hu => ?_
    refine (proceeds_skip _).then fun _ v _ hv => ?_
    refine (proceeds_expect _).then fun method w _ hw => ?_
    refine proceeds_freshId.then fun i x _ hi => ?_
    rw [hw.1, hv, hu] at hi
    exact proceeds_pure ⟨idsIn_fresh hi, fun _ => ordinary_mention trivial⟩
  · rename_i identifier
    exact occurrence _ _ (fun _ => rfl) fun spelled _ =>
      ordinary_mention (spelled.front.not_reserved identifier)
  · refine proceeds_advance.then fun _ u hsu _ => ?_
    refine (h u).then fun inner v huv hv => ?_
    refine (proceeds_skip _).then fun _ w hvw _ => ?_
    exact proceeds_pure (hv.widen hsu hvw)
  · exact proceeds_noExpression

abbrev OrdinaryExprs (es : List Expr) : Prop := Ordinary fun setting => exprsMentions setting es

theorem reads_arguments {nested : Parser Expr} (h : ReadsExpr nested) (bound : Nat) :
    Reads (arguments bound nested) exprsIds OrdinaryExprs := by
  intro s
  unfold arguments
  refine (proceeds_sees _).then fun closed t _ ht => ?_
  obtain rfl := ht
  split
  · exact proceeds_pure ⟨idsIn_nil, fun _ => ordinary_nil⟩
  · refine (reads_commaList h _ bound 0 t).imp fun es u _ hes => ?_
    rw [ReadSince, exprsIds_eq]
    exact ⟨hes.1, fun spelled => ordinary_exprs (hes.2 spelled)⟩

theorem reads_callChain {nested : Parser Expr} (h : ReadsExpr nested) (bound : Nat) {e : Expr}
    {s₀ : State} (he : ExprSince s₀ e s) (h₀ : s₀.Advances s) :
    Proceeds (callChain nested bound e) s (ExprSince s₀) := by
  induction bound generalizing e s with
  | zero => exact proceeds_pure he
  | succ bound ih =>
      unfold callChain
      refine (proceeds_accept? _).then fun found t hst _ => ?_
      have he := he.widen (.refl s₀) hst
      have h₁ := h₀.trans hst
      cases found with
      | none => exact proceeds_pure he
      | some token =>
          dsimp only
          split
          · refine (reads_arguments h bound t).then fun args u htu hargs => ?_
            refine (proceeds_expect _).then fun paren v huv _ => ?_
            have all : IdsIn s₀.nextId v.nextId (e.ids ++ exprsIds args) :=
              (he.1.then hargs.1 h₁ htu).mono (Nat.le_refl _) huv.nextId
            have ordinary (spelled : s₀.Spelled) : OrdinaryExpr (.call e paren args) :=
              (he.2 spelled).append (hargs.2 (spelled.advances h₁))
            exact ih ⟨all, ordinary⟩ ((h₁.trans htu).trans huv)
          · refine (proceeds_expect _).then fun name u htu _ => ?_
            have he := he.widen (.refl s₀) htu
            exact ih ⟨he.1, he.2⟩ (h₁.trans htu)

theorem reads_call {nested : Parser Expr} (h : ReadsExpr nested) (bound : Nat) :
    ReadsExpr (call bound nested) := by
  intro s
  refine (reads_primary h s).then fun e t hst he => ?_
  exact reads_callChain h bound he hst

theorem reads_unary {operand : Parser Expr} (h : ReadsExpr operand) (bound : Nat) :
    ReadsExpr (unary operand bound) := by
  induction bound with
  | zero => exact h
  | succ bound ih =>
      intro s
      unfold unary
      refine (proceeds_accept? _).then fun found t hst _ => ?_
      cases found with
      | none => exact h.behind hst
      | some operator =>
          refine (ih t).then fun e u _ he => ?_
          exact proceeds_pure (he.widen hst (.refl u))

theorem reads_logicalOr {nested : Parser Expr} (h : ReadsExpr nested) (bound : Nat) :
    ReadsExpr (logicalOr bound nested) := by
  have factor := reads_level joins_binary (reads_unary (reads_call h bound) bound)
    (fun k => k == .slash || k == .star) bound
  have term := reads_level joins_binary factor (fun k => k == .minus || k == .plus) bound
  have comparison := reads_level joins_binary term
    (fun k => k == .greater || k == .greaterEqual || k == .less || k == .lessEqual) bound
  have equality := reads_level joins_binary comparison
    (fun k => k == .bangEqual || k == .equalEqual) bound
  have conjunction := reads_level joins_logical equality (· == .kwAnd) bound
  exact reads_level joins_logical conjunction (· == .kwOr) bound

theorem reads_assignment {nested : Parser Expr} (h : ReadsExpr nested) (bound : Nat) :
    ReadsExpr (assignment bound nested) := by
  intro s
  unfold assignment
  refine (reads_logicalOr h bound s).then fun target t hst ht => ?_
  refine (proceeds_accept? _).then fun found u htu _ => ?_
  have hsu := hst.trans htu
  replace ht := ht.widen (.refl s) htu
  cases found with
  | none => exact proceeds_pure ht
  | some equals =>
      refine (h u).then fun value v huv hv => ?_
      split
      · rename_i name
        refine proceeds_freshId.then fun i w hvw hi => ?_
        have both : IdsIn u.nextId w.nextId (value.ids ++ [i]) := hv.1.then (idsIn_fresh hi) huv hvw
        have all : IdsIn s.nextId w.nextId (i :: value.ids) :=
          (both.mono hsu.nextId (Nat.le_refl _)).perm (List.perm_append_singleton _ _)
        have named (spelled : s.Spelled) : (Mention.var ⟨i, name.token⟩).Ordinary :=
          (within_cons.mp (ht.2 spelled .outside)).1
        exact proceeds_pure ⟨all, fun spelled =>
          (hv.2 (spelled.advances hsu)).cons (named spelled)⟩
      · rename_i object name
        have both : IdsIn s.nextId v.nextId (object.ids ++ value.ids) := ht.1.then hv.1 hsu huv
        exact proceeds_pure ⟨both.perm List.perm_append_comm, fun spelled =>
          (hv.2 (spelled.advances hsu)).append (ht.2 spelled)⟩
      · exact proceeds_throw _

theorem reads_expression (bound : Nat) : ReadsExpr (expression bound) := by
  induction bound with
  | zero => exact reads_noExpression
  | succ bound ih => exact reads_assignment ih (bound + 1)

end ClassScript.Parser
