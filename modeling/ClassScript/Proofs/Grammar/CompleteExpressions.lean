import ClassScript.Proofs.Grammar.Accepted

namespace ClassScript.Grammar

open ClassScript.Parser

variable {limited : Bool} {nested operand : Parser Expr} {b c a : List Token} {e left : Expr}

/-! ## What goes on with an expression -/

def Level.tighter : Level → List Level
  | or => [or, and, equality, comparison, term, factor]
  | and => [and, equality, comparison, term, factor]
  | equality => [equality, comparison, term, factor]
  | comparison => [comparison, term, factor]
  | term => [term, factor]
  | factor => [factor]
  | unary => []

def Level.continues (l : Level) (k : TokenKind) : Bool :=
  goesOn k || l.tighter.any (·.operators k)

def continuesExpression (k : TokenKind) : Bool := Level.or.continues k || k == .equal

variable {l next : Level}

theorem continues_of_next (eq : l.next = some next) (k : TokenKind) :
    l.continues k = (l.operators k || next.continues k) := by
  cases l <;> cases eq <;> cases call : goesOn k <;> simp [Level.continues, Level.tighter, call]

theorem operators_separate (eq : l.next = some next) (k : TokenKind) (h : l.operators k = true) :
    next.continues k = false := by
  cases l <;> cases eq <;> cases k <;> first | rfl | cases h

theorem ends_of_next (eq : l.next = some next) (h : startsWith l.continues a = false) :
    startsWith l.operators a = false ∧ startsWith next.continues a = false := by
  cases a with
  | nil => exact ⟨rfl, rfl⟩
  | cons t rest =>
      rw [startsWith_cons, continues_of_next eq, Bool.or_eq_false_iff] at h
      exact h

theorem ends_of_expression (h : startsWith continuesExpression a = false) :
    startsWith Level.or.continues a = false ∧ startsWith (· == .equal) a = false := by
  cases a with
  | nil => exact ⟨rfl, rfl⟩
  | cons t rest => exact Bool.or_eq_false_iff.mp h

theorem continues_unary : Level.unary.continues = goesOn := by
  funext k
  simp [Level.continues, Level.tighter]

theorem ends_of_kind {t : Token} {k : TokenKind} (kind : t.kind = k)
    (h : continuesExpression k = false) : startsWith continuesExpression (t :: a) = false := by
  rw [startsWith_cons, kind, h]

theorem ends_of_paren (h : startsWith (· == .rightParen) a = true) :
    startsWith continuesExpression a = false ∧ startsWith (· == .comma) a = false := by
  constructor
  · apply startsWith_disjoint _ h
    intro k hk
    rw [beq_iff_eq.mp hk]
    rfl
  · apply startsWith_disjoint _ h
    intro k hk
    rw [beq_iff_eq.mp hk]
    rfl

theorem expression_ne_stop {k : TokenKind} (other : startsExpression k = false)
    (h : startsWith startsExpression b = true) : startsWith (· == k) b = false := by
  apply startsWith_disjoint _ h
  intro k' starts
  rw [beq_eq_false_iff_ne]
  rintro rfl
  rw [other] at starts
  contradiction

/-! ## Trees and parsers -/

abbrev AcceptsTree (limited : Bool) (p : Parser Expr) (b a : List Token) (e : Expr) : Prop :=
  Accepts limited p b a fun e' => e'.unnumbered = e

theorem unnumbered_var {e : Expr} {name : Token} (h : e.unnumbered = .var ⟨0, name⟩) :
    ∃ i, e = .var ⟨i, name⟩ := by
  cases e with
  | var o =>
      simp only [Expr.unnumbered, Occurrence.unnumbered, Expr.var.injEq, Occurrence.mk.injEq] at h
      exact ⟨o.id, by rw [← h.2]⟩
  | _ => simp [Expr.unnumbered] at h

theorem unnumbered_get {e object : Expr} {name : Token} (h : e.unnumbered = .get object name) :
    ∃ object', e = .get object' name ∧ object'.unnumbered = object := by
  cases e <;> simp_all [Expr.unnumbered]

/-- The parser of a level. Operators in front of an operand have a bound of their own. -/
def Level.parser (bound : Nat) (nested : Parser Expr) (k : Nat) : Level → Parser Expr
  | or => logicalOr bound nested
  | and => logicalAnd bound nested
  | equality => Parser.equality bound nested
  | comparison => Parser.comparison bound nested
  | term => Parser.term bound nested
  | factor => Parser.factor bound nested
  | unary => Parser.unary (Parser.call bound nested) k

theorem parser_of_next (eq : l.next = some next) (bound k : Nat) :
    l.parser bound nested k =
      Parser.level l.node l.operators bound (next.parser bound nested bound) := by
  cases l <;> cases eq <;> rfl

/-! ## Levels of operators -/

theorem accepts_leftChain_end {P : Expr → Prop} {node : Expr → Token → Expr → Expr}
    {operators : TokenKind → Bool} (ends : startsWith operators a = false) (k : Nat)
    (result : P e) : Accepts limited (leftChain node operators operand k e) a a P := by
  cases k with
  | zero => exact accepts_pure result
  | succ k =>
      apply (accepts_none ends).then
      rintro found rfl
      exact accepts_pure result

theorem accepts_level_single (eq : l.next = some next) {bound : Nat}
    (h : AcceptsTree limited (next.parser bound nested bound) b a e)
    (ends : startsWith l.operators a = false) (k : Nat) :
    AcceptsTree limited (l.parser bound nested k) b a e := by
  rw [parser_of_next eq]
  apply h.then
  intro first hfirst
  exact accepts_leftChain_end ends bound hfirst

theorem accepts_unary_none (h : AcceptsTree limited operand b a e)
    (starts : startsWith startsPrimary b = true) (k : Nat) :
    AcceptsTree limited (Parser.unary operand k) b a e := by
  cases k with
  | zero => exact h
  | succ k =>
      have other : startsWith (fun k => k == .bang || k == .minus) b = false := by
        apply startsWith_disjoint _ starts
        intro k hk
        cases k <;> first | rfl | cases hk
      apply (accepts_none other).then
      rintro found rfl
      exact h

theorem accepts_call_single {bound : Nat}
    (h : AcceptsTree limited (Parser.call bound nested) b a e)
    (starts : startsWith startsPrimary b = true)
    (ends : startsWith Level.or.continues a = false) :
    AcceptsTree limited (logicalOr bound nested) b a e := by
  have endsOr := ends_of_next (l := .or) rfl ends
  have endsAnd := ends_of_next (l := .and) rfl endsOr.2
  have endsEquality := ends_of_next (l := .equality) rfl endsAnd.2
  have endsComparison := ends_of_next (l := .comparison) rfl endsEquality.2
  have endsTerm := ends_of_next (l := .term) rfl endsComparison.2
  have endsFactor := ends_of_next (l := .factor) rfl endsTerm.2
  have unary : AcceptsTree limited (Level.unary.parser bound nested bound) b a e :=
    accepts_unary_none h starts bound
  have factor := accepts_level_single (l := .factor) rfl unary endsFactor.1 bound
  have term := accepts_level_single (l := .term) rfl factor endsTerm.1 bound
  have comparison := accepts_level_single (l := .comparison) rfl term endsComparison.1 bound
  have equality := accepts_level_single (l := .equality) rfl comparison endsEquality.1 bound
  have and := accepts_level_single (l := .and) rfl equality endsAnd.1 bound
  exact accepts_level_single (l := .or) rfl and endsOr.1 bound

/-! ## Primary expressions -/

section

variable {first : Token}

theorem accepts_literal {value : Literal} (kind : first.kind = .number ∨ first.kind = .string)
    (literal : first.literal = some value) :
    AcceptsTree limited (primary nested) (first :: a) a (.literal value first.line) := by
  apply accepts_peek.then
  rintro t rfl
  obtain kind | kind := kind <;> simp only [kind, literal] <;>
    exact accepts_advance.then fun _ _ => accepts_pure rfl

theorem accepts_constant {value : Literal} (kind : first.kind = .kwTrue ∧ value = .bool true ∨
    first.kind = .kwFalse ∧ value = .bool false ∨ first.kind = .kwNil ∧ value = .nil) :
    AcceptsTree limited (primary nested) (first :: a) a (.literal value first.line) := by
  apply accepts_peek.then
  rintro t rfl
  obtain ⟨kind, rfl⟩ | ⟨kind, rfl⟩ | ⟨kind, rfl⟩ := kind <;> simp only [kind] <;>
    exact accepts_advance.then fun _ _ => accepts_pure rfl

theorem accepts_occurrence {node : Occurrence → Expr}
    (ignored : ∀ i, (node ⟨i, first⟩).unnumbered = node ⟨0, first⟩) :
    AcceptsTree limited (do advance; return node ⟨← freshId, first⟩) (first :: a) a
      (node ⟨0, first⟩) := by
  apply accepts_advance.then
  intro _ _
  apply accepts_freshId.then
  exact fun i _ => accepts_pure (ignored i)

theorem accepts_this (kind : first.kind = .kwThis) :
    AcceptsTree limited (primary nested) (first :: a) a (.this ⟨0, first⟩) := by
  apply accepts_peek.then
  rintro t rfl
  simp only [kind]
  exact accepts_occurrence fun _ => rfl

theorem accepts_identifier (kind : first.kind = .identifier) :
    AcceptsTree limited (primary nested) (first :: a) a (.var ⟨0, first⟩) := by
  apply accepts_peek.then
  rintro t rfl
  simp only [kind]
  exact accepts_occurrence fun _ => rfl

theorem accepts_super {dot method : Token} (kind : first.kind = .kwSuper) (isDot : dot.kind = .dot)
    (isName : method.kind = .identifier) :
    AcceptsTree limited (primary nested) (first :: dot :: method :: a) a
      (.super ⟨0, first⟩ method) := by
  apply accepts_peek.then
  rintro t rfl
  simp only [kind]
  apply accepts_advance.then
  intro _ _
  apply (accepts_skip isDot).then
  intro _ _
  apply (accepts_expect isName).then
  rintro name rfl
  apply accepts_freshId.then
  exact fun _ _ => accepts_pure rfl

theorem accepts_grouping {close : Token} (kind : first.kind = .leftParen)
    (isClose : close.kind = .rightParen) (h : AcceptsTree limited nested b (close :: a) e) :
    AcceptsTree limited (primary nested) (first :: b) a (.grouping e) := by
  apply accepts_peek.then
  rintro t rfl
  simp only [kind]
  apply accepts_advance.then
  intro _ _
  apply h.then
  intro inner hinner
  apply (accepts_skip isClose).then
  intro _ _
  apply accepts_pure
  rw [← hinner]
  rfl

end

/-! ## Calls -/

theorem accepts_callChain_end {P : Expr → Prop} (ends : startsWith goesOn a = false) (k : Nat)
    (result : P e) : Accepts limited (callChain nested k e) a a P := by
  cases k with
  | zero => exact accepts_pure result
  | succ k =>
      apply (accepts_none ends).then
      rintro found rfl
      exact accepts_pure result

theorem accepts_callChain_property {P : Expr → Prop} {dot name : Token} {k : Nat}
    (isDot : dot.kind = .dot) (isName : name.kind = .identifier)
    (rest : Accepts limited (callChain nested k (.get e name)) b a P) :
    Accepts limited (callChain nested (k + 1) e) (dot :: name :: b) a P := by
  apply (accepts_some (by simp [isDot])).then
  rintro found rfl
  have notParen : (dot.kind == .leftParen) = false := by simp [isDot]
  simp only [notParen]
  apply (accepts_expect isName).then
  rintro found rfl
  exact rest

theorem accepts_callChain_call {P : Expr → Prop} {Q : List Expr → Prop} {paren close : Token}
    {k : Nat}
    (isParen : paren.kind = .leftParen) (isClose : close.kind = .rightParen)
    (arguments : Accepts limited (Parser.arguments k nested) b (close :: c) Q)
    (rest : ∀ args, Q args → Accepts limited (callChain nested k (.call e close args)) c a P) :
    Accepts limited (callChain nested (k + 1) e) (paren :: b) a P := by
  apply (accepts_some (by simp [isParen])).then
  rintro found rfl
  simp only [isParen, beq_self_eq_true, if_true]
  apply arguments.then
  intro args hargs
  apply (accepts_expect isClose).then
  rintro found rfl
  exact rest args hargs

/-! ## Derivations -/

/-- What the parser does with a derivation, symbol by symbol. A part of a call is read if the rest
is, whatever tree with the right shape has been read so far. -/
def Accepted (limited : Bool) : (X : Symbol) → List Token → List Token → X.Tree → Prop
  | .expression, b, a, e => ∀ bound, b.length ≤ bound → startsWith continuesExpression a = false →
    AcceptsTree limited (Parser.expression bound) b a e
  | .level l, b, a, e => ∀ bound k, b.length ≤ bound + 1 → b.length ≤ k →
    startsWith l.continues a = false →
      AcceptsTree limited (l.parser (bound + 1) (Parser.expression bound) k) b a e
  | .levelRest l left, b, a, e => ∀ next, l.next = some next → ∀ bound k left',
    b.length ≤ bound + 1 → b.length ≤ k → left'.unnumbered = left →
      startsWith l.continues a = false →
        AcceptsTree limited (leftChain l.node l.operators
          (next.parser (bound + 1) (Parser.expression bound) (bound + 1)) k left') b a e
  | .call, b, a, e => ∀ bound, b.length ≤ bound + 1 → ∀ {a' : List Token} {P : Expr → Prop},
    (∀ k e', a.length ≤ k → e'.unnumbered = e →
      Accepts limited (callChain (Parser.expression bound) k e') a a' P) →
    Accepts limited (Parser.call (bound + 1) (Parser.expression bound)) b a' P
  | .callRest left, b, a, e => ∀ bound k left', b.length ≤ bound + 1 → b.length ≤ k →
    left'.unnumbered = left → ∀ {a' : List Token} {P : Expr → Prop},
      (∀ k e', a.length ≤ k → e'.unnumbered = e →
        Accepts limited (callChain (Parser.expression bound) k e') a a' P) →
      Accepts limited (callChain (Parser.expression bound) k left') b a' P
  | .arguments, b, a, es => ∀ bound k count, b.length ≤ bound → b.length ≤ k →
    (limited = true → count + es.length ≤ maxListLength) →
    startsWith (· == .rightParen) a = true →
      Accepts limited (commaList .tooManyArguments (Parser.expression bound) k count) b a
        fun es' => exprsUnnumbered es' = es
  | .primary, b, a, e => ∀ bound, b.length ≤ bound + 1 →
    AcceptsTree limited (primary (Parser.expression bound)) b a e

theorem accepted_assign {name equals : Token} {value : Expr} (isName : name.kind = .identifier)
    (isEqual : equals.kind = .equal) (h : Accepted limited .expression b a value) :
    Accepted limited .expression (name :: equals :: b) a (Expr.assign ⟨0, name⟩ value) := by
  intro bound short ends
  cases bound with
  | zero => simp at short
  | succ bound =>
      simp only [List.length_cons] at short
      have target : AcceptsTree limited (logicalOr (bound + 1) (Parser.expression bound))
          (name :: equals :: b) (equals :: b) (.var ⟨0, name⟩) := by
        apply accepts_call_single _ (startsWith_of_kind isName rfl)
        · rw [startsWith_cons, isEqual]
          rfl
        · apply (accepts_identifier isName).then
          intro e he
          apply accepts_callChain_end
          · rw [startsWith_cons, isEqual]
            rfl
          · exact he
      apply target.then
      intro target' htarget
      obtain ⟨i, rfl⟩ := unnumbered_var htarget
      apply (accepts_some (by simp [isEqual])).then
      rintro found rfl
      apply (h bound (by omega) ends).then
      intro value' hvalue
      apply accepts_freshId.then
      intro j _
      apply accepts_pure
      rw [← hvalue]
      rfl

theorem accepted_set {dot name equals : Token} {object value : Expr}
    (hobject : Accepted limited .call b (dot :: name :: equals :: c) object)
    (isDot : dot.kind = .dot)
    (isName : name.kind = .identifier) (isEqual : equals.kind = .equal)
    (starts : startsWith startsPrimary b = true) (shorter : c.length + 3 < b.length)
    (hvalue : Accepted limited .expression c a value) :
    Accepted limited .expression b a (Expr.set object name value) := by
  intro bound short ends
  cases bound with
  | zero => omega
  | succ bound =>
      have target : AcceptsTree limited (logicalOr (bound + 1) (Parser.expression bound))
          b (equals :: c) (.get object name) := by
        apply accepts_call_single _ starts
        · rw [startsWith_cons, isEqual]
          rfl
        · apply hobject bound short
          intro k e' enough he
          obtain ⟨k, rfl⟩ : ∃ k', k = k' + 1 := ⟨k - 1, by simp at enough; omega⟩
          apply accepts_callChain_property isDot isName
          apply accepts_callChain_end
          · rw [startsWith_cons, isEqual]
            rfl
          · rw [← he]
            rfl
      apply target.then
      intro target' htarget
      obtain ⟨object', rfl, hobject'⟩ := unnumbered_get htarget
      apply (accepts_some (by simp [isEqual])).then
      rintro found rfl
      apply (hvalue bound (by omega) ends).then
      intro value' hvalue
      apply accepts_pure
      rw [← hvalue, ← hobject']
      rfl

theorem operand_ends {tree : Expr} (eq : l.next = some next)
    (rest : Derives limited (.levelRest l left) c a tree)
    (ends : startsWith l.continues a = false) :
    startsWith next.continues c = false := by
  obtain rfl | starts := rest.starts
  · exact (ends_of_next eq ends).2
  · exact startsWith_disjoint (operators_separate eq) starts

theorem accepts_noArguments {close : Token} (isClose : close.kind = .rightParen) (k : Nat) :
    Accepts limited (Parser.arguments k nested) (close :: a) (close :: a)
      fun args => exprsUnnumbered args = [] := by
  apply (accepts_sees .rightParen).then
  rintro seen rfl
  rw [startsWith_cons, isClose]
  exact accepts_pure rfl

theorem accepted_arguments {close : Token} {args : List Expr} {bound k : Nat}
    (h : Accepted limited .arguments b (close :: c) args) (isClose : close.kind = .rightParen)
    (starts : startsWith startsExpression b = true)
    (limit : limited = true → args.length ≤ maxListLength) (short : b.length ≤ bound)
    (shortK : b.length ≤ k) :
    Accepts limited (Parser.arguments k (Parser.expression bound)) b (close :: c)
      fun args' => exprsUnnumbered args' = args := by
  apply (accepts_sees .rightParen).then
  rintro seen rfl
  rw [expression_ne_stop rfl starts]
  apply h bound k 0 short shortK
  · simpa using limit
  · simp [isClose]

theorem Derives.accepted {X : Symbol} {tree : X.Tree} (h : Derives limited X b a tree) :
    Accepted limited X b a tree := by
  -- The bounds are enough because a token at least stands in front of what is nested.
  induction h with
  | assign isName isEqual _ ih => exact accepted_assign isName isEqual ih
  | set object isDot isName isEqual _ ihObject ihValue =>
      exact accepted_set ihObject isDot isName isEqual object.starts object.shorter ihValue
  | noAssignment h ih =>
      intro bound short ends
      have shorter := h.shorter
      simp only [Symbol.least] at shorter
      cases bound with
      | zero => omega
      | succ bound =>
          obtain ⟨endsOr, endsEqual⟩ := ends_of_expression ends
          apply (ih bound (bound + 1) short short endsOr).then
          intro e he
          apply (accepts_none endsEqual).then
          rintro found rfl
          exact accepts_pure he
  | level eq first rest ihFirst ihRest =>
      intro bound k short _ ends
      have shorter := first.shorter
      simp only [Symbol.least] at shorter
      rw [parser_of_next eq]
      apply (ihFirst bound (bound + 1) short short (operand_ends eq rest ends)).then
      intro first' hfirst
      exact ihRest _ eq bound (bound + 1) first' (by omega) (by omega) hfirst ends
  | levelEnd =>
      intro next eq bound k left' _ _ hleft ends
      exact accepts_leftChain_end (ends_of_next eq ends).1 k hleft
  | levelOperator eq kind operand rest ihOperand ihRest =>
      intro next' eq' bound k left' short shortK hleft ends
      cases eq.symm.trans eq'
      have shorter := operand.shorter
      simp only [Symbol.least, List.length_cons] at shorter short shortK
      obtain ⟨k, rfl⟩ := Nat.exists_eq_add_one.mpr (Nat.zero_lt_of_lt shortK)
      apply (accepts_some kind).then
      rintro found rfl
      apply (ihOperand bound (bound + 1) (by omega) (by omega) (operand_ends eq rest ends)).then
      intro right hright
      apply ihRest _ eq bound k _ (by omega) (by omega) _ ends
      rw [node_unnumbered, hleft, hright]
  | unary kind _ ih =>
      intro bound k short shortK ends
      simp only [List.length_cons] at short shortK
      obtain ⟨k, rfl⟩ := Nat.exists_eq_add_one.mpr (Nat.zero_lt_of_lt shortK)
      apply (accepts_some (by simpa using kind)).then
      rintro found rfl
      apply (ih bound k (by omega) (by omega) ends).then
      intro operand hoperand
      apply accepts_pure
      rw [← hoperand]
      rfl
  | noOperator h ih =>
      intro bound k short _ ends
      apply accepts_unary_none _ h.starts
      apply ih bound short
      intro k e _ he
      rw [continues_unary] at ends
      exact accepts_callChain_end ends k he
  | call first _ ihFirst ihRest =>
      intro bound short a' P rest
      have shorter := first.shorter
      simp only [Symbol.least] at shorter
      apply (ihFirst bound short).then
      intro first' hfirst
      exact ihRest bound (bound + 1) first' (by omega) (by omega) hfirst rest
  | callEnd =>
      intro bound k left' _ shortK hleft a' P rest
      exact rest k left' shortK hleft
  | callEmpty isParen isClose _ ih =>
      intro bound k left' short shortK hleft a' P rest
      simp only [List.length_cons] at short shortK
      obtain ⟨k, rfl⟩ := Nat.exists_eq_add_one.mpr (Nat.zero_lt_of_lt shortK)
      apply accepts_callChain_call isParen isClose (accepts_noArguments isClose k)
      intro args hargs
      apply ih bound k _ (by omega) (by omega) _ rest
      rw [← hleft, ← hargs]
      rfl
  | callArguments isParen isClose arguments limit _ ihArguments ih =>
      intro bound k left' short shortK hleft a' P rest
      have shorter := arguments.shorter
      simp only [Symbol.least, List.length_cons] at short shortK shorter
      obtain ⟨k, rfl⟩ := Nat.exists_eq_add_one.mpr (Nat.zero_lt_of_lt shortK)
      apply accepts_callChain_call isParen isClose
      · exact accepted_arguments ihArguments isClose arguments.starts limit (by omega) (by omega)
      · intro args hargs
        apply ih bound k _ (by omega) (by omega) _ rest
        rw [← hleft, ← hargs]
        rfl
  | callProperty isDot isName _ ih =>
      intro bound k left' short shortK hleft a' P rest
      simp only [List.length_cons] at short shortK
      obtain ⟨k, rfl⟩ := Nat.exists_eq_add_one.mpr (Nat.zero_lt_of_lt shortK)
      apply accepts_callChain_property isDot isName
      apply ih bound k _ (by omega) (by omega) _ rest
      rw [← hleft]
      rfl
  | argument h ih =>
      intro bound k count short _ limit stop
      obtain ⟨ends, noComma⟩ := ends_of_paren stop
      apply (accepts_commaList_last (ih bound short ends) .tooManyArguments k limit noComma).imp
      rintro xs ⟨x, rfl, hx⟩
      rw [← hx]
      rfl
  | arguments first isComma _ ihFirst ihRest =>
      intro bound k count short shortK limit stop
      have shorter := first.shorter
      simp only [Symbol.least, List.length_cons] at shorter limit
      obtain ⟨k, rfl⟩ := Nat.exists_eq_add_one_of_ne_zero (n := k) (by omega)
      have item := ihFirst bound short (ends_of_kind isComma rfl)
      have rest := ihRest bound k (count + 1) (by omega) (by omega)
        (fun limited => by have := limit limited; omega) stop
      apply (accepts_commaList_more item .tooManyArguments _ isComma rest).imp
      · rintro xs ⟨x, xs', rfl, hx, hxs⟩
        rw [← hx, ← hxs]
        rfl
      · intro limited
        have := limit limited
        omega
  | literal kind value => exact fun _ _ => accepts_literal kind value
  | true kind => exact fun _ _ => accepts_constant (.inl ⟨kind, rfl⟩)
  | false kind => exact fun _ _ => accepts_constant (.inr (.inl ⟨kind, rfl⟩))
  | nil kind => exact fun _ _ => accepts_constant (.inr (.inr ⟨kind, rfl⟩))
  | this kind => exact fun _ _ => accepts_this kind
  | identifier kind => exact fun _ _ => accepts_identifier kind
  | grouping kind _ isClose ih =>
      intro bound short
      simp only [List.length_cons] at short
      exact accepts_grouping kind isClose (ih bound (by omega) (ends_of_kind isClose rfl))
  | super kind isDot isName => exact fun _ _ => accepts_super kind isDot isName

theorem accepts_expression {bound : Nat} (h : Derives limited .expression b a e)
    (short : b.length ≤ bound) (ends : startsWith continuesExpression a = false) :
    AcceptsTree limited (Parser.expression bound) b a e :=
  h.accepted bound short ends

end ClassScript.Grammar
