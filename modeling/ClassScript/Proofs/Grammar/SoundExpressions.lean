import ClassScript.Proofs.Grammar.Recognized

namespace ClassScript.Grammar

open ClassScript.Parser

variable {limited : Bool} {nested operand : Parser Expr} {b a : List Token} {e left : Expr}

abbrev SoundExpression (limited : Bool) (p : Parser Expr) : Prop :=
  Sound limited p fun b a e => Derives limited .expression b a e.unnumbered

abbrev SoundLevel (limited : Bool) (l : Level) (p : Parser Expr) : Prop :=
  Sound limited p fun b a e => Derives limited (.level l) b a e.unnumbered

section

variable {s t u : State} {first : Token}

theorem tokens_of_step (stop : s.stop.kind = .eof) (other : first.kind ≠ .eof)
    (tail : u.tokens = t.tokens.tail) (front : first = s.front ∧ t = s) :
    s.tokens = first :: u.tokens := by
  obtain ⟨rfl, rfl⟩ := front
  rw [tail]
  exact tokens_of_front stop other

theorem recognizes_constant (stop : s.stop.kind = .eof) (other : first.kind ≠ .eof)
    (derives : ∀ a, Derives limited .primary (first :: a) a e.unnumbered) :
    Recognizes limited (do advance; return e) t fun e u =>
      first = s.front ∧ t = s → Derives limited .primary s.tokens u.tokens e.unnumbered := by
  apply recognizes_advance.then
  intro _ u _
  apply recognizes_pure
  intro tail front
  rw [tokens_of_step stop other tail front]
  exact derives _

theorem recognizes_occurrence {f : Occurrence → Expr} (stop : s.stop.kind = .eof)
    (other : first.kind ≠ .eof)
    (derives : ∀ i a, Derives limited .primary (first :: a) a (f ⟨i, first⟩).unnumbered) :
    Recognizes limited (do advance; return f ⟨← freshId, first⟩) t fun e u =>
      first = s.front ∧ t = s → Derives limited .primary s.tokens u.tokens e.unnumbered := by
  apply recognizes_advance.then
  intro _ u _
  apply recognizes_freshId.then
  intro i v _
  apply recognizes_pure
  intro same tail front
  rw [tokens_of_step stop other tail front, ← same]
  exact derives i _

theorem recognizes_literal (stop : s.stop.kind = .eof)
    (kind : first.kind = .number ∨ first.kind = .string) :
    Recognizes limited (do
      advance
      match first.literal with
      | some value => return Expr.literal value first.line
      | none => throw ⟨.missingLiteral, first.line⟩ : Parser Expr) t fun e u =>
      first = s.front ∧ t = s → Derives limited .primary s.tokens u.tokens e.unnumbered := by
  have other : first.kind ≠ .eof := by
    intro eof
    simp [eof] at kind
  cases literal : first.literal with
  | some value => exact recognizes_constant stop other fun _ => .literal kind literal
  | none =>
      apply recognizes_advance.then
      exact fun _ _ _ => recognizes_throw _

end

theorem sound_primary (h : SoundExpression limited nested) :
    Sound limited (primary nested) fun b a e => Derives limited .primary b a e.unnumbered := by
  intro s stop
  apply recognizes_peek.then
  intro first t same
  split
  · rename_i kind
    exact recognizes_constant stop (by simp [kind]) fun _ => .false kind
  · rename_i kind
    exact recognizes_constant stop (by simp [kind]) fun _ => .true kind
  · rename_i kind
    exact recognizes_constant stop (by simp [kind]) fun _ => .nil kind
  · rename_i kind
    exact recognizes_literal stop (.inl kind)
  · rename_i kind
    exact recognizes_literal stop (.inr kind)
  · rename_i kind
    exact recognizes_occurrence stop (by simp [kind]) fun _ _ => .this kind
  · rename_i kind
    apply recognizes_advance.then
    intro _ u hu
    apply (sound_skip _ u (by rw [hu, same, stop])).then
    intro _ v hv
    apply (sound_expect _ v (by rw [hv, hu, same, stop])).then
    intro method w _
    apply recognizes_freshId.then
    intro i x _
    apply recognizes_pure
    rintro same ⟨rest, name⟩ ⟨dot, dotRest, dotKind⟩ tail front
    rw [tokens_of_step stop (by simp [kind]) tail front, dotRest, rest, ← same]
    exact .super kind dotKind name
  · rename_i kind
    exact recognizes_occurrence stop (by simp [kind]) fun _ _ => .identifier kind
  · rename_i kind
    apply recognizes_advance.then
    intro _ u hu
    apply (h u (by rw [hu, same, stop])).then
    intro inner v hv
    apply (sound_skip _ v (by rw [hv, hu, same, stop])).then
    intro _ w _
    apply recognizes_pure
    rintro ⟨close, rest, closeKind⟩ derives tail front
    rw [tokens_of_step stop (by simp [kind]) tail front]
    rw [rest] at derives
    exact .grouping kind derives closeKind
  · exact recognizes_noExpression

theorem exprsUnnumbered_length (es : List Expr) : (exprsUnnumbered es).length = es.length := by
  induction es with
  | nil => rfl
  | cons e es ih => exact congrArg (· + 1) ih

theorem sound_arguments (h : SoundExpression limited nested) (bound : Nat) {left : Expr}
    {s : State} (stop : s.stop.kind = .eof) :
    Recognizes limited (Parser.arguments bound nested) s fun args t =>
      ∀ {paren close c a e}, paren.kind = .leftParen → close.kind = .rightParen →
        t.tokens = close :: c →
        Derives limited (.callRest (.call left close (exprsUnnumbered args))) c a e →
        Derives limited (.callRest left) (paren :: s.tokens) a e := by
  apply (recognizes_sees _).then
  intro closed t same
  cases closed with
  | true =>
      apply recognizes_pure
      intro seen paren close c a e hparen hclose tokens rest
      rw [← seen.1, tokens]
      exact .callEmpty hparen hclose rest
  | false =>
      have list := sound_commaList h .tooManyArguments
        (L := fun b a args => Derives limited .arguments b a (exprsUnnumbered args))
        .argument .arguments bound 0
      apply (list t (by rw [same, stop])).imp
      intro args u hargs seen paren close c a e hparen hclose tokens rest
      rw [tokens, seen.1] at hargs
      refine .callArguments hparen hclose hargs.1 (fun limit => ?_) rest
      rw [exprsUnnumbered_length, ← Nat.zero_add args.length]
      exact hargs.2 limit (Nat.zero_le _)

theorem sound_callChain (h : SoundExpression limited nested) (bound : Nat) (left : Expr) :
    Sound limited (callChain nested bound left) fun b a e =>
      Derives limited (.callRest left.unnumbered) b a e.unnumbered := by
  induction bound generalizing left with
  | zero => exact fun s _ => recognizes_pure .callEnd
  | succ bound ih =>
      intro s stop
      apply (recognizes_accept? _).then
      intro found t ht
      cases found with
      | none =>
          apply recognizes_pure
          rintro ⟨same, -⟩
          rw [same]
          exact .callEnd
      | some first =>
          dsimp only
          split
          · rename_i paren
            apply (sound_arguments h bound (by rw [ht, stop])).then
            intro args u hu
            apply (sound_expect _ u (by rw [hu, ht, stop])).then
            intro close v hv
            apply (ih _ v (by rw [hv, hu, ht, stop])).imp
            rintro e w rest ⟨tokens, kind⟩ hargs ⟨front, -⟩
            rw [front]
            exact hargs (by simpa using paren) kind tokens rest
          · rename_i paren
            apply (sound_expect _ t (by rw [ht, stop])).then
            intro name u hu
            apply (ih _ u (by rw [hu, ht, stop])).imp
            rintro e v rest ⟨tokens, kind⟩ ⟨front, wanted⟩
            rw [front, tokens]
            have dot : first.kind = .dot := by simpa [paren] using wanted
            exact .callProperty dot kind rest

theorem sound_call (h : SoundExpression limited nested) (bound : Nat) :
    Sound limited (Parser.call bound nested) fun b a e =>
      Derives limited .call b a e.unnumbered := by
  intro s stop
  apply (sound_primary h s stop).then
  intro first t ht
  apply (sound_callChain h bound first t (by rw [ht, stop])).imp
  exact fun e u rest derives => .call derives rest

theorem sound_unary (h : Sound limited operand fun b a e => Derives limited .call b a e.unnumbered)
    (bound : Nat) : SoundLevel limited .unary (Parser.unary operand bound) := by
  induction bound with
  | zero =>
      intro s stop
      apply (h s stop).imp
      exact fun _ _ derives => .noOperator derives
  | succ bound ih =>
      intro s stop
      apply (recognizes_accept? _).then
      intro found t ht
      cases found with
      | none =>
          apply (h t (by rw [ht, stop])).imp
          rintro e u derives ⟨same, -⟩
          rw [← same]
          exact .noOperator derives
      | some operator =>
          apply (ih t (by rw [ht, stop])).then
          intro e u _
          apply recognizes_pure
          rintro derives ⟨tokens, kind⟩
          rw [tokens]
          exact .unary (by simpa using kind) derives

theorem sound_leftChain {l next : Level} (eq : l.next = some next)
    (h : SoundLevel limited next operand)
    (bound : Nat) (left : Expr) :
    Sound limited (leftChain l.node l.operators operand bound left) fun b a e =>
      Derives limited (.levelRest l left.unnumbered) b a e.unnumbered := by
  induction bound generalizing left with
  | zero => exact fun s _ => recognizes_pure .levelEnd
  | succ bound ih =>
      intro s stop
      apply (recognizes_accept? _).then
      intro found t ht
      cases found with
      | none =>
          apply recognizes_pure
          rintro ⟨same, -⟩
          rw [same]
          exact .levelEnd
      | some operator =>
          apply (h t (by rw [ht, stop])).then
          intro right u hu
          apply (ih _ u (by rw [hu, ht, stop])).imp
          rintro e v rest derives ⟨tokens, kind⟩
          rw [node_unnumbered] at rest
          rw [tokens]
          exact .levelOperator eq kind derives rest

theorem sound_level {l next : Level} (eq : l.next = some next) (h : SoundLevel limited next operand)
    (bound : Nat) : SoundLevel limited l (Parser.level l.node l.operators bound operand) := by
  intro s stop
  apply (h s stop).then
  intro first t ht
  apply (sound_leftChain eq h bound first t (by rw [ht, stop])).imp
  exact fun e u rest derives => .level eq derives rest

theorem sound_logicalOr (h : SoundExpression limited nested) (bound : Nat) :
    SoundLevel limited .or (logicalOr bound nested) := by
  have factor : SoundLevel limited .factor (Parser.factor bound nested) :=
    sound_level rfl (sound_unary (sound_call h bound) bound) bound
  have term : SoundLevel limited .term (Parser.term bound nested) := sound_level rfl factor bound
  have comparison : SoundLevel limited .comparison (Parser.comparison bound nested) :=
    sound_level rfl term bound
  have equality : SoundLevel limited .equality (Parser.equality bound nested) :=
    sound_level rfl comparison bound
  have and : SoundLevel limited .and (logicalAnd bound nested) := sound_level rfl equality bound
  exact sound_level rfl and bound

def IsOperation : Expr → Prop
  | .logical .. | .binary .. | .unary .. => True
  | _ => False

theorem isOperation_node (l : Level) (left : Expr) (operator : Token) (right : Expr) :
    IsOperation (l.node left operator right) := by
  cases l <;> trivial

def TargetOf (limited : Bool) : (X : Symbol) → List Token → List Token → X.Tree → Prop
  | .level _, b, a, e => ¬ IsOperation e → Derives limited .call b a e
  | .levelRest _ left, b, a, e => ¬ IsOperation e → left = e ∧ b = a
  | .callRest left, b, a, e =>
    (∀ o, e = .var o → left = e ∧ b = a) ∧
      ∀ object name, e = .get object name → (left = e ∧ b = a) ∨
        ∃ dot : Token, dot.kind = .dot ∧ name.kind = .identifier ∧
          Derives limited (.callRest left) b (dot :: name :: a) object
  | .primary, b, a, e =>
    (∀ o, e = .var o → b = o.token :: a ∧ o.token.kind = .identifier) ∧
      ∀ object name, e ≠ .get object name
  | _, _, _, _ => True

theorem Derives.targetOf {X : Symbol} {tree : X.Tree} (h : Derives limited X b a tree) :
    TargetOf limited X b a tree := by
  -- The chain of a call ends with the operation at the root of the tree, so a property is read last.
  induction h with
  | level eq first rest ihFirst ihRest =>
      intro other
      obtain ⟨rfl, rfl⟩ := ihRest other
      exact ihFirst other
  | levelEnd => exact fun _ => ⟨rfl, rfl⟩
  | levelOperator _ _ _ _ _ ih =>
      intro other
      obtain ⟨rfl, -⟩ := ih other
      exact (other (isOperation_node ..)).elim
  | unary => exact fun other => (other trivial).elim
  | noOperator h => exact fun _ => h
  | callEnd => exact ⟨fun _ _ => ⟨rfl, rfl⟩, fun _ _ _ => .inl ⟨rfl, rfl⟩⟩
  | callEmpty hparen hclose rest ih =>
      refine ⟨fun o eq => ?_, fun object name eq => ?_⟩
      · cases (ih.1 o eq).1.trans eq
      · obtain ⟨same, -⟩ | ⟨dot, isDot, isName, before⟩ := ih.2 object name eq
        · cases same.trans eq
        · exact .inr ⟨dot, isDot, isName, .callEmpty hparen hclose before⟩
  | callArguments hparen hclose args short rest _ ih =>
      refine ⟨fun o eq => ?_, fun object name eq => ?_⟩
      · cases (ih.1 o eq).1.trans eq
      · obtain ⟨same, -⟩ | ⟨dot, isDot, isName, before⟩ := ih.2 object name eq
        · cases same.trans eq
        · exact .inr ⟨dot, isDot, isName, .callArguments hparen hclose args short before⟩
  | callProperty hdot hname rest ih =>
      refine ⟨fun o eq => ?_, fun object name eq => ?_⟩
      · cases (ih.1 o eq).1.trans eq
      · obtain ⟨same, rfl⟩ | ⟨dot, isDot, isName, before⟩ := ih.2 object name eq
        · cases same.trans eq
          exact .inr ⟨_, hdot, hname, .callEnd⟩
        · exact .inr ⟨dot, isDot, isName, .callProperty hdot hname before⟩
  | identifier kind =>
      refine ⟨fun o eq => ?_, fun _ _ eq => ?_⟩
      · cases eq
        exact ⟨rfl, kind⟩
      · cases eq
  | literal | true | false | nil | this | grouping | super =>
      constructor
      · intro o eq
        cases eq
      · intro object name eq
        cases eq
  | _ => trivial

theorem Derives.variable {l : Level} {o : Occurrence}
    (h : Derives limited (.level l) b a (Expr.var o)) :
    b = o.token :: a ∧ o.token.kind = .identifier := by
  cases h.targetOf (fun op => op) with
  | call first rest =>
      obtain ⟨rfl, rfl⟩ := rest.targetOf.1 o rfl
      exact first.targetOf.1 o rfl

theorem Derives.property {l : Level} {object : Expr} {name : Token}
    (h : Derives limited (.level l) b a (Expr.get object name)) :
    ∃ dot : Token, dot.kind = .dot ∧ name.kind = .identifier ∧
      Derives limited .call b (dot :: name :: a) object := by
  cases h.targetOf (fun op => op) with
  | call first rest =>
      obtain ⟨rfl, rfl⟩ | ⟨dot, isDot, isName, before⟩ := rest.targetOf.2 object name rfl
      · exact (first.targetOf.2 object name rfl).elim
      · exact ⟨dot, isDot, isName, .call first before⟩

theorem sound_assignment (h : SoundExpression limited nested) (bound : Nat) :
    SoundExpression limited (assignment bound nested) := by
  intro s stop
  apply (sound_logicalOr h bound s stop).then
  intro target t ht
  apply (recognizes_accept? _).then
  intro found u hu
  cases found with
  | none =>
      apply recognizes_pure
      rintro ⟨same, -⟩ derives
      rw [same]
      exact .noAssignment derives
  | some equals =>
      apply (h u (by rw [hu, ht, stop])).then
      intro value v _
      split
      · rename_i name
        apply recognizes_freshId.then
        intro i w _
        apply recognizes_pure
        rintro same derives ⟨tokens, kind⟩ before
        obtain ⟨front, identifier⟩ := before.variable
        rw [front, tokens, same]
        exact .assign identifier (by simpa using kind) derives
      · rename_i object name
        apply recognizes_pure
        rintro derives ⟨tokens, kind⟩ before
        rw [tokens] at before
        obtain ⟨dot, isDot, identifier, call⟩ := before.property
        exact .set call isDot identifier (by simpa using kind) derives
      · exact recognizes_throw _

theorem sound_expression (limited : Bool) (bound : Nat) :
    SoundExpression limited (Parser.expression bound) := by
  induction bound with
  | zero => exact fun s _ => recognizes_noExpression
  | succ bound ih => exact sound_assignment ih (bound + 1)

end ClassScript.Grammar
