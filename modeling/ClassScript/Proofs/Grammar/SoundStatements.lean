import ClassScript.Proofs.Grammar.SoundExpressions

namespace ClassScript.Grammar

open ClassScript.Parser

variable {b a : List Token} {bound : Nat} {declaration : Parser (Option Stmt)}
  {statement : Parser Stmt}

abbrev SoundStatement (p : Parser Stmt) : Prop :=
  Sound true p fun b a s => ∀ closed, (closed = true → startsWith (· == .kwElse) a = true) →
    DerivesStmt (.statement closed) b a s.unnumbered

abbrev SoundDeclaration (p : Parser (Option Stmt)) : Prop :=
  Sound true p fun b a found => ∃ s : Stmt, found = some s ∧
    DerivesStmt .declaration b a s.unnumbered

/-! ## Parts of statements -/

theorem sound_optionalExpression (bound : Nat) (without : TokenKind) :
    Sound true (optionalExpression bound without) fun b a e =>
      Optionally b a (e.map Expr.unnumbered) := by
  intro s stop
  apply (recognizes_sees _).then
  intro seen t ht
  cases seen with
  | true =>
      apply recognizes_pure
      rintro ⟨same, -⟩
      rw [same]
      exact .none
  | false =>
      apply (sound_expression true bound t (by rw [ht, stop])).then
      intro e u _
      apply recognizes_pure
      rintro derives ⟨same, -⟩
      rw [← same]
      exact .some derives

theorem sound_varDeclaration (bound : Nat) : Sound true (varDeclaration bound) fun b a s =>
    ∀ {keyword : Token}, keyword.kind = .kwVar → VarDecl (keyword :: b) a s.unnumbered := by
  intro s stop
  apply (sound_expect _ s stop).then
  intro name t ht
  apply (recognizes_accept? _).then
  intro found u hu
  cases found with
  | none =>
      apply (sound_skip _ u (by rw [hu, ht, stop])).then
      intro _ v _
      apply recognizes_pure
      rintro ⟨semicolon, rest, kind⟩ ⟨same, -⟩ ⟨front, isName⟩ keyword isVar
      rw [front, ← same, rest]
      exact .plain isVar isName kind
  | some equals =>
      have initializer : Recognizes true (some <$> Parser.expression bound) u fun e v =>
          ∃ e', e = some e' ∧ Derives true .expression u.tokens v.tokens e'.unnumbered := by
        apply recognizes_map
        apply (sound_expression true bound u (by rw [hu, ht, stop])).imp
        exact fun e _ derives => ⟨e, rfl, derives⟩
      apply initializer.then
      intro e v hv
      apply (sound_skip _ v (by rw [hv, hu, ht, stop])).then
      intro _ w _
      apply recognizes_pure
      rintro ⟨semicolon, rest, kind⟩ ⟨e, rfl, derives⟩ ⟨front, isEqual⟩ ⟨name, isName⟩ keyword isVar
      rw [name, front]
      rw [rest] at derives
      exact .initialized isVar isName (by simpa using isEqual) derives kind

theorem sound_expressionStatement (bound : Nat) :
    Sound true (expressionStatement bound) fun b a s => ExprStmt b a s.unnumbered := by
  intro s stop
  apply (sound_expression true bound s stop).then
  intro e t ht
  apply (sound_skip _ t (by rw [ht, stop])).then
  intro _ u _
  apply recognizes_pure
  rintro ⟨semicolon, rest, kind⟩ derives
  rw [rest] at derives
  exact .mk derives kind

/-! ## Functions, classes and blocks -/

theorem sound_declarations (h : SoundDeclaration declaration) (stops : TokenKind → Bool)
    (bound : Nat) : Sound true (many stops declaration bound) fun b a found =>
      DerivesStmt .declarations b a (stmtsUnnumbered (found.filterMap id)) ∧
        (b.length ≤ bound → endsList stops a = true) := by
  apply sound_many h
  · rintro b a found ⟨s, -, derives⟩
    exact derives.shorter
  · exact .noDeclaration
  · rintro b c a found rest ⟨s, rfl, derives⟩ list
    exact .declarations derives list

theorem sound_block (h : SoundDeclaration declaration) (bound : Nat) :
    Sound true (block bound declaration) fun b a body => ∃ stop : Token,
      stop.kind = .rightBrace ∧ DerivesStmt .declarations b (stop :: a) (stmtsUnnumbered body) := by
  intro s stop
  apply (sound_declarations h _ bound s stop).then
  intro found t ht
  apply (sound_skip _ t (by rw [ht, stop])).then
  intro _ u _
  apply recognizes_pure
  rintro ⟨close, rest, kind⟩ ⟨derives, -⟩
  rw [rest] at derives
  exact ⟨close, kind, derives⟩

theorem sound_parameters (bound : Nat) :
    Sound true (commaList .tooManyParameters (expect .parameterName) bound 0) fun b a names =>
      ParameterList b a names := by
  intro s stop
  have name : Sound true (expect .parameterName) _ := sound_expect _
  have list := sound_commaList name .tooManyParameters (L := Parameters)
    (fun {_ _ _} h => h.1 ▸ .last h.2)
    (fun {_ _ _ _ _ _} h kind rest => h.1 ▸ .more h.2 kind rest) bound 0
  apply (list s stop).imp
  intro names t h
  refine .some h.1 ?_
  rw [← Nat.zero_add names.length]
  exact h.2 rfl (Nat.zero_le _)

theorem recognizes_callableBody (h : SoundDeclaration declaration) (kind : CallableKind)
    (bound : Nat) {name : Token} {params : List Token} {s : State} (stop : s.stop.kind = .eof) :
    Recognizes true (do
      discard <| expect .paramsEnd
      discard <| expect (.callableBodyStart kind)
      return ⟨name, params, ← block bound declaration⟩) s fun f t =>
      ∀ {paren b}, name.kind = .identifier → paren.kind = .leftParen →
        ParameterList b s.tokens params →
        DerivesStmt .function (name :: paren :: b) t.tokens (functionUnnumbered f) := by
  apply (sound_skip _ s stop).then
  intro _ t ht
  apply (sound_skip _ t (by rw [ht, stop])).then
  intro _ u hu
  apply (sound_block h bound u (by rw [hu, ht, stop])).then
  intro body v _
  apply recognizes_pure
  rintro ⟨close, isClose, derives⟩ ⟨start, startRest, isStart⟩ ⟨end', endRest, isEnd⟩ paren b isName
    isParen list
  rw [endRest, startRest] at list
  exact .function isName isParen list isEnd isStart derives isClose

theorem sound_callable (h : SoundDeclaration declaration) (kind : CallableKind) (bound : Nat) :
    Sound true (callable kind bound declaration) fun b a f =>
      DerivesStmt .function b a (functionUnnumbered f) := by
  intro s stop
  apply (sound_expect _ s stop).then
  intro name t ht
  apply (sound_skip _ t (by rw [ht, stop])).then
  intro _ u hu
  apply (recognizes_sees _).then
  intro closed v hv
  have stop : v.stop.kind = .eof := by rw [hv, hu, ht, stop]
  cases closed with
  | true =>
      apply (recognizes_callableBody h kind bound stop).imp
      rintro f w body ⟨same, -⟩ ⟨paren, rest, isParen⟩ ⟨front, isName⟩
      rw [front, rest, ← same]
      exact body isName isParen .none
  | false =>
      apply (sound_parameters bound v stop).then
      intro params w hw
      apply (recognizes_callableBody h kind bound (by rw [hw, stop])).imp
      rintro f x body list ⟨same, -⟩ ⟨paren, rest, isParen⟩ ⟨front, isName⟩
      rw [front, rest, ← same]
      exact body isName isParen list

theorem sound_superclass? : Sound true superclass? fun b a name =>
    Superclass b a (name.map Occurrence.unnumbered) := by
  intro s stop
  apply (recognizes_accept? _).then
  intro found t ht
  cases found with
  | none =>
      apply recognizes_pure
      rintro ⟨same, -⟩
      rw [same]
      exact .none
  | some less =>
      apply (sound_expect _ t (by rw [ht, stop])).then
      intro name u _
      apply recognizes_freshId.then
      intro i v _
      apply recognizes_pure
      rintro same ⟨rest, isName⟩ ⟨front, isLess⟩
      rw [front, rest, ← same]
      exact .some (by simpa using isLess) isName

theorem sound_methods (h : SoundDeclaration declaration) (stops : TokenKind → Bool) (bound : Nat) :
    Sound true (many stops (callable .method bound declaration) bound) fun b a methods =>
      DerivesStmt .functions b a (methodsUnnumbered methods) := by
  intro s stop
  have item := sound_callable h .method bound
  have list : Sound true (many stops (callable .method bound declaration) bound) _ :=
    sound_many item (fun derives => derives.shorter)
      (L := fun b a methods => DerivesStmt .functions b a (methodsUnnumbered methods))
      .noFunction .functions bound
  apply (list s stop).imp
  exact fun _ _ methods => methods.1

theorem sound_classDeclaration (h : SoundDeclaration declaration) (bound : Nat) :
    Sound true (classDeclaration bound declaration) fun b a s =>
      ∀ {keyword : Token}, keyword.kind = .kwClass →
        DerivesStmt .declaration (keyword :: b) a s.unnumbered := by
  intro s stop
  apply (sound_expect _ s stop).then
  intro name t ht
  apply (sound_superclass? t (by rw [ht, stop])).then
  intro superclass u hu
  apply (sound_skip _ u (by rw [hu, ht, stop])).then
  intro _ v hv
  apply (sound_methods h _ bound v (by rw [hv, hu, ht, stop])).then
  intro methods w hw
  apply (sound_skip _ w (by rw [hw, hv, hu, ht, stop])).then
  intro _ x _
  apply recognizes_pure
  rintro ⟨close, closeRest, isClose⟩ methods ⟨start, startRest, isStart⟩ superclass ⟨front, isName⟩
    keyword isClass
  rw [closeRest] at methods
  rw [startRest] at superclass
  rw [front]
  exact .classDecl isClass isName superclass isStart methods isClose

/-! ## Statements -/

abbrev SoundBehind (keyword : Token) (p : Parser Stmt) : Prop :=
  Sound true p fun b a s => opensStatement keyword.kind = true → ∀ closed,
    (closed = true → startsWith (· == .kwElse) a = true) →
      DerivesStmt (.statement closed) (keyword :: b) a s.unnumbered

theorem sound_forInitializer (bound : Nat) : Sound true (forInitializer bound) fun b a first =>
    ForFirst b a (first.map Stmt.unnumbered) := by
  intro s stop
  apply (recognizes_accept? _).then
  intro found t ht
  cases found with
  | none =>
      apply (sound_expressionStatement bound t (by rw [ht, stop])).then
      intro first u _
      apply recognizes_pure
      rintro derives ⟨same, -⟩
      rw [← same]
      exact .exprStmt derives
  | some keyword =>
      dsimp only
      split
      · rename_i semicolon
        apply recognizes_pure
        rintro ⟨front, -⟩
        rw [front]
        exact .none (by simpa using semicolon)
      · rename_i other
        apply (sound_varDeclaration bound t (by rw [ht, stop])).then
        intro first u _
        apply recognizes_pure
        rintro derives ⟨front, wanted⟩
        have isVar : keyword.kind = .kwVar := by simpa [other] using wanted
        rw [front]
        exact .varDecl (derives isVar)

theorem sound_forStatement (h : SoundStatement statement) {keyword : Token}
    (kind : keyword.kind = .kwFor) (bound : Nat) :
    SoundBehind keyword (forStatement keyword bound statement) := by
  intro s stop
  apply (sound_skip _ s stop).then
  intro _ t ht
  apply (sound_forInitializer bound t (by rw [ht, stop])).then
  intro first u hu
  apply (sound_optionalExpression bound _ u (by rw [hu, ht, stop])).then
  intro condition v hv
  apply (sound_skip _ v (by rw [hv, hu, ht, stop])).then
  intro _ w hw
  have stop : w.stop.kind = .eof := by rw [hw, hv, hu, ht, stop]
  apply (sound_optionalExpression bound _ w stop).then
  intro increment x hx
  apply (sound_skip _ x (by rw [hx, stop])).then
  intro _ y hy
  apply (h y (by rw [hy, hx, stop])).then
  intro body z _
  have tree : Recognizes true (pure (forTree keyword first condition body increment)) z
      fun s a => s = forTree keyword first condition body increment ∧ a = z :=
    recognizes_pure ⟨rfl, rfl⟩
  apply Recognizes.imp (Q := fun s a => s = forTree keyword first condition body increment ∧ a = z)
  · cases first <;> exact tree
  · rintro _ _ ⟨rfl, rfl⟩ derives ⟨close, closeRest, isClose⟩ increment
      ⟨semicolon, semicolonRest, isSemicolon⟩ condition first ⟨paren, rest, isParen⟩ - closed
      nearest
    rw [semicolonRest] at condition
    rw [closeRest] at increment
    rw [rest, forTree_unnumbered]
    exact .forStmt kind isParen first condition isSemicolon increment isClose
      (derives closed nearest)

theorem sound_ifStatement (h : SoundStatement statement) {keyword : Token}
    (kind : keyword.kind = .kwIf) (bound : Nat) :
    SoundBehind keyword (ifStatement bound statement) := by
  intro s stop
  apply (sound_skip _ s stop).then
  intro _ t ht
  apply (sound_expression true bound t (by rw [ht, stop])).then
  intro condition u hu
  apply (sound_skip _ u (by rw [hu, ht, stop])).then
  intro _ v hv
  have stop : v.stop.kind = .eof := by rw [hv, hu, ht, stop]
  apply (h v stop).then
  intro thenBranch w hw
  apply (recognizes_accept? _).then
  intro found x hx
  cases found with
  | none =>
      apply recognizes_pure
      rintro ⟨same, other⟩ thenBranch ⟨close, closeRest, isClose⟩ condition ⟨paren, rest, isParen⟩
        - closed nearest
      rw [closeRest] at condition
      rw [rest, same]
      -- a closed statement would have an `else` behind it
      cases closed with
      | true => simp [same, other] at nearest
      | false => exact .ifStmt kind isParen condition isClose (thenBranch false nofun)
  | some other =>
      apply (h x (by rw [hx, hw, stop])).then
      intro elseBranch y _
      apply recognizes_pure
      rintro elseBranch ⟨front, isElse⟩ thenBranch ⟨close, closeRest, isClose⟩ condition
        ⟨paren, rest, isParen⟩ - closed nearest
      rw [front] at thenBranch
      rw [closeRest] at condition
      rw [rest]
      exact .ifElse kind isParen condition isClose (thenBranch true fun _ => isElse)
        (by simpa using isElse) (elseBranch closed nearest)

theorem sound_whileStatement (h : SoundStatement statement) {keyword : Token}
    (kind : keyword.kind = .kwWhile) (bound : Nat) :
    SoundBehind keyword (whileStatement bound statement) := by
  intro s stop
  apply (sound_skip _ s stop).then
  intro _ t ht
  apply (sound_expression true bound t (by rw [ht, stop])).then
  intro condition u hu
  apply (sound_skip _ u (by rw [hu, ht, stop])).then
  intro _ v hv
  apply (h v (by rw [hv, hu, ht, stop])).then
  intro body w _
  apply recognizes_pure
  rintro body ⟨close, closeRest, isClose⟩ condition ⟨paren, rest, isParen⟩ - closed nearest
  rw [closeRest] at condition
  rw [rest]
  exact .whileStmt kind isParen condition isClose (body closed nearest)

theorem sound_keywordStatement (hd : SoundDeclaration declaration) (hs : SoundStatement statement)
    (keyword : Token) (bound : Nat) :
    SoundBehind keyword (keywordStatement keyword bound declaration statement) := by
  intro s stop
  unfold keywordStatement
  split
  · rename_i kind
    exact sound_forStatement hs kind bound s stop
  · rename_i kind
    exact sound_ifStatement hs kind bound s stop
  · rename_i kind
    exact sound_whileStatement hs kind bound s stop
  · rename_i kind
    apply (sound_optionalExpression bound _ s stop).then
    intro value t ht
    apply (sound_skip _ t (by rw [ht, stop])).then
    intro _ u _
    apply recognizes_pure
    rintro ⟨semicolon, rest, isSemicolon⟩ value - closed -
    rw [rest] at value
    exact .returnStmt kind value isSemicolon
  · rename_i kind
    apply (sound_skip _ s stop).then
    intro _ t _
    apply recognizes_pure
    rintro ⟨semicolon, rest, isSemicolon⟩ - closed -
    rw [rest]
    exact .breakStmt kind isSemicolon
  · rename_i kind
    apply (sound_skip _ s stop).then
    intro _ t _
    apply recognizes_pure
    rintro ⟨semicolon, rest, isSemicolon⟩ - closed -
    rw [rest]
    exact .continueStmt kind isSemicolon
  · rename_i kind
    apply (sound_expression true bound s stop).then
    intro e t ht
    apply (sound_skip _ t (by rw [ht, stop])).then
    intro _ u _
    apply recognizes_pure
    rintro ⟨semicolon, rest, isSemicolon⟩ derives - closed -
    rw [rest] at derives
    exact .printStmt kind derives isSemicolon
  · rename_i notFor notIf notWhile notReturn notBreak notContinue notPrint
    apply (sound_block hd bound s stop).then
    intro body t _
    apply recognizes_pure
    rintro ⟨close, isClose, derives⟩ opens closed -
    have kind : keyword.kind = .leftBrace := by
      unfold opensStatement at opens
      split at opens <;> first | contradiction | assumption
    exact .block kind derives isClose

theorem sound_statementRule (hd : SoundDeclaration declaration) (hs : SoundStatement statement)
    (bound : Nat) : SoundStatement (statementRule bound declaration statement) := by
  intro s stop
  apply (recognizes_accept? _).then
  intro found t ht
  cases found with
  | none =>
      apply (sound_expressionStatement bound t (by rw [ht, stop])).imp
      rintro s u derives ⟨same, -⟩ closed -
      rw [← same]
      exact .exprStmt derives
  | some keyword =>
      apply (sound_keywordStatement hd hs keyword bound t (by rw [ht, stop])).imp
      rintro s u derives ⟨front, opens⟩
      rw [front]
      exact derives opens

/-! ## Declarations and programs -/

theorem sound_declarationRule (hd : SoundDeclaration declaration) (hs : SoundStatement statement)
    (bound : Nat) : Sound true (declarationRule bound declaration statement) fun b a s =>
      DerivesStmt .declaration b a s.unnumbered := by
  intro s stop
  apply (recognizes_accept? _).then
  intro found t ht
  have stop : t.stop.kind = .eof := by rw [ht, stop]
  cases found with
  | none =>
      apply (sound_statementRule hd hs bound t stop).imp
      rintro s u derives ⟨same, -⟩
      rw [← same]
      exact .statement (derives false nofun)
  | some keyword =>
      dsimp only
      split
      · rename_i kind
        apply (sound_classDeclaration hd bound t stop).imp
        rintro s u derives ⟨front, -⟩
        rw [front]
        exact derives kind
      · rename_i kind
        apply recognizes_map
        apply (sound_callable hd .function bound t stop).imp
        rintro f u derives ⟨front, -⟩
        rw [front]
        exact .funDecl kind derives
      · rename_i notClass notFun
        apply (sound_varDeclaration bound t stop).imp
        rintro s u derives ⟨front, wanted⟩
        have kind : keyword.kind = .kwVar := by simp_all
        rw [front]
        exact .varDecl (derives kind)

theorem sound_recovering {p : Parser Stmt}
    (h : Sound true p fun b a s => DerivesStmt .declaration b a s.unnumbered) :
    SoundDeclaration (recovering p) :=
  fun s stop => recognizes_recovering (h s stop)

theorem sound_nested (bound : Nat) :
    SoundDeclaration (Parser.declaration bound) ∧ SoundStatement (Parser.statement bound) := by
  induction bound with
  | zero =>
      exact ⟨sound_recovering fun s _ => recognizes_noExpression,
        fun s _ => recognizes_noExpression⟩
  | succ bound ih =>
      exact ⟨sound_recovering (sound_declarationRule ih.1 ih.2 (bound + 1)),
        sound_statementRule ih.1 ih.2 (bound + 1)⟩

theorem sound_program (bound : Nat) : Sound true (Parser.program bound) fun b a p =>
    DerivesStmt .declarations b a (stmtsUnnumbered p) ∧ (b.length ≤ bound → a = []) := by
  intro s stop
  apply (sound_declarations (sound_nested bound).1 _ bound s stop).then
  intro found t _
  apply recognizes_pure
  rintro ⟨derives, ends⟩
  refine ⟨derives, fun short => ?_⟩
  have := ends short
  cases tokens : t.tokens with
  | nil => rfl
  | cons first rest => simp [tokens, endsList] at this

end ClassScript.Grammar
