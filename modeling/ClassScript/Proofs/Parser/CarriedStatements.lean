import ClassScript.Proofs.Parser.CarriedExpressions

namespace ClassScript.Parser

open Grammar

variable {w : Surroundings} {s t : State} {declaration declaration' : Parser (Option Stmt)}
  {statement statement' : Parser Stmt} {k k' n : Nat}

abbrev anyKind (_ : TokenKind) : Bool := true

abbrev CarriesStmt (w : Surroundings) (m : Mode) (p p' : Parser Stmt) (s : State) : Prop :=
  Carries w anyKind m (Stmt.shifted w.ids) p p' s

theorem carries_nestedExpression (stop : s.stop.kind = .eof) (fits : w.Fits k k' s) :
    Carries w anyKind ⟨true, false⟩ (Expr.shifted w.ids) (expression k) (expression k') s :=
  (carries_expression k k' stop fits).loosen fun _ _ => rfl

/-! ## Simple statements -/

theorem carries_optionalExpression (without : TokenKind) (stop : s.stop.kind = .eof)
    (fits : w.Fits k k' s) :
    Carries w anyKind ⟨false, false⟩ (Option.map (Expr.shifted w.ids))
      (optionalExpression k without) (optionalExpression k' without) s := by
  apply Carries.at
  · apply carries_sees (m := ⟨false, false⟩)
    · exact fun _ => (carries_pure none).at rfl
    · intro _
      apply (carries_nestedExpression stop fits).then
      exact fun e _ _ _ => carries_pure (some e)
    · exact nofun
  · rfl

theorem carries_varDeclaration (stop : s.stop.kind = .eof) (fits : w.Fits k k' s) :
    CarriesStmt w ⟨true, true⟩ (varDeclaration k) (varDeclaration k') s := by
  unfold varDeclaration
  apply Carries.at
  · apply (carries_expect .variableName rfl).then
    intro name t ht _
    have done (e : Option Expr) (u : State) : CarriesStmt w ⟨true, true⟩
        (do discard <| expect .varDeclEnd; return .varDecl name e)
        (do discard <| expect .varDeclEnd; return .varDecl name (e.map (Expr.shifted w.ids))) u := by
      apply Carries.at
      · apply (carries_skip .varDeclEnd rfl).then
        exact fun _ _ _ _ => carries_pure (Stmt.varDecl name e)
      · rfl
    apply carries_accept? (fun _ _ => rfl)
    · intro token rest tokens _
      have taken := ht.trans (takes_one tokens rfl)
      have initializer : Carries w anyKind ⟨true, false⟩ (Option.map (Expr.shifted w.ids))
          (some <$> expression k) (some <$> expression k') { t with tokens := rest } :=
        (carries_nestedExpression (taken.stop ▸ stop) (fits.takes taken)).map fun _ => rfl
      exact initializer.then fun e u _ _ => done e u
    · exact fun _ => done none t
    · exact fun _ => .inl rfl
  · rfl

theorem carries_expressionStatement (stop : s.stop.kind = .eof) (fits : w.Fits k k' s) :
    CarriesStmt w ⟨true, true⟩ (expressionStatement k) (expressionStatement k') s := by
  apply Carries.at
  · apply (carries_nestedExpression stop fits).then
    intro e _ _ _
    apply (carries_skip .expressionEnd rfl).then
    exact fun _ _ _ _ => carries_pure (Stmt.expression e)
  · rfl

theorem carries_forInitializer (stop : s.stop.kind = .eof) (fits : w.Fits k k' s) :
    Carries w anyKind ⟨true, true⟩ (Option.map (Stmt.shifted w.ids)) (forInitializer k)
      (forInitializer k') s := by
  apply Carries.at
  · apply carries_accept? (m := ⟨false, true⟩) (fun _ _ => rfl)
    · intro token rest tokens _
      have taken : s.Takes anyKind _ := takes_one tokens rfl
      dsimp only
      split
      · exact carries_pure none
      · apply Carries.at
        · apply (carries_varDeclaration (s := { s with tokens := rest }) stop (fits.takes taken)).then
          exact fun stmt _ _ _ => carries_pure (some stmt)
        · rfl
    · intro _
      apply (carries_expressionStatement stop fits).then
      exact fun stmt _ _ _ => carries_pure (some stmt)
    · exact fun _ => .inl rfl
  · rfl

/-! ## Statements -/

section

variable (h : ∀ s, s.stop.kind = .eof → s.tokens.length < n →
  CarriesStmt w ⟨true, true⟩ statement statement' s)

include h

theorem carries_forStatement (keyword : Token) (stop : s.stop.kind = .eof)
    (short : s.tokens.length < n) (fits : w.Fits k k' s) :
    CarriesStmt w ⟨true, true⟩ (forStatement keyword k statement)
      (forStatement keyword k' statement') s := by
  apply Carries.at
  · apply (carries_skip .forStart rfl).then
    intro _ t ht _
    apply (carries_forInitializer (ht.stop ▸ stop) (fits.takes ht)).then
    intro first u hu _
    have hu := ht.trans hu
    apply (carries_optionalExpression .semicolon (hu.stop ▸ stop) (fits.takes hu)).then
    intro condition v hv _
    have hv := hu.trans hv
    apply (carries_skip .loopConditionEnd rfl).then
    intro _ x hx _
    have hx := hv.trans hx
    apply (carries_optionalExpression .rightParen (hx.stop ▸ stop) (fits.takes hx)).then
    intro increment y hy _
    have hy := hx.trans hy
    apply (carries_skip .forClausesEnd rfl).then
    intro _ z hz _
    have hz := hy.trans hz
    apply (h z (hz.stop ▸ stop) (Nat.lt_of_le_of_lt hz.length_le short)).then
    intro body _ _ _
    have shifted : (condition.map (Expr.shifted w.ids)).getD (.literal (.bool true) keyword.line) =
        (condition.getD (.literal (.bool true) keyword.line)).shifted w.ids := by
      cases condition <;> rfl
    cases first with
    | none => exact carries_return (by simp only [Stmt.shifted, shifted])
    | some first =>
        exact carries_return (by simp only [Stmt.shifted, stmtsShifted, shifted])
  · rfl

theorem carries_ifStatement (noElse : startsWith (· == .kwElse) w.behind = false)
    (stop : s.stop.kind = .eof) (short : s.tokens.length < n) (fits : w.Fits k k' s) :
    CarriesStmt w ⟨true, true⟩ (ifStatement k statement) (ifStatement k' statement') s := by
  apply Carries.at
  · apply (carries_skip .ifStart rfl).then
    intro _ t ht _
    apply (carries_nestedExpression (ht.stop ▸ stop) (fits.takes ht)).then
    intro condition u hu _
    have hu := ht.trans hu
    apply (carries_skip .ifConditionEnd rfl).then
    intro _ v hv _
    have hv := hu.trans hv
    apply (h v (hv.stop ▸ stop) (Nat.lt_of_le_of_lt hv.length_le short)).then
    intro thenBranch x hx _
    have hx := hv.trans hx
    apply carries_accept? (fun _ _ => rfl)
    · intro token rest tokens _
      have taken := hx.trans (takes_one tokens rfl)
      apply (h _ (taken.stop ▸ stop) (Nat.lt_of_le_of_lt taken.length_le short)).then
      exact fun other _ _ _ => carries_pure (Stmt.branch condition thenBranch (some other))
    · exact fun _ => carries_pure (Stmt.branch condition thenBranch none)
    · exact fun _ => .inr noElse
  · rfl

theorem carries_whileStatement (stop : s.stop.kind = .eof) (short : s.tokens.length < n)
    (fits : w.Fits k k' s) :
    CarriesStmt w ⟨true, true⟩ (whileStatement k statement) (whileStatement k' statement') s := by
  apply Carries.at
  · apply (carries_skip .whileStart rfl).then
    intro _ t ht _
    apply (carries_nestedExpression (ht.stop ▸ stop) (fits.takes ht)).then
    intro condition u hu _
    have hu := ht.trans hu
    apply (carries_skip .whileConditionEnd rfl).then
    intro _ v hv _
    have hv := hu.trans hv
    apply (h v (hv.stop ▸ stop) (Nat.lt_of_le_of_lt hv.length_le short)).then
    exact fun body _ _ _ => carries_pure (Stmt.loop condition body none)
  · rfl

end

/-! ## Functions and classes -/

def NestedDecls (w : Surroundings) (n : Nat) (declaration declaration' : Parser (Option Stmt)) :
    Prop :=
  ∀ s, s.stop.kind = .eof → s.tokens.length < n → s.tokens ≠ [] →
    Carries w anyKind ⟨true, false⟩ (Option.map (Stmt.shifted w.ids)) declaration declaration' s

theorem stmtsShifted_filterMap (i : Nat) (found : List (Option Stmt)) :
    (found.map (Option.map (Stmt.shifted i))).filterMap id = stmtsShifted i (found.filterMap id) := by
  rw [stmtsShifted_eq, List.map_filterMap, List.filterMap_map]
  rfl

theorem carries_parameters (count : Nat) (stop : s.stop.kind = .eof) (fits : w.Fits k k' s) :
    Carries w anyKind ⟨true, false⟩ (List.map id)
      (commaList .tooManyParameters (expect .parameterName) k count)
      (commaList .tooManyParameters (expect .parameterName) k' count) s := by
  have parameter (t : State) (_ : t.stop.kind = .eof) (_ : t.tokens.length < s.tokens.length + 1) :
      Carries w anyKind ⟨true, false⟩ id (expect .parameterName) (expect .parameterName) t :=
    (carries_expect .parameterName rfl).at rfl
  exact carries_commaList rfl .tooManyParameters parameter k k' count stop (Nat.lt_succ_self _) fits

theorem carries_superclass? :
    Carries w anyKind ⟨false, false⟩ (Option.map (Occurrence.shifted w.ids)) superclass? superclass?
      s := by
  apply Carries.at
  · apply carries_accept? (fun _ _ => rfl)
    · intro _ _ _ _
      apply (carries_expect .superclassName rfl).then
      intro name _ _ _
      apply carries_freshId.then
      exact fun i _ _ _ => carries_pure (some (Occurrence.mk i name))
    · exact fun _ => (carries_pure none).at (n := ⟨false, false⟩) rfl
    · exact nofun
  · rfl

section

variable (h : NestedDecls w n declaration declaration')

include h

theorem carries_block (stop : s.stop.kind = .eof) (short : s.tokens.length < n)
    (fits : w.Fits k k' s) :
    Carries w anyKind ⟨true, true⟩ (stmtsShifted w.ids) (block k declaration)
      (block k' declaration') s := by
  apply Carries.at
  · have nested (t : State) (stop : t.stop.kind = .eof) (le : t.tokens.length ≤ s.tokens.length) :=
      h t stop (Nat.lt_of_le_of_lt le short)
    apply (carries_many (· == .rightBrace) nested k k' stop (Nat.le_refl _) fits).then
    intro found _ _ _
    apply (carries_skip .blockEnd rfl).then
    exact fun _ _ _ _ => carries_return (stmtsShifted_filterMap w.ids found)
  · rfl

theorem carries_callable (kind : CallableKind) (stop : s.stop.kind = .eof)
    (short : s.tokens.length < n) (fits : w.Fits k k' s) :
    Carries w anyKind ⟨true, true⟩ (functionShifted w.ids) (callable kind k declaration)
      (callable kind k' declaration') s := by
  apply Carries.at
  · apply (carries_expect (.callableName kind) rfl).then
    intro name t ht _
    apply (carries_skip (.paramsStart kind) rfl).then
    intro _ u hu _
    have hu := ht.trans hu
    have body (params : List Token) (v : State) (hv : s.Takes anyKind v) :
        Carries w anyKind ⟨true, true⟩ (functionShifted w.ids)
          (do
            discard <| expect .paramsEnd
            discard <| expect (.callableBodyStart kind)
            return ⟨name, params, ← block k declaration⟩)
          (do
            discard <| expect .paramsEnd
            discard <| expect (.callableBodyStart kind)
            return ⟨name, params, ← block k' declaration'⟩) v := by
      apply Carries.at
      · apply (carries_skip .paramsEnd rfl).then
        intro _ x hx _
        have hx := hv.trans hx
        apply (carries_skip (.callableBodyStart kind) rfl).then
        intro _ y hy _
        have hy := hx.trans hy
        apply (carries_block h (hy.stop ▸ stop) (Nat.lt_of_le_of_lt hy.length_le short)
          (fits.takes hy)).then
        exact fun stmts _ _ _ => carries_pure (FunctionDecl.mk name params stmts)
      · rfl
    apply carries_sees (m := ⟨true, true⟩) (n := ⟨true, true⟩)
    · exact fun _ => body [] u hu
    · intro _
      apply Carries.at
      · apply (carries_parameters 0 (hu.stop ▸ stop) (fits.takes hu)).then
        intro params v hv _
        rw [List.map_id]
        exact body params v (hu.trans hv)
      · rfl
    · exact fun _ => rfl
  · rfl

theorem carries_classDeclaration (stop : s.stop.kind = .eof) (short : s.tokens.length < n)
    (fits : w.Fits k k' s) :
    CarriesStmt w ⟨true, true⟩ (classDeclaration k declaration) (classDeclaration k' declaration')
      s := by
  apply Carries.at
  · apply (carries_expect .className rfl).then
    intro name t ht _
    apply carries_superclass?.then
    intro superclass u hu _
    have hu := ht.trans hu
    apply (carries_skip .classBodyStart rfl).then
    intro _ v hv _
    have hv := hu.trans hv
    have method (x : State) (stop : x.stop.kind = .eof) (le : x.tokens.length ≤ v.tokens.length)
        (_ : x.tokens ≠ []) :
        Carries w anyKind ⟨true, false⟩ (functionShifted w.ids) (callable .method k declaration)
          (callable .method k' declaration') x := by
      have le := Nat.le_trans le hv.length_le
      exact (carries_callable h .method stop (Nat.lt_of_le_of_lt le short) (fits.le le)).at rfl
    apply (carries_many (· == .rightBrace) method k k' (hv.stop ▸ stop) (Nat.le_refl _)
      (fits.takes hv)).then
    intro methods _ _ _
    apply (carries_skip .classBodyEnd rfl).then
    intro _ _ _ _
    rw [← methodsShifted_eq]
    exact carries_pure (Stmt.classDecl ⟨name, superclass, methods⟩)
  · rfl

end

/-! ## Statements and declarations in general -/

structure NestedStmts (w : Surroundings) (n : Nat) (declaration declaration' : Parser (Option Stmt))
    (statement statement' : Parser Stmt) : Prop where
  declaration : NestedDecls w n declaration declaration'
  statement : ∀ s, s.stop.kind = .eof → s.tokens.length < n →
    CarriesStmt w ⟨true, true⟩ statement statement' s

section

variable (h : NestedStmts w n declaration declaration' statement statement')
  (noElse : startsWith (· == .kwElse) w.behind = false)

include h noElse

theorem carries_keywordStatement (keyword : Token) (stop : s.stop.kind = .eof)
    (short : s.tokens.length < n) (fits : w.Fits k k' s) :
    CarriesStmt w ⟨true, true⟩ (keywordStatement keyword k declaration statement)
      (keywordStatement keyword k' declaration' statement') s := by
  unfold keywordStatement
  split
  · exact carries_forStatement h.statement keyword stop short fits
  · exact carries_ifStatement h.statement noElse stop short fits
  · exact carries_whileStatement h.statement stop short fits
  · apply Carries.at
    · apply (carries_optionalExpression .semicolon stop fits).then
      intro value _ _ _
      apply (carries_skip .returnEnd rfl).then
      exact fun _ _ _ _ => carries_pure (Stmt.return keyword value)
    · rfl
  · apply Carries.at
    · apply (carries_skip .breakEnd rfl).then
      exact fun _ _ _ _ => carries_pure (Stmt.break keyword)
    · rfl
  · apply Carries.at
    · apply (carries_skip .continueEnd rfl).then
      exact fun _ _ _ _ => carries_pure (Stmt.continue keyword)
    · rfl
  · apply Carries.at
    · apply (carries_nestedExpression stop fits).then
      intro e _ _ _
      apply (carries_skip .printEnd rfl).then
      exact fun _ _ _ _ => carries_pure (Stmt.print e)
    · rfl
  · apply Carries.at
    · apply (carries_block h.declaration stop short fits).then
      exact fun body _ _ _ => carries_pure (Stmt.block body keyword.line)
    · rfl

theorem carries_statementRule (stop : s.stop.kind = .eof) (short : s.tokens.length ≤ n)
    (fits : w.Fits k k' s) :
    CarriesStmt w ⟨true, true⟩ (statementRule k declaration statement)
      (statementRule k' declaration' statement') s := by
  apply carries_accept? (m := ⟨true, true⟩) (n := ⟨true, true⟩) (fun _ _ => rfl)
  · intro keyword rest tokens _
    have fewer : rest.length < s.tokens.length := by simp [tokens]
    exact carries_keywordStatement h noElse keyword stop (Nat.lt_of_lt_of_le fewer short)
      (fits.le (Nat.le_of_lt fewer))
  · exact fun _ => carries_expressionStatement stop fits
  · exact fun _ => .inl rfl

theorem carries_declarationRule (stop : s.stop.kind = .eof) (short : s.tokens.length ≤ n)
    (fits : w.Fits k k' s) :
    CarriesStmt w ⟨true, true⟩ (declarationRule k declaration statement)
      (declarationRule k' declaration' statement') s := by
  apply carries_accept? (m := ⟨true, true⟩) (n := ⟨true, true⟩) (fun _ _ => rfl)
  · intro keyword rest tokens _
    have fewer : rest.length < s.tokens.length := by simp [tokens]
    have short := Nat.lt_of_lt_of_le fewer short
    have fits := fits.le (t := { s with tokens := rest }) (Nat.le_of_lt fewer)
    dsimp only
    split
    · exact carries_classDeclaration h.declaration stop short fits
    · exact Carries.map (carries_callable h.declaration .function stop short fits) fun _ => rfl
    · exact carries_varDeclaration stop fits
  · exact fun _ => carries_statementRule h noElse stop short fits
  · exact fun _ => .inl rfl

end

/-! ## Recovery -/

theorem resumeAfter_append (skipped : Token) (tokens behind : List Token)
    (stops : resumeAfter skipped tokens ≠ []) :
    resumeAfter skipped (tokens ++ behind) = resumeAfter skipped tokens ++ behind := by
  induction tokens generalizing skipped with
  | nil => exact absurd rfl stops
  | cons t rest ih =>
      rw [resumeAfter] at stops
      rw [List.cons_append, resumeAfter, resumeAfter]
      split
      · rfl
      · rename_i goesOn
        rw [if_neg goesOn] at stops
        exact ih t stops

theorem resume_append (tokens behind : List Token) (stops : resume tokens ≠ []) :
    resume (tokens ++ behind) = resume tokens ++ behind := by
  cases tokens with
  | nil => exact absurd rfl stops
  | cons t rest => exact resumeAfter_append t rest behind stops

theorem resume_length (tokens : List Token) (some : tokens ≠ []) :
    (resume tokens).length < tokens.length := by
  cases tokens with
  | nil => exact absurd rfl some
  | cons t rest => exact Nat.lt_succ_of_le (resumeAfter_suffix t rest).length_le

theorem carries_recovering {α β : Type} {p : Parser α} {p' : Parser β} {f : α → β}
    (h : Carries w anyKind ⟨true, true⟩ f p p' s) (some : s.tokens ≠ []) :
    Carries w anyKind ⟨true, false⟩ (Option.map f) (recovering p) (recovering p') s := by
  unfold Carries Ends recovering at *
  cases run : p s with
  | ok a t =>
      rw [run] at h
      refine ⟨h.1, h.2.1, fun _ => ?_⟩
      rw [h.2.2 (.inl rfl)]
      rfl
  | error e t =>
      rw [run] at h
      obtain ⟨takes, carried⟩ := h
      have resumed : t.Advances { t with tokens := resume t.tokens, recorded := t.recorded ++ [e] } :=
        ⟨resume_suffix _, rfl, Nat.le_refl _, List.prefix_append _ _⟩
      refine ⟨⟨takes.toAdvances.trans resumed, fun _ _ _ _ => rfl⟩, fun _ => ?_, fun shown => ?_⟩
      · cases tokens : t.tokens with
        | nil => exact List.length_pos_iff.mpr some
        | cons token rest =>
            have fewer := resume_length t.tokens (by simp [tokens])
            rw [tokens] at fewer
            have notMore := takes.length_le
            rw [tokens] at notMore
            exact Nat.lt_of_lt_of_le fewer notMore
      · have hidden : w.Hidden { t with tokens := resume t.tokens, recorded := t.recorded ++ [e] } :=
          shown.resolve_left nofun
        rw [carried (hidden.before resumed)]
        have resumes : resume (t.tokens ++ w.behind) = resume t.tokens ++ w.behind := by
          rcases hidden with stops | ⟨nothing, _⟩
          · exact resume_append t.tokens w.behind stops
          · rw [nothing, List.append_nil, List.append_nil]
        simp only [Surroundings.place, resumes, List.append_assoc]
        rfl

/-! ## The knot -/

theorem stuck_statement (k : Nat) : Stuck (Parser.statement k) := by
  cases k with
  | zero => exact stuck_noExpression
  | succ k => exact Stuck.missed ((stuck_expression (k + 1)).then _) _

theorem carries_nested (noElse : startsWith (· == .kwElse) w.behind = false) (k k' : Nat)
    {s : State} (stop : s.stop.kind = .eof) (fits : w.Fits k k' s) :
    CarriesStmt w ⟨true, true⟩ (Parser.statement k) (Parser.statement k') s ∧
      (s.tokens ≠ [] → Carries w anyKind ⟨true, false⟩ (Option.map (Stmt.shifted w.ids))
        (Parser.declaration k) (Parser.declaration k') s) := by
  induction k generalizing k' s with
  | zero =>
      exact ⟨carries_stuck (stuck_statement 0) (stuck_statement k') fits.empty stop,
        fun some => absurd fits.empty some⟩
  | succ k ih =>
      cases k' with
      | zero =>
          exact ⟨carries_stuck (stuck_statement (k + 1)) (stuck_statement 0) fits.empty' stop,
            fun some => absurd fits.empty' some⟩
      | succ k' =>
          have nested : NestedStmts w s.tokens.length (Parser.declaration k) (Parser.declaration k')
              (Parser.statement k) (Parser.statement k') :=
            ⟨fun t stop' fewer => (ih k' stop' (fits.fewer fewer)).2,
              fun t stop' fewer => (ih k' stop' (fits.fewer fewer)).1⟩
          exact ⟨carries_statementRule nested noElse stop (Nat.le_refl _) fits, fun some =>
            carries_recovering (carries_declarationRule nested noElse stop (Nat.le_refl _) fits) some⟩

theorem carries_rule (noElse : startsWith (· == .kwElse) w.behind = false)
    (stop : s.stop.kind = .eof) (fits : w.Fits (k + 1) (k' + 1) s) :
    CarriesStmt w ⟨true, true⟩
      (declarationRule (k + 1) (Parser.declaration k) (Parser.statement k))
      (declarationRule (k' + 1) (Parser.declaration k') (Parser.statement k')) s := by
  have nested : NestedStmts w s.tokens.length (Parser.declaration k) (Parser.declaration k')
      (Parser.statement k) (Parser.statement k') :=
    ⟨fun t stop' fewer => (carries_nested noElse k k' stop' (fits.fewer fewer)).2,
      fun t stop' fewer => (carries_nested noElse k k' stop' (fits.fewer fewer)).1⟩
  exact carries_declarationRule nested noElse stop (Nat.le_refl _) fits

section

variable {m m' : Nat} (noElse : startsWith (· == .kwElse) w.behind = false)
  (stop : s.stop.kind = .eof) (fits : w.Fits k k' s)

include noElse stop fits

theorem carries_declarations (stops : TokenKind → Bool) (rounds : w.Fits m m' s) :
    Carries w anyKind ⟨false, false⟩ (List.map (Option.map (Stmt.shifted w.ids)))
      (many stops (Parser.declaration k) m) (many stops (Parser.declaration k') m') s := by
  have nested (t : State) (stop : t.stop.kind = .eof) (le : t.tokens.length ≤ s.tokens.length) :=
    (carries_nested noElse k k' stop (fits.le le)).2
  exact carries_many _ nested m m' stop (Nat.le_refl _) rounds

theorem carries_method (kind : CallableKind) :
    Carries w anyKind ⟨true, true⟩ (functionShifted w.ids)
      (callable kind (k + 1) (Parser.declaration k))
      (callable kind (k' + 1) (Parser.declaration k')) s := by
  have nested : NestedDecls w (s.tokens.length + 1) (Parser.declaration k) (Parser.declaration k') :=
    fun t stop le => (carries_nested noElse k k' stop (fits.le (Nat.le_of_lt_succ le))).2
  exact carries_callable nested kind stop (Nat.lt_succ_self _)
    ⟨Nat.le_succ_of_le fits.alone, Nat.le_succ_of_le fits.placed⟩

theorem carries_methods (stops : TokenKind → Bool) (rounds : w.Fits m m' s) :
    Carries w anyKind ⟨false, false⟩ (List.map (functionShifted w.ids))
      (many stops (callable .method (k + 1) (Parser.declaration k)) m)
      (many stops (callable .method (k' + 1) (Parser.declaration k')) m') s := by
  have nested (t : State) (stop : t.stop.kind = .eof) (le : t.tokens.length ≤ s.tokens.length)
      (_ : t.tokens ≠ []) :
      Carries w anyKind ⟨true, false⟩ (functionShifted w.ids)
        (callable .method (k + 1) (Parser.declaration k))
        (callable .method (k' + 1) (Parser.declaration k')) t :=
    (carries_method noElse stop (fits.le le) .method).at rfl
  exact carries_many _ nested m m' stop (Nat.le_refl _) rounds

end

end ClassScript.Parser
