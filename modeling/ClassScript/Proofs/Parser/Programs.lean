import ClassScript.Proofs.Parser.Numbering

namespace ClassScript.Parser

open Binding

variable {α : Type} {s t u : State} {bound : Nat} {declaration : Parser (Option Stmt)}
  {statement : Parser Stmt}

abbrev ReadsStmt (p : Parser Stmt) : Prop := Reads p Stmt.ids OrdinaryStmt

abbrev StmtSince : State → Stmt → State → Prop := ReadSince Stmt.ids OrdinaryStmt

abbrev ReadsDecl (p : Parser (Option Stmt)) : Prop :=
  Reads p optionalStmtIds fun found => ∀ s ∈ found, OrdinaryStmt s

theorem proceeds_name (what : Expectation) (hw : what.kind = .identifier) :
    Proceeds (expect what) s fun t _ => s.Spelled → (Mention.binder t.lexeme).Ordinary := by
  apply (proceeds_expect what).imp
  intro t _ _ ht spelled
  exact (spelled.tokens t ht.2.1).not_reserved (ht.2.2.trans hw)

theorem methodsIds_eq (ms : List (FunctionDecl Stmt)) : methodsIds ms = ms.flatMap functionIds := by
  induction ms with
  | nil => rfl
  | cons m ms ih => simp [methodsIds, ih]

theorem stmtsIds_filterMap (found : List (Option Stmt)) :
    stmtsIds (found.filterMap id) = found.flatMap optionalStmtIds := by
  induction found with
  | nil => rfl
  | cons first rest ih =>
      cases first with
      | none => exact ih
      | some s => exact congrArg (s.ids ++ ·) ih

abbrev OrdinaryOptional (e : Option Expr) : Prop :=
  Ordinary fun setting => optionalMentions setting e

theorem reads_optionalExpression (bound : Nat) (without : TokenKind) :
    Reads (optionalExpression bound without) optionalIds OrdinaryOptional := by
  intro s
  unfold optionalExpression
  apply (proceeds_sees _).then
  rintro found t hst rfl
  split
  · exact proceeds_pure ⟨idsIn_nil, fun _ => ordinary_nil⟩
  · apply (reads_expression bound t).then
    intro e u _ he
    exact proceeds_pure he

theorem reads_declarations (h : ReadsDecl declaration) (stops : TokenKind → Bool) (bound : Nat) :
    Reads (many stops declaration bound) (fun found => stmtsIds (found.filterMap id))
      fun found => ∀ s ∈ found.filterMap id, OrdinaryStmt s := by
  intro s
  apply (reads_many h stops bound s).imp
  intro found t _ hfound
  have ids : IdsIn s.nextId t.nextId (stmtsIds (found.filterMap id)) := by
    rw [stmtsIds_filterMap]
    exact hfound.1
  refine ⟨ids, fun spelled stmt mem => ?_⟩
  obtain ⟨o, ho, eq⟩ := List.mem_filterMap.mp mem
  exact hfound.2 spelled o ho stmt eq

theorem reads_block (h : ReadsDecl declaration) (bound : Nat) :
    Reads (block bound declaration) stmtsIds fun ss => ∀ s ∈ ss, OrdinaryStmt s := by
  intro s
  unfold block
  apply (reads_declarations h _ bound s).then
  intro found t hst hfound
  apply (proceeds_skip _).then
  intro _ u htu _
  exact proceeds_pure ⟨(hfound.widen (.refl s) htu).1, hfound.2⟩

theorem reads_parameters (bound : Nat) :
    Reads (commaList .tooManyParameters (expect .parameterName) bound 0) (List.flatMap noIds)
      fun params => ∀ p ∈ params, (Mention.binder p.lexeme).Ordinary := by
  intro s
  apply (reads_commaList (reads_expect _) _ bound 0 s).imp
  intro params u _ hparams
  refine ⟨hparams.1, fun spelled p mem => ?_⟩
  have name := hparams.2 spelled p mem
  exact name.2.not_reserved name.1

structure OrdinaryNamed (decl : FunctionDecl Stmt) : Prop where
  name : (Mention.binder decl.name.lexeme).Ordinary
  inside : OrdinaryFunction decl

theorem reads_callableBody (h : ReadsDecl declaration) (kind : CallableKind) (bound : Nat)
    {name : Token} {params : List Token}
    (hname : s.Spelled → (Mention.binder name.lexeme).Ordinary)
    (hparams : s.Spelled → ∀ p ∈ params, (Mention.binder p.lexeme).Ordinary)
    (hst : s.Advances t) :
    Proceeds (do
      discard <| expect .paramsEnd
      discard <| expect (.callableBodyStart kind)
      return ⟨name, params, ← block bound declaration⟩) t (ReadSince functionIds OrdinaryNamed s) := by
  apply (proceeds_skip _).then
  intro _ u htu _
  apply (proceeds_skip _).then
  intro _ v huv _
  apply (reads_block h bound v).then
  intro body w hvw hbody
  have hbody := hbody.widen ((hst.trans htu).trans huv) (.refl w)
  exact proceeds_pure ⟨hbody.1, fun spelled =>
    ⟨hname spelled, ordinary_function (hparams spelled) (hbody.2 spelled)⟩⟩

theorem reads_callable (h : ReadsDecl declaration) (kind : CallableKind) (bound : Nat) :
    Reads (callable kind bound declaration) functionIds OrdinaryNamed := by
  intro s
  unfold callable
  apply (proceeds_name _ rfl).then
  intro name t hst ht
  apply (proceeds_skip _).then
  intro _ u htu _
  have hsu := hst.trans htu
  apply (proceeds_sees _).then
  rintro closed v _ rfl
  split
  · exact reads_callableBody h kind bound ht (fun _ p mem => by cases mem) hsu
  · apply (reads_parameters bound _).then
    intro params w huw hparams
    exact reads_callableBody h kind bound ht
      (fun spelled => hparams.2 (spelled.advances hsu)) (hsu.trans huw)

theorem reads_superclass? : Reads superclass? (fun o => (o.map Occurrence.id).toList)
    fun o => ∀ parent ∈ o, (Mention.var parent).Ordinary := by
  intro s
  unfold superclass?
  apply (proceeds_accept? _).then
  intro found t hst _
  cases found with
  | none => exact proceeds_pure ⟨idsIn_nil, fun _ _ mem => by cases mem⟩
  | some _ =>
      apply (proceeds_name _ rfl).then
      intro name u htu hu
      apply proceeds_freshId.then
      intro i v _ hi
      have fresh := (idsIn_fresh hi).mono (hst.trans htu).nextId (Nat.le_refl _)
      refine proceeds_pure ⟨fresh, fun spelled parent mem => ?_⟩
      cases mem
      exact hu (spelled.advances hst)

theorem reads_classDeclaration (h : ReadsDecl declaration) (bound : Nat) :
    ReadsStmt (classDeclaration bound declaration) := by
  intro s
  unfold classDeclaration
  apply (proceeds_name _ rfl).then
  intro name t hst ht
  apply (reads_superclass? t).then
  intro superclass u htu hu
  apply (proceeds_skip _).then
  intro _ v huv _
  apply (reads_many (reads_callable h .method bound) _ bound v).then
  intro methods w hvw hmethods
  apply (proceeds_skip _).then
  intro _ x hwx _
  have hu := hu.widen hst huv
  have hsv := (hst.trans htu).trans huv
  have hmethods := hmethods.widen (.refl v) hwx
  have ids : IdsIn s.nextId x.nextId
      ((superclass.map Occurrence.id).toList ++ methods.flatMap functionIds) :=
    hu.1.then hmethods.1 hsv (hvw.trans hwx)
  rw [← methodsIds_eq] at ids
  refine proceeds_pure ⟨ids, fun spelled => ordinary_class (ht spelled) (hu.2 spelled) ?_⟩
  intro m mem
  exact (hmethods.2 (spelled.advances hsv) m mem).inside

theorem reads_varDeclaration (bound : Nat) : ReadsStmt (varDeclaration bound) := by
  intro s
  unfold varDeclaration
  apply (proceeds_name _ rfl).then
  intro name t hst ht
  have done (e : Option Expr) (u : State) (he : ReadSince optionalIds OrdinaryOptional s e u) :
      Proceeds (do discard <| expect .varDeclEnd; return .varDecl name e) u (StmtSince s) := by
    apply (proceeds_skip _).then
    intro _ v huv _
    have he := he.widen (.refl s) huv
    exact proceeds_pure ⟨he.1, fun spelled => (he.2 spelled).cons (ht spelled)⟩
  apply (proceeds_accept? _).then
  intro found u htu _
  have hsu := hst.trans htu
  cases found with
  | none => exact done none u ⟨idsIn_nil, fun _ => ordinary_nil⟩
  | some _ =>
      have initializer : Proceeds (some <$> expression bound) u
          (ReadSince optionalIds OrdinaryOptional s) := by
        apply Proceeds.map
        exact (reads_expression bound).behind hsu
      exact initializer.then fun e v _ he => done e v he

theorem reads_expressionStatement (bound : Nat) : ReadsStmt (expressionStatement bound) := by
  intro s
  unfold expressionStatement
  apply (reads_expression bound s).then
  intro e t _ he
  apply (proceeds_skip _).then
  intro _ u htu _
  exact proceeds_pure (he.widen (.refl s) htu)

theorem reads_forInitializer (bound : Nat) :
    Reads (forInitializer bound) optionalStmtIds fun found => ∀ s ∈ found, OrdinaryStmt s := by
  intro s
  unfold forInitializer
  have wrapped {p : Parser Stmt} (h : ReadsStmt p) (t : State) (hst : s.Advances t) :
      Proceeds (do return some (← p)) t
        (ReadSince optionalStmtIds (fun found => ∀ s ∈ found, OrdinaryStmt s) s) := by
    apply (h.behind hst).then
    intro stmt u _ hu
    refine proceeds_pure ⟨hu.1, fun spelled other mem => ?_⟩
    cases mem
    exact hu.2 spelled
  apply (proceeds_accept? _).then
  intro found t hst _
  cases found with
  | none => exact wrapped (reads_expressionStatement bound) t hst
  | some token =>
      dsimp only
      split
      · exact proceeds_pure ⟨idsIn_nil, fun _ _ mem => by cases mem⟩
      · exact wrapped (reads_varDeclaration bound) t hst

theorem ids_condition (condition : Option Expr) (line : Nat) :
    (condition.getD (.literal (.bool true) line)).ids = optionalIds condition := by
  cases condition <;> rfl

theorem ordinary_condition {condition : Option Expr} (h : OrdinaryOptional condition)
    (line : Nat) : OrdinaryExpr (condition.getD (.literal (.bool true) line)) := by
  cases condition with
  | none => exact ordinary_nil
  | some e => exact h

structure OrdinaryFor (initializer : Option Stmt) (condition increment : Option Expr)
    (body : Stmt) : Prop where
  initializer : ∀ s ∈ initializer, OrdinaryStmt s
  condition : OrdinaryOptional condition
  increment : OrdinaryOptional increment
  body : OrdinaryStmt body

theorem read_for {initializer : Option Stmt} {condition increment : Option Expr}
    {body : Stmt} {line : Nat} {P : Prop} (h : P → OrdinaryFor initializer condition increment body)
    {low high : Nat} (ids : IdsIn low high (optionalStmtIds initializer ++
      (optionalIds condition ++ (optionalIds increment ++ body.ids)))) (s : State) :
    Proceeds (
      let loop := Stmt.loop (condition.getD (.literal (.bool true) line)) body increment
      match initializer with
      | some initial => return .block [initial, loop] line
      | none => return loop) s fun s _ => IdsIn low high s.ids ∧ (P → OrdinaryStmt s) := by
  have loop (holds : P) :
      OrdinaryStmt (.loop (condition.getD (.literal (.bool true) line)) body increment) :=
    ((ordinary_condition (h holds).condition line).append (h holds).body).append (h holds).increment
  have loopIds : (Stmt.loop (condition.getD (.literal (.bool true) line)) body increment).ids =
      optionalIds condition ++ body.ids ++ optionalIds increment := by
    simp only [Stmt.ids, ids_condition]
  have swap : (optionalIds condition ++ (optionalIds increment ++ body.ids)).Perm
      (optionalIds condition ++ body.ids ++ optionalIds increment) := by
    rw [List.append_assoc]
    exact List.Perm.append_left _ List.perm_append_comm
  cases initializer with
  | none =>
      refine proceeds_pure ⟨?_, loop⟩
      rw [loopIds]
      exact ids.perm swap
  | some initial =>
      refine proceeds_pure ⟨?_, fun holds => ordinary_block fun s mem => ?_⟩
      · simp only [Stmt.ids, stmtsIds, List.append_nil, ids_condition]
        exact ids.perm (List.Perm.append_left _ swap)
      · rcases List.mem_cons.mp mem with rfl | mem
        · exact (h holds).initializer s rfl
        · rw [List.mem_singleton.mp mem]
          exact loop holds

theorem reads_forStatement (h : ReadsStmt statement) (keyword : Token) (bound : Nat) :
    ReadsStmt (forStatement keyword bound statement) := by
  intro s
  unfold forStatement
  apply (proceeds_skip _).then
  intro _ t hst _
  apply (reads_forInitializer bound t).then
  intro initializer u htu hinit
  apply (reads_optionalExpression bound _ u).then
  intro condition v huv hcond
  apply (proceeds_skip _).then
  intro _ w hvw _
  apply (reads_optionalExpression bound _ w).then
  intro increment x hwx hinc
  apply (proceeds_skip _).then
  intro _ y hxy _
  apply (h y).then
  intro body z hyz hbody
  have hinit := hinit.widen hst (.refl u)
  have hcond := hcond.widen (.refl u) hvw
  have hinc := hinc.widen (.refl w) hxy
  have hsu := hst.trans htu
  have huw := huv.trans hvw
  have hwy := hwx.trans hxy
  have tail := hinc.1.then hbody.1 hwy hyz
  have clauses := hcond.1.then tail huw (hwy.trans hyz)
  have all := hinit.1.then clauses hsu ((huw.trans hwy).trans hyz)
  have parts (spelled : s.Spelled) : OrdinaryFor initializer condition increment body :=
    ⟨hinit.2 spelled, hcond.2 (spelled.advances hsu), hinc.2 (spelled.advances (hsu.trans huw)),
      hbody.2 (spelled.advances ((hsu.trans huw).trans hwy))⟩
  exact (read_for parts all z).imp fun stmt z' hz hs =>
    ⟨hs.1.mono (Nat.le_refl _) hz.nextId, hs.2⟩

theorem reads_ifStatement (h : ReadsStmt statement) (bound : Nat) :
    ReadsStmt (ifStatement bound statement) := by
  intro s
  unfold ifStatement
  apply (proceeds_skip _).then
  intro _ t hst _
  apply (reads_expression bound t).then
  intro condition u htu hcond
  apply (proceeds_skip _).then
  intro _ v huv _
  apply (h v).then
  intro thenBranch w hvw hthen
  apply (proceeds_accept? _).then
  intro found x hwx _
  have hcond := hcond.widen hst huv
  have hsv := (hst.trans htu).trans huv
  have hthen := hthen.widen (.refl v) hwx
  have hvx := hvw.trans hwx
  have both := hcond.1.then hthen.1 hsv hvx
  have ordinary (spelled : s.Spelled) :
      Ordinary fun setting => exprMentions setting condition ++ stmtMentions setting thenBranch :=
    (hcond.2 spelled).append (hthen.2 (spelled.advances hsv))
  cases found with
  | none =>
      have ids : (Stmt.branch condition thenBranch none).ids = condition.ids ++ thenBranch.ids := by
        simp [Stmt.ids, optionalStmtIds]
      exact proceeds_pure ⟨ids ▸ both, fun spelled => (ordinary spelled).append ordinary_nil⟩
  | some _ =>
      apply (h x).then
      intro other y hxy hother
      have hsx := hsv.trans hvx
      exact proceeds_pure ⟨both.then hother.1 hsx hxy, fun spelled =>
        (ordinary spelled).append (hother.2 (spelled.advances hsx))⟩

theorem reads_whileStatement (h : ReadsStmt statement) (bound : Nat) :
    ReadsStmt (whileStatement bound statement) := by
  intro s
  unfold whileStatement
  apply (proceeds_skip _).then
  intro _ t hst _
  apply (reads_expression bound t).then
  intro condition u htu hcond
  apply (proceeds_skip _).then
  intro _ v huv _
  apply (h v).then
  intro body w hvw hbody
  have hcond := hcond.widen hst huv
  have hsv := (hst.trans htu).trans huv
  have ids : (Stmt.loop condition body none).ids = condition.ids ++ body.ids := by
    simp [Stmt.ids, optionalIds]
  exact proceeds_pure ⟨ids ▸ hcond.1.then hbody.1 hsv hvw, fun spelled =>
    ((hcond.2 spelled).append (hbody.2 (spelled.advances hsv))).append ordinary_nil⟩

theorem reads_keywordStatement (hd : ReadsDecl declaration) (hs : ReadsStmt statement)
    (keyword : Token) (bound : Nat) :
    ReadsStmt (keywordStatement keyword bound declaration statement) := by
  intro s
  unfold keywordStatement
  split
  · exact reads_forStatement hs keyword bound s
  · exact reads_ifStatement hs bound s
  · exact reads_whileStatement hs bound s
  · apply (reads_optionalExpression bound _ s).then
    intro value t _ hvalue
    apply (proceeds_skip _).then
    intro _ u htu _
    have hvalue := hvalue.widen (.refl s) htu
    exact proceeds_pure ⟨hvalue.1, hvalue.2⟩
  · apply (proceeds_skip _).then
    intro _ t _ _
    exact proceeds_pure ⟨idsIn_nil, fun _ => ordinary_nil⟩
  · apply (proceeds_skip _).then
    intro _ t _ _
    exact proceeds_pure ⟨idsIn_nil, fun _ => ordinary_nil⟩
  · apply (reads_expression bound s).then
    intro e t _ he
    apply (proceeds_skip _).then
    intro _ u htu _
    have he := he.widen (.refl s) htu
    exact proceeds_pure ⟨he.1, he.2⟩
  · apply (reads_block hd bound s).then
    intro body t _ hbody
    exact proceeds_pure ⟨hbody.1, fun spelled => ordinary_block (hbody.2 spelled)⟩

theorem reads_statementRule (hd : ReadsDecl declaration) (hs : ReadsStmt statement) (bound : Nat) :
    ReadsStmt (statementRule bound declaration statement) := by
  intro s
  unfold statementRule
  apply (proceeds_accept? _).then
  intro found t hst _
  cases found with
  | none => exact (reads_expressionStatement bound).behind hst
  | some keyword => exact (reads_keywordStatement hd hs keyword bound).behind hst

theorem reads_declarationRule (hd : ReadsDecl declaration) (hs : ReadsStmt statement)
    (bound : Nat) : ReadsStmt (declarationRule bound declaration statement) := by
  intro s
  unfold declarationRule
  apply (proceeds_accept? _).then
  intro found t hst _
  cases found with
  | none => exact (reads_statementRule hd hs bound).behind hst
  | some keyword =>
      dsimp only
      split
      · exact (reads_classDeclaration hd bound).behind hst
      · apply Proceeds.map
        apply ((reads_callable hd .function bound).behind hst).imp
        intro decl u _ hdecl
        exact ⟨hdecl.1, fun spelled => (hdecl.2 spelled).inside.cons (hdecl.2 spelled).name⟩
      · exact (reads_varDeclaration bound).behind hst

theorem reads_recovering {p : Parser Stmt} (h : ReadsStmt p) : ReadsDecl (recovering p) := by
  intro s
  apply (proceeds_recovering (h s)).imp
  intro found t _ hfound
  cases found with
  | none => exact ⟨idsIn_nil, fun _ _ mem => by cases mem⟩
  | some stmt =>
      refine ⟨(hfound stmt rfl).1, fun spelled other mem => ?_⟩
      cases mem
      exact (hfound stmt rfl).2 spelled

theorem reads_nested (bound : Nat) :
    ReadsStmt (Parser.statement bound) ∧ ReadsDecl (Parser.declaration bound) := by
  induction bound with
  | zero => exact ⟨reads_noExpression, reads_recovering reads_noExpression⟩
  | succ bound ih =>
      exact ⟨reads_statementRule ih.2 ih.1 (bound + 1),
        reads_recovering (reads_declarationRule ih.2 ih.1 (bound + 1))⟩

theorem reads_program (bound : Nat) :
    Reads (program bound) stmtsIds fun ss => ∀ s ∈ ss, OrdinaryStmt s := by
  intro s
  unfold program
  apply (reads_declarations (reads_nested bound).2 _ bound s).then
  intro found t _ hfound
  exact proceeds_pure hfound

theorem reads_wholeExpression (bound : Nat) : ReadsExpr (wholeExpression bound) := by
  intro s
  unfold wholeExpression
  apply (reads_expression bound s).then
  intro e t _ he
  unfold Proceeds Ends
  dsimp only
  cases t.tokens with
  | nil => exact ⟨.refl t, he⟩
  | cons first rest => exact .refl t

end ClassScript.Parser

namespace ClassScript

variable {tokens : List Token}

theorem spelled_start (firstId : Nat) (spelled : ∀ t ∈ tokens, t.Spelled) :
    (Parser.State.start firstId tokens).Spelled where
  tokens t mem := spelled t (List.takeWhile_subset _ mem)
  stop := by
    intro identifier
    have eof := Parser.start_stop firstId tokens
    rw [identifier] at eof
    cases eof

theorem parseProgram_since (firstId : Nat) (tokens : List Token) :
    firstId ≤ (parseProgram firstId tokens).nextId ∧
      ∀ program, (parseProgram firstId tokens).result = .ok program →
        Parser.IdsIn firstId (parseProgram firstId tokens).nextId (stmtsIds program) ∧
          ((∀ t ∈ tokens, t.Spelled) → ∀ s ∈ program, Binding.OrdinaryStmt s) := by
  have reads := Parser.reads_program (Parser.State.start firstId tokens).tokens.length
    (Parser.State.start firstId tokens)
  unfold Parser.Proceeds Ends at reads
  unfold parseProgram
  dsimp only
  generalize Parser.program _ _ = result at *
  cases result with
  | ok statements t =>
      refine ⟨reads.1.nextId, fun program eq => ?_⟩
      dsimp only at eq
      split at eq
      · cases eq
        exact ⟨reads.2.1, fun spelled => reads.2.2 (spelled_start firstId spelled)⟩
      · cases eq
  | error e t =>
      refine ⟨reads.nextId, fun program eq => ?_⟩
      cases eq

theorem parseExpression_since (firstId : Nat) (tokens : List Token) :
    firstId ≤ (parseExpression firstId tokens).nextId ∧
      ∀ e, (parseExpression firstId tokens).result = .ok e →
        Parser.IdsIn firstId (parseExpression firstId tokens).nextId e.ids ∧
          ((∀ t ∈ tokens, t.Spelled) → Binding.OrdinaryExpr e) := by
  have reads := Parser.reads_wholeExpression (Parser.State.start firstId tokens).tokens.length
    (Parser.State.start firstId tokens)
  unfold Parser.Proceeds Ends at reads
  unfold parseExpression
  dsimp only
  generalize Parser.wholeExpression _ _ = result at *
  cases result with
  | ok e t =>
      refine ⟨reads.1.nextId, fun other eq => ?_⟩
      cases eq
      exact ⟨reads.2.1, fun spelled => reads.2.2 (spelled_start firstId spelled)⟩
  | error e t =>
      refine ⟨reads.nextId, fun other eq => ?_⟩
      cases eq

theorem parseProgram_reads (firstId : Nat) (spelled : ∀ t ∈ tokens, t.Spelled) :
    firstId ≤ (parseProgram firstId tokens).nextId ∧
      ∀ program, (parseProgram firstId tokens).result = .ok program →
        Parser.IdsIn firstId (parseProgram firstId tokens).nextId (stmtsIds program) ∧
          ∀ s ∈ program, Binding.OrdinaryStmt s := by
  obtain ⟨later, read⟩ := parseProgram_since firstId tokens
  exact ⟨later, fun program eq => ⟨(read program eq).1, (read program eq).2 spelled⟩⟩

theorem parseExpression_reads (firstId : Nat) (spelled : ∀ t ∈ tokens, t.Spelled) :
    firstId ≤ (parseExpression firstId tokens).nextId ∧
      ∀ e, (parseExpression firstId tokens).result = .ok e →
        Parser.IdsIn firstId (parseExpression firstId tokens).nextId e.ids ∧
          Binding.OrdinaryExpr e := by
  obtain ⟨later, read⟩ := parseExpression_since firstId tokens
  exact ⟨later, fun e eq => ⟨(read e eq).1, (read e eq).2 spelled⟩⟩

end ClassScript
