import ClassScript.Proofs.Grammar.CompleteExpressions

namespace ClassScript.Grammar

open ClassScript.Parser

variable {b c a : List Token} {bound : Nat} {declaration : Parser (Option Stmt)}
  {statement : Parser Stmt}

abbrev AcceptsStmt (p : Parser Stmt) (b a : List Token) (s : Stmt) : Prop :=
  Accepts true p b a fun s' => s'.unnumbered = s

/-! ## Parts of statements -/

theorem accepts_optionalExpression {e : Option Expr} {stop : Token} {without : TokenKind}
    (h : Optionally b (stop :: a) e) (kind : stop.kind = without)
    (starts : startsExpression without = false) (ends : continuesExpression without = false)
    (short : b.length ≤ bound) :
    Accepts true (optionalExpression bound without) b (stop :: a)
      fun e' => e'.map Expr.unnumbered = e := by
  cases h with
  | none =>
      apply (accepts_sees without).then
      rintro seen rfl
      simp only [startsWith_cons, kind, beq_self_eq_true, if_true]
      exact accepts_pure rfl
  | some derives =>
      apply (accepts_sees without).then
      rintro seen rfl
      rw [expression_ne_stop starts derives.starts]
      apply (accepts_expression derives short (ends_of_kind kind ends)).then
      intro e' he
      apply accepts_pure
      rw [← he]
      rfl

theorem accepts_varDeclaration {s : Stmt} (h : VarDecl b a s) :
    ∃ keyword rest, b = keyword :: rest ∧ keyword.kind = .kwVar ∧
      ∀ bound, rest.length ≤ bound → AcceptsStmt (varDeclaration bound) rest a s := by
  cases h with
  | plain isVar isName isSemicolon =>
      refine ⟨_, _, rfl, isVar, fun bound _ => ?_⟩
      apply (accepts_expect isName).then
      rintro name rfl
      apply (accepts_none _).then
      · rintro found rfl
        apply (accepts_skip isSemicolon).then
        exact fun _ _ => accepts_pure rfl
      · simp [isSemicolon]
  | initialized isVar isName isEqual derives isSemicolon =>
      refine ⟨_, _, rfl, isVar, fun bound short => ?_⟩
      simp only [List.length_cons] at short
      apply (accepts_expect isName).then
      rintro name rfl
      apply (accepts_some (by simp [isEqual])).then
      rintro found rfl
      have value := accepts_expression derives (Nat.le_of_succ_le (Nat.le_of_succ_le short))
        (ends_of_kind isSemicolon rfl)
      have initializer : Accepts true (some <$> Parser.expression bound) _ _
          fun e => ∃ e', e = some e' ∧ e'.unnumbered = _ :=
        accepts_map (value.imp fun e he => ⟨e, rfl, he⟩)
      apply initializer.then
      rintro e ⟨e', rfl, he⟩
      apply (accepts_skip isSemicolon).then
      intro _ _
      apply accepts_pure
      rw [← he]
      rfl

theorem accepts_expressionStatement {s : Stmt} (h : ExprStmt b a s) (short : b.length ≤ bound) :
    AcceptsStmt (expressionStatement bound) b a s := by
  cases h with
  | mk derives isSemicolon =>
      apply (accepts_expression derives short (ends_of_kind isSemicolon rfl)).then
      intro e he
      apply (accepts_skip isSemicolon).then
      intro _ _
      apply accepts_pure
      rw [← he]
      rfl

theorem accepts_forInitializer {first : Option Stmt} (h : ForFirst b a first)
    (short : b.length ≤ bound) :
    Accepts true (forInitializer bound) b a fun first' => first'.map Stmt.unnumbered = first := by
  cases h with
  | varDecl decl =>
      obtain ⟨keyword, rest, rfl, isVar, accepts⟩ := accepts_varDeclaration decl
      simp only [List.length_cons] at short
      apply (accepts_some (by simp [isVar])).then
      rintro found rfl
      have notSemicolon : (keyword.kind == .semicolon) = false := by simp [isVar]
      simp only [notSemicolon]
      apply (accepts bound (by omega)).then
      intro s hs
      apply accepts_pure
      rw [← hs]
      rfl
  | exprStmt stmt =>
      have other : startsWith (fun k => k == .semicolon || k == .kwVar) b = false := by
        apply startsWith_disjoint _ stmt.starts
        intro k hk
        cases k <;> first | rfl | cases hk
      apply (accepts_none other).then
      rintro found rfl
      apply (accepts_expressionStatement stmt short).then
      intro s hs
      apply accepts_pure
      rw [← hs]
      rfl
  | none isSemicolon =>
      apply (accepts_some (by simp [isSemicolon])).then
      rintro found rfl
      simp only [isSemicolon, beq_self_eq_true, if_true]
      exact accepts_pure rfl

theorem accepts_parameters {limited : Bool} (count k : Nat) {names : List Token} {close : Token}
    (h : Parameters b (close :: a) names) (isClose : close.kind = .rightParen)
    (limit : limited = true → count + names.length ≤ maxListLength) (short : b.length ≤ k) :
    Accepts limited (commaList .tooManyParameters (expect .parameterName) k count) b (close :: a)
      (· = names) := by
  generalize rest : close :: a = after at h
  induction h generalizing count k with
  | last isName =>
      subst rest
      apply (accepts_commaList_last (accepts_expect isName) .tooManyParameters k limit _).imp
      · rintro xs ⟨x, rfl, rfl⟩
        rfl
      · simp [isClose]
  | more isName isComma _ ih =>
      simp only [List.length_cons] at short limit
      obtain ⟨k, rfl⟩ := Nat.exists_eq_add_one_of_ne_zero (n := k) (by omega)
      have more := ih (count + 1) k (fun limited => by have := limit limited; omega) (by omega) rest
      apply (accepts_commaList_more (accepts_expect isName) .tooManyParameters
        (fun limited => by have := limit limited; omega) isComma more).imp
      rintro xs ⟨x, xs', rfl, rfl, rfl⟩
      rfl

theorem accepts_superclass? {superclass : Option Occurrence} {start : Token}
    (h : Superclass b (start :: a) superclass) (isStart : start.kind = .leftBrace) :
    Accepts true superclass? b (start :: a) fun found =>
      found.map Occurrence.unnumbered = superclass := by
  cases h with
  | none =>
      apply (accepts_none _).then
      · rintro found rfl
        exact accepts_pure rfl
      · simp [isStart]
  | some isLess isName =>
      apply (accepts_some (by simp [isLess])).then
      rintro found rfl
      apply (accepts_expect isName).then
      rintro name rfl
      apply accepts_freshId.then
      exact fun _ _ => accepts_pure rfl

/-! ## Functions and blocks -/

theorem accepts_block {body : List Stmt} {close : Token} (isClose : close.kind = .rightBrace)
    (h : Accepts true (many (· == .rightBrace) declaration bound) b (close :: a)
      fun found => stmtsUnnumbered (found.filterMap id) = body) :
    Accepts true (block bound declaration) b a fun body' => stmtsUnnumbered body' = body := by
  apply h.then
  intro found hfound
  apply (accepts_skip isClose).then
  exact fun _ _ => accepts_pure hfound

theorem accepts_callableBody {params : List Token} {body : List Stmt}
    {name close start stop : Token}
    (kind : CallableKind) (isClose : close.kind = .rightParen) (isStart : start.kind = .leftBrace)
    (isStop : stop.kind = .rightBrace)
    (h : Accepts true (many (· == .rightBrace) declaration bound) c (stop :: a)
      fun found => stmtsUnnumbered (found.filterMap id) = body) :
    Accepts true (do
      discard <| expect .paramsEnd
      discard <| expect (.callableBodyStart kind)
      return ⟨name, params, ← block bound declaration⟩) (close :: start :: c) a
      fun f => functionUnnumbered f = ⟨name, params, body⟩ := by
  apply (accepts_skip isClose).then
  intro _ _
  apply (accepts_skip isStart).then
  intro _ _
  apply (accepts_block isStop h).then
  intro body' hbody
  apply accepts_pure
  rw [← hbody]
  rfl

theorem accepts_callable {params : List Token} {body : List Stmt}
    {name paren close start stop : Token}
    (kind : CallableKind) (isName : name.kind = .identifier) (isParen : paren.kind = .leftParen)
    (list : ParameterList b (close :: start :: c) params) (isClose : close.kind = .rightParen)
    (isStart : start.kind = .leftBrace) (isStop : stop.kind = .rightBrace)
    (short : b.length ≤ bound)
    (h : Accepts true (many (· == .rightBrace) declaration bound) c (stop :: a)
      fun found => stmtsUnnumbered (found.filterMap id) = body) :
    Accepts true (callable kind bound declaration) (name :: paren :: b) a
      fun f => functionUnnumbered f = ⟨name, params, body⟩ := by
  apply (accepts_expect isName).then
  rintro name rfl
  apply (accepts_skip isParen).then
  intro _ _
  apply (accepts_sees .rightParen).then
  rintro closed rfl
  cases list with
  | none =>
      rw [startsWith_cons, isClose]
      exact accepts_callableBody kind isClose isStart isStop h
  | some list limit =>
      have isOpen : startsWith (· == .rightParen) b = false := by
        apply startsWith_disjoint _ list.starts
        intro k hk
        rw [beq_iff_eq.mp hk]
        rfl
      rw [isOpen]
      apply (accepts_parameters 0 _ list isClose _ short).then
      · rintro params rfl
        exact accepts_callableBody kind isClose isStart isStop h
      · rw [Nat.zero_add]
        exact fun _ => limit

/-! ## Statements -/

theorem accepts_forStatement {keyword paren semicolon close : Token} {first : Option Stmt}
    {condition increment : Option Expr} {body : Stmt} {d e : List Token}
    (isParen : paren.kind = .leftParen) (hfirst : ForFirst b c first)
    (hcondition : Optionally c (semicolon :: d) condition)
    (isSemicolon : semicolon.kind = .semicolon)
    (hincrement : Optionally d (close :: e) increment) (isClose : close.kind = .rightParen)
    (short : b.length ≤ bound) (h : AcceptsStmt statement e a body) :
    AcceptsStmt (forStatement keyword bound statement) (paren :: b) a
      (forTree keyword first condition body increment) := by
  have shorterFirst := hfirst.shorter
  have shorterCondition := hcondition.shorter
  simp only [List.length_cons] at shorterCondition
  apply (accepts_skip isParen).then
  intro _ _
  apply (accepts_forInitializer hfirst short).then
  intro first' hfirst'
  apply (accepts_optionalExpression hcondition isSemicolon rfl rfl (by omega)).then
  intro condition' hcondition'
  apply (accepts_skip isSemicolon).then
  intro _ _
  apply (accepts_optionalExpression hincrement isClose rfl rfl (by omega)).then
  intro increment' hincrement'
  apply (accepts_skip isClose).then
  intro _ _
  apply h.then
  intro body' hbody
  rw [← hfirst', ← hcondition', ← hincrement', ← hbody, ← forTree_unnumbered]
  cases first' with
  | none => exact accepts_pure rfl
  | some first' => exact accepts_pure rfl

theorem accepts_ifStatement {paren close : Token} {condition : Expr} {thenBranch : Stmt}
    (isParen : paren.kind = .leftParen)
    (hcondition : Derives true .expression b (close :: c) condition)
    (isClose : close.kind = .rightParen) (short : b.length ≤ bound)
    (h : AcceptsStmt statement c a thenBranch) (nearest : startsWith (· == .kwElse) a = false) :
    AcceptsStmt (ifStatement bound statement) (paren :: b) a
      (.branch condition thenBranch none) := by
  apply (accepts_skip isParen).then
  intro _ _
  apply (accepts_expression hcondition short (ends_of_kind isClose rfl)).then
  intro condition' hcondition'
  apply (accepts_skip isClose).then
  intro _ _
  apply h.then
  intro thenBranch' hthen
  apply (accepts_none nearest).then
  rintro found rfl
  apply accepts_pure
  rw [← hcondition', ← hthen]
  rfl

theorem accepts_ifElse {paren close other : Token} {condition : Expr} {thenBranch elseBranch : Stmt}
    {d : List Token} (isParen : paren.kind = .leftParen)
    (hcondition : Derives true .expression b (close :: c) condition)
    (isClose : close.kind = .rightParen) (isElse : other.kind = .kwElse) (short : b.length ≤ bound)
    (hthen : AcceptsStmt statement c (other :: d) thenBranch)
    (helse : AcceptsStmt statement d a elseBranch) :
    AcceptsStmt (ifStatement bound statement) (paren :: b) a
      (.branch condition thenBranch (some elseBranch)) := by
  apply (accepts_skip isParen).then
  intro _ _
  apply (accepts_expression hcondition short (ends_of_kind isClose rfl)).then
  intro condition' hcondition'
  apply (accepts_skip isClose).then
  intro _ _
  apply hthen.then
  intro thenBranch' hthen'
  apply (accepts_some (by simp [isElse])).then
  rintro found rfl
  apply helse.then
  intro elseBranch' helse'
  apply accepts_pure
  rw [← hcondition', ← hthen', ← helse']
  rfl

theorem accepts_whileStatement {paren close : Token} {condition : Expr} {body : Stmt}
    (isParen : paren.kind = .leftParen)
    (hcondition : Derives true .expression b (close :: c) condition)
    (isClose : close.kind = .rightParen) (short : b.length ≤ bound)
    (h : AcceptsStmt statement c a body) :
    AcceptsStmt (whileStatement bound statement) (paren :: b) a (.loop condition body none) := by
  apply (accepts_skip isParen).then
  intro _ _
  apply (accepts_expression hcondition short (ends_of_kind isClose rfl)).then
  intro condition' hcondition'
  apply (accepts_skip isClose).then
  intro _ _
  apply h.then
  intro body' hbody
  apply accepts_pure
  rw [← hcondition', ← hbody]
  rfl

theorem noKeyword_of_expression (k : TokenKind) (h : startsExpression k = true) :
    opensStatement k = false := by
  cases k <;> first | rfl | cases h

theorem noKeyword_of_statement (k : TokenKind) (h : startsStmt k = true) :
    (k == .kwClass || k == .kwFun || k == .kwVar) = false := by
  cases k <;> first | rfl | cases h

/-! ## Declarations -/

theorem accepts_classDeclaration {superclass : Option Occurrence}
    {methods : List (FunctionDecl Stmt)} {name start close : Token}
    (isName : name.kind = .identifier)
    (hsuperclass : Superclass b (start :: c) superclass) (isStart : start.kind = .leftBrace)
    (isClose : close.kind = .rightBrace)
    (h : Accepts true (many (· == .rightBrace) (callable .method bound declaration) bound) c
      (close :: a) fun methods' => methodsUnnumbered methods' = methods) :
    AcceptsStmt (classDeclaration bound declaration) (name :: b) a
      (.classDecl ⟨name, superclass, methods⟩) := by
  apply (accepts_expect isName).then
  rintro name rfl
  apply (accepts_superclass? hsuperclass isStart).then
  intro superclass' hsuperclass'
  apply (accepts_skip isStart).then
  intro _ _
  apply h.then
  intro methods' hmethods
  apply (accepts_skip isClose).then
  intro _ _
  apply accepts_pure
  rw [← hsuperclass', ← hmethods]
  rfl

/-! ## Derivations -/

def AcceptedStmt : (X : StmtSymbol) → List Token → List Token → X.Tree → Prop
  | .declarations, b, a, ss => ∀ stops bound k, b.length ≤ bound → b.length ≤ k →
    (∀ kind, stops kind = true → startsDeclaration kind = false) → stops .kwElse = false →
      endsList stops a = true →
      Accepts true (many stops (Parser.declaration bound) k) b a
        fun found => stmtsUnnumbered (found.filterMap id) = ss
  | .declaration, b, a, s => ∀ bound, b.length ≤ bound → startsWith (· == .kwElse) a = false →
    Accepts true (Parser.declaration bound) b a
      fun found => ∃ s', found = some s' ∧ s'.unnumbered = s
  | .functions, b, a, fs => ∀ bound k, b.length ≤ bound → b.length ≤ k →
    endsList (· == .rightBrace) a = true →
      Accepts true (many (· == .rightBrace)
        (callable .method (bound + 1) (Parser.declaration bound)) k)
        b a fun fs' => methodsUnnumbered fs' = fs
  | .function, b, a, f => ∀ kind bound, b.length ≤ bound →
    Accepts true (callable kind (bound + 1) (Parser.declaration bound)) b a
      fun f' => functionUnnumbered f' = f
  | .statement closed, b, a, s => ∀ bound, b.length ≤ bound →
    (closed = false → startsWith (· == .kwElse) a = false) →
      AcceptsStmt (Parser.statement bound) b a s

theorem accepted_body {body : List Stmt} {close : Token} {k : Nat}
    (h : AcceptedStmt .declarations b (close :: a) body) (isClose : close.kind = .rightBrace)
    (short : b.length ≤ bound) (shortK : b.length ≤ k) :
    Accepts true (many (· == .rightBrace) (Parser.declaration bound) k) b (close :: a)
      fun found => stmtsUnnumbered (found.filterMap id) = body := by
  apply h _ bound k short shortK
  · intro kind hkind
    rw [beq_iff_eq.mp hkind]
    rfl
  · rfl
  · simp [endsList, isClose]

theorem brace_startsFunction (k : TokenKind) (h : (k == .rightBrace) = true) :
    startsFunction k = false := by
  rw [beq_iff_eq.mp h]
  rfl

theorem else_of_ends {stops : TokenKind → Bool} (other : stops .kwElse = false)
    (ends : endsList stops a = true) : startsWith (· == .kwElse) a = false := by
  cases a with
  | nil => rfl
  | cons t rest =>
      rw [startsWith_cons, beq_eq_false_iff_ne]
      intro isElse
      simp [endsList, isElse, other] at ends

theorem else_of_begins (h : startsWith startsDeclaration b = true) :
    startsWith (· == .kwElse) b = false := by
  apply startsWith_disjoint _ h
  intro k hk
  cases k <;> first | rfl | cases hk

theorem DerivesStmt.noElse {ss : List Stmt} {stops : TokenKind → Bool}
    (h : DerivesStmt .declarations b a ss) (other : stops .kwElse = false)
    (ends : endsList stops a = true) : startsWith (· == .kwElse) b = false := by
  obtain rfl | starts := h.starts
  · exact else_of_ends other ends
  · exact else_of_begins starts

theorem goesOn_of_begins {kinds stops : TokenKind → Bool}
    (disjoint : ∀ kind, stops kind = true → kinds kind = false) (h : startsWith kinds b = true) :
    endsList stops b = false := by
  cases b with
  | nil => cases h
  | cons t rest =>
      rw [startsWith_cons] at h
      by_contra stopped
      have := disjoint t.kind (by simpa [endsList] using stopped)
      rw [h] at this
      contradiction

theorem accepted_keyword {keyword : Token} {k : TokenKind} {closed : Bool} {s : Stmt}
    (kind : keyword.kind = k) (opens : opensStatement k = true)
    (h : ∀ bound, b.length ≤ bound → (closed = false → startsWith (· == .kwElse) a = false) →
      AcceptsStmt (keywordStatement keyword (bound + 1) (Parser.declaration bound)
        (Parser.statement bound)) b a s) :
    AcceptedStmt (.statement closed) (keyword :: b) a s := by
  intro bound short nearest
  simp only [List.length_cons] at short
  obtain ⟨bound, rfl⟩ := Nat.exists_eq_add_one.mpr (Nat.zero_lt_of_lt short)
  apply (accepts_some (by rw [kind, opens])).then
  rintro found rfl
  exact h bound (Nat.le_of_succ_le_succ short) nearest

theorem accepted_declaration {keyword : Token} {s : Stmt}
    (wanted : (keyword.kind == .kwClass || keyword.kind == .kwFun || keyword.kind == .kwVar) = true)
    (h : ∀ bound, b.length ≤ bound → AcceptsStmt (match keyword.kind with
      | .kwClass => classDeclaration (bound + 1) (Parser.declaration bound)
      | .kwFun => .funDecl <$> callable .function (bound + 1) (Parser.declaration bound)
      | _ => varDeclaration (bound + 1)) b a s) :
    AcceptedStmt .declaration (keyword :: b) a s := by
  intro bound short _
  simp only [List.length_cons] at short
  obtain ⟨bound, rfl⟩ := Nat.exists_eq_add_one.mpr (Nat.zero_lt_of_lt short)
  apply accepts_recovering
  apply (accepts_some wanted).then
  rintro found rfl
  exact h bound (Nat.le_of_succ_le_succ short)

theorem DerivesStmt.accepted {X : StmtSymbol} {tree : X.Tree} (h : DerivesStmt X b a tree) :
    AcceptedStmt X b a tree := by
  -- An `else` behind a statement is excluded where the statement could take it: a closed one cannot.
  induction h with
  | noDeclaration =>
      intro stops bound k _ _ _ _ ends
      apply (accepts_many_none k ends).imp
      rintro found rfl
      rfl
  | declarations first rest ihFirst ihRest =>
      intro stops bound k short shortK disjoint other ends
      have shorter := first.shorter
      simp only [StmtSymbol.least] at shorter
      obtain ⟨k, rfl⟩ := Nat.exists_eq_add_one.mpr
        (Nat.zero_lt_of_lt (Nat.lt_of_lt_of_le shorter shortK))
      have more := ihRest stops bound k (by omega) (by omega) disjoint other ends
      apply (accepts_many_more (goesOn_of_begins disjoint first.starts)
        (ihFirst bound short (rest.noElse other ends)) more).imp
      rintro found ⟨x, xs, rfl, ⟨s, rfl, hs⟩, hxs⟩
      rw [← hs, ← hxs]
      rfl
  | classDecl kind isName superclass isStart _ isClose ih =>
      apply accepted_declaration (by simp [kind])
      intro bound short
      have shorter := superclass.shorter
      simp only [List.length_cons] at short shorter
      simp only [kind]
      exact accepts_classDeclaration isName superclass isStart isClose
        (ih bound (bound + 1) (by omega) (by omega) (by simp [endsList, isClose]))
  | funDecl kind _ ih =>
      apply accepted_declaration (by simp [kind])
      intro bound short
      simp only [kind]
      apply accepts_map
      apply (ih .function bound short).imp
      intro f hf
      rw [← hf]
      rfl
  | varDecl h =>
      obtain ⟨keyword, rest, rfl, kind, accepts⟩ := accepts_varDeclaration h
      apply accepted_declaration (by simp [kind])
      intro bound short
      simp only [kind]
      exact accepts (bound + 1) (Nat.le_succ_of_le short)
  | statement h ih =>
      intro bound short follow
      have shorter := h.shorter
      simp only [StmtSymbol.least] at shorter
      obtain ⟨bound, rfl⟩ := Nat.exists_eq_add_one.mpr
        (Nat.zero_lt_of_lt (Nat.lt_of_lt_of_le shorter short))
      apply accepts_recovering
      apply (accepts_none (startsWith_disjoint noKeyword_of_statement h.starts)).then
      rintro found rfl
      exact ih (bound + 1) short fun _ => follow
  | noFunction =>
      intro bound k _ _ ends
      apply (accepts_many_none k ends).imp
      rintro found rfl
      rfl
  | functions first rest ihFirst ihRest =>
      intro bound k short shortK ends
      have shorter := first.shorter
      simp only [StmtSymbol.least] at shorter
      obtain ⟨k, rfl⟩ := Nat.exists_eq_add_one.mpr
        (Nat.zero_lt_of_lt (Nat.lt_of_lt_of_le shorter shortK))
      have more := ihRest bound k (by omega) (by omega) ends
      apply (accepts_many_more (goesOn_of_begins brace_startsFunction first.starts)
        (ihFirst .method bound short) more).imp
      rintro found ⟨x, xs, rfl, hx, hxs⟩
      rw [← hx, ← hxs]
      rfl
  | function isName isParen params isClose isStart _ isStop ih =>
      intro kind bound short
      have shorter := params.shorter
      simp only [List.length_cons] at short shorter
      apply accepts_callable kind isName isParen params isClose isStart isStop (by omega)
      exact accepted_body ih isStop (by omega) (by omega)
  | exprStmt h =>
      intro bound short _
      obtain ⟨bound, rfl⟩ :=
        Nat.exists_eq_add_one.mpr (Nat.zero_lt_of_lt (Nat.lt_of_lt_of_le h.shorter short))
      apply (accepts_none (startsWith_disjoint noKeyword_of_expression h.starts)).then
      rintro found rfl
      exact accepts_expressionStatement h short
  | forStmt kind isParen first condition isSemicolon increment isClose _ ih =>
      apply accepted_keyword kind rfl
      intro bound short nearest
      have shorterFirst := first.shorter
      have shorterCondition := condition.shorter
      have shorterIncrement := increment.shorter
      simp only [List.length_cons] at short shorterCondition shorterIncrement
      simp only [keywordStatement, kind]
      exact accepts_forStatement isParen first condition isSemicolon increment isClose (by omega)
        (ih bound (by omega) nearest)
  | ifStmt kind isParen condition isClose _ ih =>
      apply accepted_keyword kind rfl
      intro bound short nearest
      have shorter := condition.shorter
      simp only [Symbol.least, List.length_cons] at short shorter
      simp only [keywordStatement, kind]
      exact accepts_ifStatement isParen condition isClose (by omega)
        (ih bound (by omega) nearest) (nearest rfl)
  | ifElse kind isParen condition isClose thenBranch isElse _ ihThen ihElse =>
      apply accepted_keyword kind rfl
      intro bound short nearest
      have shorter := condition.shorter
      have shorterThen := thenBranch.shorter
      simp only [Symbol.least, StmtSymbol.least, List.length_cons] at short shorter shorterThen
      simp only [keywordStatement, kind]
      exact accepts_ifElse isParen condition isClose isElse (by omega)
        (ihThen bound (by omega) (by simp)) (ihElse bound (by omega) nearest)
  | printStmt kind derives isSemicolon =>
      apply accepted_keyword kind rfl
      intro bound short _
      simp only [keywordStatement, kind]
      apply (accepts_expression derives (Nat.le_succ_of_le short)
        (ends_of_kind isSemicolon rfl)).then
      intro e he
      apply (accepts_skip isSemicolon).then
      intro _ _
      apply accepts_pure
      rw [← he]
      rfl
  | returnStmt kind value isSemicolon =>
      apply accepted_keyword kind rfl
      intro bound short _
      simp only [keywordStatement, kind]
      apply (accepts_optionalExpression value isSemicolon rfl rfl (Nat.le_succ_of_le short)).then
      intro value' hvalue
      apply (accepts_skip isSemicolon).then
      intro _ _
      apply accepts_pure
      rw [← hvalue]
      rfl
  | whileStmt kind isParen condition isClose _ ih =>
      apply accepted_keyword kind rfl
      intro bound short nearest
      have shorter := condition.shorter
      simp only [Symbol.least, List.length_cons] at short shorter
      simp only [keywordStatement, kind]
      exact accepts_whileStatement isParen condition isClose (by omega)
        (ih bound (by omega) nearest)
  | breakStmt kind isSemicolon | continueStmt kind isSemicolon =>
      apply accepted_keyword kind rfl
      intro bound short _
      simp only [keywordStatement, kind]
      apply (accepts_skip isSemicolon).then
      exact fun _ _ => accepts_pure rfl
  | block kind _ isClose ih =>
      apply accepted_keyword kind rfl
      intro bound short _
      simp only [keywordStatement, kind]
      apply (accepts_block isClose (accepted_body ih isClose short (Nat.le_succ_of_le short))).then
      intro body hbody
      apply accepts_pure
      rw [← hbody]
      rfl

theorem accepts_program {ss : List Stmt} (h : DerivesStmt .declarations b [] ss) :
    Accepts true (Parser.program b.length) b [] fun ss' => stmtsUnnumbered ss' = ss := by
  have noStop : ∀ k, (fun _ : TokenKind => false) k = true → startsDeclaration k = false := by simp
  apply (h.accepted _ b.length b.length (Nat.le_refl _) (Nat.le_refl _) noStop rfl rfl).then
  exact fun found hfound => accepts_pure hfound

end ClassScript.Grammar
