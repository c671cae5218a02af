import ClassScript.Proofs.Grammar.Shape

/-!
# Lists of any length

The grammar of programs in which lists of parameters and arguments may have any length.
`DerivesLists X before after lists` says that the tokens of `before` up to `after` derive from `X`
in this grammar, and which lists stand in them. The lists in an expression are read off its tree,
which tells how many tokens each of its parts has. The tree of a `for` loop does not tell that, so
the lists in statements are read off the derivation.
-/

namespace ClassScript

inductive EntryKind where
  | parameters | arguments

def EntryKind.tooMany : EntryKind → ParseFault
  | parameters => .tooManyParameters
  | arguments => .tooManyArguments

def EntryKind.complaint : EntryKind → String
  | parameters => "Can't have more than 255 parameters."
  | arguments => "Can't have more than 255 arguments."

/-- A list of parameters or arguments, with the tokens from each of its entries on. -/
structure EntryList where
  kind : EntryKind
  entries : List (List Token)

namespace EntryList

def isLong (l : EntryList) : Bool := decide (Parser.maxListLength < l.entries.length)

/-- The tokens from the first entry on that is one too many. -/
def excess (l : EntryList) : List Token := l.entries.getD Parser.maxListLength []

/-- The fault of a list that is too long, on the line where the first entry starts that is one too
many. -/
def report (l : EntryList) : ParseError :=
  ⟨l.kind.tooMany, (l.excess.head?.map Token.line).getD 0⟩

theorem report_message (l : EntryList) : l.report.fault.message = l.kind.complaint := by
  unfold report
  cases l.kind <;> rfl

end EntryList

/-- The tokens from each entry on, for entries of the given widths with a token behind each. -/
def entriesFrom : List Nat → List Token → List (List Token)
  | [], _ => []
  | width :: widths, tokens => tokens :: entriesFrom widths (tokens.drop (width + 1))

def entriesWidth : List Nat → Nat
  | [] => 0
  | width :: widths => width + 1 + entriesWidth widths

mutual

def Expr.width : Expr → Nat
  | .literal .. | .var _ | .this _ => 1
  | .super .. => 3
  | .grouping inner => inner.width + 2
  | .unary _ operand => operand.width + 1
  | .assign _ value => value.width + 2
  | .logical left _ right | .binary left _ right => left.width + 1 + right.width
  | .call callee _ arguments => callee.width + 1 + max 1 (exprsWidth arguments)
  | .get object _ => object.width + 2
  | .set object _ value => object.width + 3 + value.width

def exprsWidth : List Expr → Nat
  | [] => 0
  | e :: es => e.width + 1 + exprsWidth es

end

mutual

/-- The lists of arguments in an expression that the tokens start with. -/
def Expr.lists : Expr → List Token → List EntryList
  | .literal .., _ | .var _, _ | .this _, _ | .super .., _ => []
  | .grouping inner, tokens => inner.lists (tokens.drop 1)
  | .unary _ operand, tokens => operand.lists (tokens.drop 1)
  | .assign _ value, tokens => value.lists (tokens.drop 2)
  | .logical left _ right, tokens | .binary left _ right, tokens =>
    left.lists tokens ++ right.lists (tokens.drop (left.width + 1))
  | .call callee _ arguments, tokens =>
    let behind := tokens.drop (callee.width + 1)
    callee.lists tokens ++
      ⟨.arguments, entriesFrom (arguments.map Expr.width) behind⟩ ::
        exprsLists arguments behind
  | .get object _, tokens => object.lists tokens
  | .set object _ value, tokens =>
    object.lists tokens ++ value.lists (tokens.drop (object.width + 3))

def exprsLists : List Expr → List Token → List EntryList
  | [], _ => []
  | e :: es, tokens => e.lists tokens ++ exprsLists es (tokens.drop (e.width + 1))

end

/-! ## Entries -/

theorem length_entriesFrom (widths : List Nat) (tokens : List Token) :
    (entriesFrom widths tokens).length = widths.length := by
  induction widths generalizing tokens with
  | nil => rfl
  | cons width widths ih => simp [entriesFrom, ih]

theorem entriesFrom_suffix (widths : List Nat) (tokens : List Token) :
    ∀ entry ∈ entriesFrom widths tokens, entry <:+ tokens := by
  induction widths generalizing tokens with
  | nil => exact nofun
  | cons width widths ih =>
      intro entry mem
      rcases List.mem_cons.mp mem with rfl | mem
      · exact List.suffix_refl _
      · exact (ih _ entry mem).trans (List.drop_suffix _ _)

theorem EntryList.excess_suffix {l : EntryList} {tokens : List Token}
    (h : ∀ entry ∈ l.entries, entry <:+ tokens) : l.excess <:+ tokens := by
  unfold excess
  rw [List.getD_eq_getElem?_getD]
  cases at_ : l.entries[Parser.maxListLength]? with
  | none => exact List.nil_suffix
  | some entry => exact h entry (List.mem_of_getElem? at_)

/-! ## Trees up to identities -/

mutual

theorem Expr.width_unnumbered : (e : Expr) → e.unnumbered.width = e.width
  | .literal .. | .var _ | .this _ | .super .. => rfl
  | .grouping e | .unary _ e | .assign _ e | .get e _ => by
      simp only [Expr.unnumbered, Expr.width, Expr.width_unnumbered e]
  | .logical l _ r | .binary l _ r | .set l _ r => by
      simp only [Expr.unnumbered, Expr.width, Expr.width_unnumbered l, Expr.width_unnumbered r]
  | .call e _ es => by
      simp only [Expr.unnumbered, Expr.width, Expr.width_unnumbered e, exprsWidth_unnumbered es]

theorem exprsWidth_unnumbered : (es : List Expr) → exprsWidth (exprsUnnumbered es) = exprsWidth es
  | [] => rfl
  | e :: es => by
      simp only [exprsUnnumbered, exprsWidth, Expr.width_unnumbered e, exprsWidth_unnumbered es]

end

theorem widths_unnumbered (es : List Expr) :
    (exprsUnnumbered es).map Expr.width = es.map Expr.width := by
  induction es with
  | nil => rfl
  | cons e es ih => rw [exprsUnnumbered, List.map_cons, List.map_cons, e.width_unnumbered, ih]

mutual

theorem Expr.lists_unnumbered : (e : Expr) → e.unnumbered.lists = e.lists
  | .literal .. | .var _ | .this _ | .super .. => rfl
  | .grouping e | .unary _ e | .assign _ e | .get e _ => by
      funext tokens
      simp only [Expr.unnumbered, Expr.lists, Expr.lists_unnumbered e]
  | .logical l _ r | .binary l _ r | .set l _ r => by
      funext tokens
      simp only [Expr.unnumbered, Expr.lists, Expr.lists_unnumbered l, Expr.lists_unnumbered r,
        Expr.width_unnumbered]
  | .call e _ es => by
      funext tokens
      simp only [Expr.unnumbered, Expr.lists, Expr.lists_unnumbered e, exprsLists_unnumbered es,
        Expr.width_unnumbered, widths_unnumbered]

theorem exprsLists_unnumbered : (es : List Expr) → exprsLists (exprsUnnumbered es) = exprsLists es
  | [] => rfl
  | e :: es => by
      funext tokens
      simp only [exprsUnnumbered, exprsLists, Expr.lists_unnumbered e, exprsLists_unnumbered es,
        Expr.width_unnumbered]

end

/-! ## Where the lists stand -/

theorem Expr.width_pos (e : Expr) : 0 < e.width := by
  cases e <;> simp only [Expr.width] <;> omega

def EntriesWithin (lists : List EntryList) (tokens : List Token) : Prop :=
  ∀ l ∈ lists, ∀ entry ∈ l.entries, entry <:+ tokens

section

variable {lists lists' : List EntryList} {tokens tokens' : List Token}

theorem entriesWithin_nil : EntriesWithin [] tokens := nofun

theorem EntriesWithin.append (h : EntriesWithin lists tokens) (h' : EntriesWithin lists' tokens) :
    EntriesWithin (lists ++ lists') tokens := List.forall_mem_append.mpr ⟨h, h'⟩

theorem EntriesWithin.cons {l : EntryList} (first : ∀ entry ∈ l.entries, entry <:+ tokens)
    (h : EntriesWithin lists tokens) : EntriesWithin (l :: lists) tokens :=
  List.forall_mem_cons.mpr ⟨first, h⟩

theorem EntriesWithin.mono (h : EntriesWithin lists tokens) (suffix : tokens <:+ tokens') :
    EntriesWithin lists tokens' := fun l mem entry mem' => (h l mem entry mem').trans suffix

theorem EntriesWithin.behind {k : Nat} (h : EntriesWithin lists (tokens.drop k).tail) :
    EntriesWithin lists tokens.tail := by
  apply h.mono
  rw [List.tail_drop, ← List.drop_tail]
  exact List.drop_suffix _ _

end

mutual

theorem Expr.lists_within : (e : Expr) → (tokens : List Token) →
    EntriesWithin (e.lists tokens) tokens.tail
  | .literal .., _ | .var _, _ | .this _, _ | .super .., _ => entriesWithin_nil
  | .grouping e, tokens | .unary _ e, tokens | .assign _ e, tokens => by
      rw [Expr.lists]
      exact (Expr.lists_within e _).behind
  | .get e _, tokens => by
      rw [Expr.lists]
      exact Expr.lists_within e tokens
  | .logical l _ r, tokens | .binary l _ r, tokens | .set l _ r, tokens => by
      rw [Expr.lists]
      exact (Expr.lists_within l tokens).append (Expr.lists_within r _).behind
  | .call e _ es, tokens => by
      rw [Expr.lists]
      have arguments : tokens.drop (e.width + 1) <:+ tokens.tail := by
        rw [← List.drop_tail]
        exact List.drop_suffix _ _
      apply (Expr.lists_within e tokens).append
      apply EntriesWithin.cons
      · exact fun entry mem => (entriesFrom_suffix _ _ entry mem).trans arguments
      · exact (exprsLists_within es _).behind

theorem exprsLists_within : (es : List Expr) → (tokens : List Token) →
    EntriesWithin (exprsLists es tokens) tokens.tail
  | [], _ => entriesWithin_nil
  | e :: es, tokens => by
      rw [exprsLists]
      exact (Expr.lists_within e tokens).append (exprsLists_within es _).behind

end

namespace Grammar

/-! ## The grammar -/

inductive ExpressionLists : List Token → List Token → List EntryList → Prop
  | mk {b a e} : Derives false .expression b a e → ExpressionLists b a (e.lists b)

/-- expression? -/
inductive OptionalLists : List Token → List Token → List EntryList → Prop
  | none {a} : OptionalLists a a []
  | some {b a lists} : ExpressionLists b a lists → OptionalLists b a lists

/-- parameters? -/
inductive ParameterLists : List Token → List Token → List EntryList → Prop
  | none {a} : ParameterLists a a []
  | some {b a names} : Parameters b a names →
      ParameterLists b a [⟨.parameters, entriesFrom (names.map fun _ => 1) b⟩]

inductive VarDeclLists : List Token → List Token → List EntryList → Prop
  | plain {keyword name semicolon a} : keyword.kind = .kwVar → name.kind = .identifier →
      semicolon.kind = .semicolon → VarDeclLists (keyword :: name :: semicolon :: a) a []
  | initialized {keyword name equals semicolon b a lists} : keyword.kind = .kwVar →
      name.kind = .identifier → equals.kind = .equal →
      ExpressionLists b (semicolon :: a) lists → semicolon.kind = .semicolon →
      VarDeclLists (keyword :: name :: equals :: b) a lists

inductive ExprStmtLists : List Token → List Token → List EntryList → Prop
  | mk {semicolon b a lists} : ExpressionLists b (semicolon :: a) lists →
      semicolon.kind = .semicolon → ExprStmtLists b a lists

/-- varDecl | exprStmt | ";" -/
inductive ForFirstLists : List Token → List Token → List EntryList → Prop
  | varDecl {b a lists} : VarDeclLists b a lists → ForFirstLists b a lists
  | exprStmt {b a lists} : ExprStmtLists b a lists → ForFirstLists b a lists
  | none {semicolon a} : semicolon.kind = .semicolon → ForFirstLists (semicolon :: a) a []

/-- The productions of `DerivesStmt`, for lists of any length. -/
inductive DerivesLists : StmtSymbol → List Token → List Token → List EntryList → Prop
  -- declaration*
  | noDeclaration {a} : DerivesLists .declarations a a []
  | declarations {b c a lists lists'} : DerivesLists .declaration b c lists →
      DerivesLists .declarations c a lists' → DerivesLists .declarations b a (lists ++ lists')
  -- declaration → classDecl | funDecl | varDecl | statement
  | classDecl {keyword name start close b c a superclass lists} : keyword.kind = .kwClass →
      name.kind = .identifier → Superclass b (start :: c) superclass →
      start.kind = .leftBrace → DerivesLists .functions c (close :: a) lists →
      close.kind = .rightBrace → DerivesLists .declaration (keyword :: name :: b) a lists
  | funDecl {keyword b a lists} : keyword.kind = .kwFun → DerivesLists .function b a lists →
      DerivesLists .declaration (keyword :: b) a lists
  | varDecl {b a lists} : VarDeclLists b a lists → DerivesLists .declaration b a lists
  | statement {b a lists} : DerivesLists (.statement false) b a lists →
      DerivesLists .declaration b a lists
  -- function*
  | noFunction {a} : DerivesLists .functions a a []
  | functions {b c a lists lists'} : DerivesLists .function b c lists →
      DerivesLists .functions c a lists' → DerivesLists .functions b a (lists ++ lists')
  -- function → IDENT "(" parameters? ")" block
  | function {name paren close start stop b c a lists lists'} : name.kind = .identifier →
      paren.kind = .leftParen → ParameterLists b (close :: start :: c) lists →
      close.kind = .rightParen → start.kind = .leftBrace →
      DerivesLists .declarations c (stop :: a) lists' → stop.kind = .rightBrace →
      DerivesLists .function (name :: paren :: b) a (lists ++ lists')
  -- statements
  | exprStmt {closed b a lists} : ExprStmtLists b a lists →
      DerivesLists (.statement closed) b a lists
  | forStmt {closed keyword paren semicolon close b c d e a first condition increment lists} :
      keyword.kind = .kwFor → paren.kind = .leftParen → ForFirstLists b c first →
      OptionalLists c (semicolon :: d) condition → semicolon.kind = .semicolon →
      OptionalLists d (close :: e) increment → close.kind = .rightParen →
      DerivesLists (.statement closed) e a lists →
      DerivesLists (.statement closed) (keyword :: paren :: b) a
        (first ++ (condition ++ (increment ++ lists)))
  | ifStmt {keyword paren close b c a condition lists} : keyword.kind = .kwIf →
      paren.kind = .leftParen → ExpressionLists b (close :: c) condition →
      close.kind = .rightParen → DerivesLists (.statement false) c a lists →
      DerivesLists (.statement false) (keyword :: paren :: b) a (condition ++ lists)
  | ifElse {closed keyword paren close other b c d a condition lists lists'} :
      keyword.kind = .kwIf → paren.kind = .leftParen → ExpressionLists b (close :: c) condition →
      close.kind = .rightParen → DerivesLists (.statement true) c (other :: d) lists →
      other.kind = .kwElse → DerivesLists (.statement closed) d a lists' →
      DerivesLists (.statement closed) (keyword :: paren :: b) a (condition ++ (lists ++ lists'))
  | printStmt {closed keyword semicolon b a lists} : keyword.kind = .kwPrint →
      ExpressionLists b (semicolon :: a) lists → semicolon.kind = .semicolon →
      DerivesLists (.statement closed) (keyword :: b) a lists
  | returnStmt {closed keyword semicolon b a lists} : keyword.kind = .kwReturn →
      OptionalLists b (semicolon :: a) lists → semicolon.kind = .semicolon →
      DerivesLists (.statement closed) (keyword :: b) a lists
  | whileStmt {closed keyword paren close b c a condition lists} : keyword.kind = .kwWhile →
      paren.kind = .leftParen → ExpressionLists b (close :: c) condition →
      close.kind = .rightParen → DerivesLists (.statement closed) c a lists →
      DerivesLists (.statement closed) (keyword :: paren :: b) a (condition ++ lists)
  | breakStmt {closed keyword semicolon a} : keyword.kind = .kwBreak →
      semicolon.kind = .semicolon →
      DerivesLists (.statement closed) (keyword :: semicolon :: a) a []
  | continueStmt {closed keyword semicolon a} : keyword.kind = .kwContinue →
      semicolon.kind = .semicolon →
      DerivesLists (.statement closed) (keyword :: semicolon :: a) a []
  | block {closed start stop b a lists} : start.kind = .leftBrace →
      DerivesLists .declarations b (stop :: a) lists → stop.kind = .rightBrace →
      DerivesLists (.statement closed) (start :: b) a lists

/-! ## Its shape -/

variable {b a : List Token} {lists : List EntryList}

theorem ExpressionLists.shorter (h : ExpressionLists b a lists) : a.length < b.length := by
  cases h with
  | mk h => exact h.shorter

theorem OptionalLists.shorter (h : OptionalLists b a lists) : a.length ≤ b.length := by
  cases h with
  | none => exact Nat.le_refl _
  | some h => exact Nat.le_of_lt h.shorter

theorem ParameterLists.shorter (h : ParameterLists b a lists) : a.length ≤ b.length := by
  cases h with
  | none => exact Nat.le_refl _
  | some h => exact Nat.le_of_lt h.shorter

theorem VarDeclLists.shorter (h : VarDeclLists b a lists) : a.length < b.length := by
  cases h with
  | plain =>
      simp only [List.length_cons]
      omega
  | initialized _ _ _ h =>
      have := h.shorter
      simp only [List.length_cons] at *
      omega

theorem ExprStmtLists.shorter (h : ExprStmtLists b a lists) : a.length < b.length := by
  cases h with
  | mk h => exact Nat.lt_of_succ_lt h.shorter

theorem ForFirstLists.shorter (h : ForFirstLists b a lists) : a.length < b.length := by
  cases h with
  | varDecl h => exact h.shorter
  | exprStmt h => exact h.shorter
  | none => exact Nat.lt_succ_self _

theorem DerivesLists.shorter {X : StmtSymbol} (h : DerivesLists X b a lists) :
    a.length + X.least ≤ b.length := by
  induction h with
  | classDecl _ _ superclass =>
      have := superclass.shorter
      simp only [StmtSymbol.least, List.length_cons] at *
      omega
  | varDecl h => exact h.shorter
  | function _ _ params =>
      have := params.shorter
      simp only [StmtSymbol.least, List.length_cons] at *
      omega
  | exprStmt h => exact h.shorter
  | forStmt _ _ first condition _ increment =>
      have := first.shorter
      have := condition.shorter
      have := increment.shorter
      simp only [StmtSymbol.least, List.length_cons] at *
      omega
  | ifStmt _ _ condition | ifElse _ _ condition | whileStmt _ _ condition =>
      have := condition.shorter
      simp only [StmtSymbol.least, List.length_cons] at *
      omega
  | printStmt _ h =>
      have := h.shorter
      simp only [StmtSymbol.least, List.length_cons] at *
      omega
  | returnStmt _ h =>
      have := h.shorter
      simp only [StmtSymbol.least, List.length_cons] at *
      omega
  | _ =>
      simp only [StmtSymbol.least, List.length_cons] at *
      omega

theorem ExpressionLists.starts (h : ExpressionLists b a lists) :
    startsWith startsExpression b = true := by
  cases h with
  | mk h => exact h.starts

theorem ExprStmtLists.starts (h : ExprStmtLists b a lists) :
    startsWith startsExpression b = true := by
  cases h with
  | mk h => exact h.starts

theorem VarDeclLists.starts (h : VarDeclLists b a lists) :
    startsWith (· == .kwVar) b = true := by
  cases h with
  | plain kind | initialized kind => exact startsWith_of_kind kind rfl

theorem DerivesLists.starts {X : StmtSymbol} (h : DerivesLists X b a lists) : X.Starts b a := by
  induction h with
  | noDeclaration | noFunction => exact .inl rfl
  | declarations _ _ ih => exact .inr ih
  | functions _ _ ih => exact .inr ih
  | classDecl kind | funDecl kind | function kind => exact startsWith_of_kind kind rfl
  | varDecl h =>
      apply startsWith_of_imp _ h.starts
      intro k hk
      rw [beq_iff_eq.mp hk]
      rfl
  | statement _ ih => exact startsWith_of_imp startsDeclaration_of_stmt ih
  | exprStmt h => exact startsWith_of_imp startsStmt_of_expression h.starts
  | forStmt kind | ifStmt kind | ifElse kind | printStmt kind | returnStmt kind | whileStmt kind
  | breakStmt kind | continueStmt kind | block kind => exact startsWith_of_kind kind rfl

/-! ## Programs with short lists -/

theorem expressionLists_of_derives {e : Expr} (h : Derives true .expression b a e) :
    ExpressionLists b a (e.lists b) := .mk (unlimited_of_derives h)

theorem optionalLists_of_optionally {e : Option Expr} (h : Optionally b a e) :
    ∃ lists, OptionalLists b a lists := by
  cases h with
  | none => exact ⟨_, .none⟩
  | some h => exact ⟨_, .some (expressionLists_of_derives h)⟩

theorem parameterLists_of_list {names : List Token} (h : ParameterList b a names) :
    ∃ lists, ParameterLists b a lists := by
  cases h with
  | none => exact ⟨_, .none⟩
  | some h => exact ⟨_, .some h⟩

theorem varDeclLists_of_varDecl {s : Stmt} (h : VarDecl b a s) :
    ∃ lists, VarDeclLists b a lists := by
  cases h with
  | plain hk hn hs => exact ⟨_, .plain hk hn hs⟩
  | initialized hk hn he h hs =>
      exact ⟨_, .initialized hk hn he (expressionLists_of_derives h) hs⟩

theorem exprStmtLists_of_exprStmt {s : Stmt} (h : ExprStmt b a s) :
    ∃ lists, ExprStmtLists b a lists := by
  cases h with
  | mk h hs => exact ⟨_, .mk (expressionLists_of_derives h) hs⟩

theorem forFirstLists_of_forFirst {first : Option Stmt} (h : ForFirst b a first) :
    ∃ lists, ForFirstLists b a lists := by
  cases h with
  | varDecl h =>
      obtain ⟨_, h⟩ := varDeclLists_of_varDecl h
      exact ⟨_, .varDecl h⟩
  | exprStmt h =>
      obtain ⟨_, h⟩ := exprStmtLists_of_exprStmt h
      exact ⟨_, .exprStmt h⟩
  | none hs => exact ⟨_, .none hs⟩

theorem derivesLists_of_derives {X : StmtSymbol} {tree : X.Tree} (h : DerivesStmt X b a tree) :
    ∃ lists, DerivesLists X b a lists := by
  induction h with
  | noDeclaration => exact ⟨_, .noDeclaration⟩
  | declarations _ _ ih ih' =>
      obtain ⟨_, first⟩ := ih
      obtain ⟨_, rest⟩ := ih'
      exact ⟨_, .declarations first rest⟩
  | classDecl hk hn superclass hs _ hc ih =>
      obtain ⟨_, methods⟩ := ih
      exact ⟨_, .classDecl hk hn superclass hs methods hc⟩
  | funDecl hk _ ih =>
      obtain ⟨_, h⟩ := ih
      exact ⟨_, .funDecl hk h⟩
  | varDecl h =>
      obtain ⟨_, h⟩ := varDeclLists_of_varDecl h
      exact ⟨_, .varDecl h⟩
  | statement _ ih =>
      obtain ⟨_, h⟩ := ih
      exact ⟨_, .statement h⟩
  | noFunction => exact ⟨_, .noFunction⟩
  | functions _ _ ih ih' =>
      obtain ⟨_, first⟩ := ih
      obtain ⟨_, rest⟩ := ih'
      exact ⟨_, .functions first rest⟩
  | function hn hp params hc hs _ ht ih =>
      obtain ⟨_, params⟩ := parameterLists_of_list params
      obtain ⟨_, body⟩ := ih
      exact ⟨_, .function hn hp params hc hs body ht⟩
  | exprStmt h =>
      obtain ⟨_, h⟩ := exprStmtLists_of_exprStmt h
      exact ⟨_, .exprStmt h⟩
  | forStmt hk hp first condition hs increment hc _ ih =>
      obtain ⟨_, first⟩ := forFirstLists_of_forFirst first
      obtain ⟨_, condition⟩ := optionalLists_of_optionally condition
      obtain ⟨_, increment⟩ := optionalLists_of_optionally increment
      obtain ⟨_, body⟩ := ih
      exact ⟨_, .forStmt hk hp first condition hs increment hc body⟩
  | ifStmt hk hp condition hc _ ih =>
      obtain ⟨_, h⟩ := ih
      exact ⟨_, .ifStmt hk hp (expressionLists_of_derives condition) hc h⟩
  | ifElse hk hp condition hc _ ho _ ih ih' =>
      obtain ⟨_, h⟩ := ih
      obtain ⟨_, h'⟩ := ih'
      exact ⟨_, .ifElse hk hp (expressionLists_of_derives condition) hc h ho h'⟩
  | printStmt hk h hs => exact ⟨_, .printStmt hk (expressionLists_of_derives h) hs⟩
  | returnStmt hk h hs =>
      obtain ⟨_, h⟩ := optionalLists_of_optionally h
      exact ⟨_, .returnStmt hk h hs⟩
  | whileStmt hk hp condition hc _ ih =>
      obtain ⟨_, h⟩ := ih
      exact ⟨_, .whileStmt hk hp (expressionLists_of_derives condition) hc h⟩
  | breakStmt hk hs => exact ⟨_, .breakStmt hk hs⟩
  | continueStmt hk hs => exact ⟨_, .continueStmt hk hs⟩
  | block hs _ ht ih =>
      obtain ⟨_, h⟩ := ih
      exact ⟨_, .block hs h ht⟩

theorem Optionally.shorter {e : Option Expr} (h : Optionally b a e) : a.length ≤ b.length := by
  obtain ⟨_, h⟩ := optionalLists_of_optionally h
  exact h.shorter

theorem ParameterList.shorter {names : List Token} (h : ParameterList b a names) :
    a.length ≤ b.length := by
  obtain ⟨_, h⟩ := parameterLists_of_list h
  exact h.shorter

theorem ExprStmt.shorter {s : Stmt} (h : ExprStmt b a s) : a.length < b.length := by
  obtain ⟨_, h⟩ := exprStmtLists_of_exprStmt h
  exact h.shorter

theorem ForFirst.shorter {s : Option Stmt} (h : ForFirst b a s) : a.length < b.length := by
  obtain ⟨_, h⟩ := forFirstLists_of_forFirst h
  exact h.shorter

theorem DerivesStmt.shorter {X : StmtSymbol} {tree : X.Tree} (h : DerivesStmt X b a tree) :
    a.length + X.least ≤ b.length := by
  obtain ⟨_, h⟩ := derivesLists_of_derives h
  exact h.shorter

theorem ExprStmt.starts {s : Stmt} (h : ExprStmt b a s) : startsWith startsExpression b = true := by
  obtain ⟨_, h⟩ := exprStmtLists_of_exprStmt h
  exact h.starts

theorem DerivesStmt.starts {X : StmtSymbol} {tree : X.Tree} (h : DerivesStmt X b a tree) :
    X.Starts b a := by
  obtain ⟨_, h⟩ := derivesLists_of_derives h
  exact h.starts

end Grammar

end ClassScript
