import ClassScript.Proofs.Parser.Concatenation

/-!
# Parsing ends

A parser stands at a position among the tokens, which end with the first end token. Every rule of
the grammar keeps the parser within them and never goes back, and what it does depends neither on
how often its loops may go on nor on how deep its nested rules may go, as long as the bounds are not
below the number of tokens left (`Rule.steady`). This is so because nested rules start behind a
token (`expression_behind`, `statement_behind`), and because a declaration takes a token even where
it fails (`declaration_progress`).
-/

namespace ClassScript.Parser

open Grammar

/-! ## Positions -/

/-- The tokens, with an end token added if they do not end with one. -/
def terminated (tokens : List Token) : List Token :=
  if tokens.getLast?.any (·.kind == .eof) then tokens
  else tokens ++ [Token.endOfInput ((tokens.getLast?.map Token.line).getD 1)]

def endPosition (tokens : List Token) : Nat := (terminated tokens).findIdx (·.kind == .eof)

/-- What is left to read of the tokens, the first end token included, is what stands at position
`k` and behind it. -/
structure State.At (tokens : List Token) (k : Nat) (s : State) : Prop where
  within : k ≤ endPosition tokens
  ahead : s.tokens ++ [s.stop] = ((terminated tokens).take (endPosition tokens + 1)).drop k

variable {tokens : List Token} {s t : State} {k : Nat}

theorem terminated_ends (tokens : List Token) : ∃ t ∈ terminated tokens, t.kind = .eof := by
  unfold terminated
  split
  · rename_i ends
    cases last : tokens.getLast? with
    | none => simp [last] at ends
    | some t =>
        rw [last] at ends
        exact ⟨t, List.mem_of_getLast? last, beq_iff_eq.mp ends⟩
  · exact ⟨_, List.mem_append_right _ (List.mem_singleton_self _), rfl⟩

theorem endPosition_lt (tokens : List Token) : endPosition tokens < (terminated tokens).length := by
  obtain ⟨t, mem, eof⟩ := terminated_ends tokens
  exact List.findIdx_lt_length_of_exists ⟨t, mem, beq_iff_eq.mpr eof⟩

theorem start_append {A : List Token} (ends : ∃ t ∈ A, t.kind = .eof) (B : List Token)
    (firstId : Nat) : State.start firstId (A ++ B) = State.start firstId A := by
  have front : (A ++ B).takeWhile (·.kind != .eof) = A.takeWhile (·.kind != .eof) ∧
      ∃ stop, (A ++ B).find? (·.kind == .eof) = some stop ∧
        A.find? (·.kind == .eof) = some stop := by
    induction A with
    | nil => simp at ends
    | cons t A ih =>
        cases eof : t.kind == .eof with
        | true => simp [bne, eof]
        | false =>
            obtain ⟨u, mem, last⟩ := ends
            rcases List.mem_cons.mp mem with rfl | mem
            · simp [last] at eof
            · obtain ⟨same, stop, found, found'⟩ := ih ⟨u, mem, last⟩
              simp only [bne] at same
              simp [bne, eof, same, found, found']
  obtain ⟨same, stop, found, found'⟩ := front
  simp only [State.start, same, found, found', Option.getD_some]

theorem start_terminated (firstId : Nat) (tokens : List Token) :
    State.start firstId (terminated tokens) = State.start firstId tokens := by
  unfold terminated
  split
  · rfl
  · by_cases ends : ∃ t ∈ tokens, t.kind = .eof
    · exact start_append ends _ firstId
    · push Not at ends
      rw [start_endless ends]
      have all : tokens.takeWhile (·.kind != .eof) = tokens := written_of_noEnd ends
      have none : tokens.find? (·.kind == .eof) = none := by
        apply List.find?_eq_none.mpr
        intro t mem
        simpa using ends t mem
      simp [State.start, List.takeWhile_append, all, none, Token.endOfInput]

theorem start_ahead {tokens : List Token} (ends : ∃ t ∈ tokens, t.kind = .eof) (firstId : Nat) :
    (State.start firstId tokens).tokens ++ [(State.start firstId tokens).stop] =
      tokens.take (tokens.findIdx (·.kind == .eof) + 1) := by
  simp only [State.start]
  obtain ⟨stop, found⟩ : ∃ stop, tokens.find? (·.kind == .eof) = some stop := by
    obtain ⟨t, mem, eof⟩ := ends
    exact Option.isSome_iff_exists.mp (List.find?_isSome.mpr ⟨t, mem, beq_iff_eq.mpr eof⟩)
  rw [found, Option.getD_some]
  clear ends
  induction tokens with
  | nil => cases found
  | cons t tokens ih =>
      cases eof : t.kind == .eof with
      | true =>
          obtain rfl : t = stop := by simpa [eof] using found
          simp [bne, eof, List.findIdx_cons]
      | false =>
          rw [List.find?_cons, eof] at found
          simpa [bne, eof, List.findIdx_cons] using ih found

theorem start_at (firstId : Nat) (tokens : List Token) :
    (State.start firstId tokens).At tokens 0 where
  within := Nat.zero_le _
  ahead := by
    rw [← start_terminated, start_ahead (terminated_ends tokens)]
    rfl

theorem State.At.front (h : s.At tokens k) : (terminated tokens)[k]? = some s.front := by
  have head : (s.tokens ++ [s.stop]).head? = some s.front := by
    unfold State.front
    cases s.tokens <;> rfl
  rw [h.ahead, List.head?_drop, List.getElem?_take] at head
  simpa [Nat.lt_succ_of_le h.within] using head

theorem State.At.left (h : s.At tokens k) : k + s.tokens.length = endPosition tokens := by
  have lengths := congrArg List.length h.ahead
  have inside := endPosition_lt tokens
  have within := h.within
  simp only [List.length_append, List.length_drop, List.length_take,
    List.length_singleton] at lengths
  omega

theorem State.At.stop (h : s.At tokens k) : s.stop.kind = .eof := by
  have last : (s.tokens ++ [s.stop])[s.tokens.length]? = some s.stop := List.getElem?_concat_length
  have inside := endPosition_lt tokens
  rw [h.ahead, List.getElem?_drop, h.left, List.getElem?_take_of_lt (Nat.lt_succ_self _),
    List.getElem?_eq_getElem inside] at last
  have eof : (terminated tokens)[endPosition tokens].kind = .eof :=
    beq_iff_eq.mp (List.findIdx_getElem (w := inside))
  rw [← Option.some.inj last, eof]

theorem State.At.advances (h : s.At tokens k) (hst : s.Advances t) :
    ∃ k', k ≤ k' ∧ t.At tokens k' := by
  obtain ⟨taken, split⟩ := hst.tokens
  have left := h.left
  have ahead := h.ahead
  rw [← split, List.length_append] at left
  rw [← split, List.append_assoc] at ahead
  refine ⟨k + taken.length, Nat.le_add_right _ _, ⟨by omega, ?_⟩⟩
  rw [← List.drop_drop, ← ahead, List.drop_left, hst.stop]

/-! ## The rules of the grammar -/

/-- The rules of the parser, with what they are given, and the loops in them. -/
inductive Rule : Type → Type 1
  -- looking at a token and taking it
  | peek : Rule Token
  | sees (kind : TokenKind) : Rule Bool
  | accept (wanted : TokenKind → Bool) : Rule (Option Token)
  | expect (what : Expectation) : Rule Token
  | advance : Rule Unit
  -- expressions
  | primary : Rule Expr
  | arguments : Rule (List Expr)
  | argumentsFrom (count : Nat) : Rule (List Expr)
  | callChain (callee : Expr) : Rule Expr
  | call : Rule Expr
  | level (l : Level) : Rule Expr
  | operations {l next : Level} (tighter : l.next = some next) (left : Expr) : Rule Expr
  | assignment : Rule Expr
  | expression : Rule Expr
  | optionalExpression (without : TokenKind) : Rule (Option Expr)
  | wholeExpression : Rule Expr
  -- statements
  | varDeclaration : Rule Stmt
  | expressionStatement : Rule Stmt
  | forInitializer : Rule (Option Stmt)
  | forStatement (keyword : Token) : Rule Stmt
  | ifStatement : Rule Stmt
  | whileStatement : Rule Stmt
  | keywordStatement (keyword : Token) : Rule Stmt
  | statementRule : Rule Stmt
  | statement : Rule Stmt
  -- declarations
  | declarations (stops : TokenKind → Bool) : Rule (List (Option Stmt))
  | block : Rule (List Stmt)
  | parametersFrom (count : Nat) : Rule (List Token)
  | callable (kind : CallableKind) : Rule (FunctionDecl Stmt)
  | methods : Rule (List (FunctionDecl Stmt))
  | superclass : Rule (Option Occurrence)
  | classDeclaration : Rule Stmt
  | declarationRule : Rule Stmt
  | declaration : Rule (Option Stmt)
  | program : Rule (List Stmt)

def Rule.parser (bound : Nat) : {α : Type} → Rule α → Parser α
  | _, peek => Parser.peek
  | _, sees kind => Parser.sees kind
  | _, accept wanted => accept? wanted
  | _, expect what => Parser.expect what
  | _, advance => Parser.advance
  | _, primary => Parser.primary (Parser.expression bound)
  | _, arguments => Parser.arguments (bound + 1) (Parser.expression bound)
  | _, argumentsFrom count =>
    commaList .tooManyArguments (Parser.expression bound) (bound + 1) count
  | _, callChain callee => Parser.callChain (Parser.expression bound) (bound + 1) callee
  | _, call => Parser.call (bound + 1) (Parser.expression bound)
  | _, level l => l.parser (bound + 1) (Parser.expression bound) (bound + 1)
  | _, @operations l next _ left =>
    leftChain l.node l.operators (next.parser (bound + 1) (Parser.expression bound) (bound + 1))
      (bound + 1) left
  | _, assignment => Parser.assignment (bound + 1) (Parser.expression bound)
  | _, expression => Parser.expression bound
  | _, optionalExpression without => Parser.optionalExpression bound without
  | _, wholeExpression => Parser.wholeExpression bound
  | _, varDeclaration => Parser.varDeclaration bound
  | _, expressionStatement => Parser.expressionStatement bound
  | _, forInitializer => Parser.forInitializer bound
  | _, forStatement keyword => Parser.forStatement keyword (bound + 1) (Parser.statement bound)
  | _, ifStatement => Parser.ifStatement (bound + 1) (Parser.statement bound)
  | _, whileStatement => Parser.whileStatement (bound + 1) (Parser.statement bound)
  | _, keywordStatement keyword =>
    Parser.keywordStatement keyword (bound + 1) (Parser.declaration bound) (Parser.statement bound)
  | _, statementRule =>
    Parser.statementRule (bound + 1) (Parser.declaration bound) (Parser.statement bound)
  | _, statement => Parser.statement bound
  | _, declarations stops => many stops (Parser.declaration bound) (bound + 1)
  | _, block => Parser.block (bound + 1) (Parser.declaration bound)
  | _, parametersFrom count =>
    commaList .tooManyParameters (Parser.expect .parameterName) (bound + 1) count
  | _, callable kind => Parser.callable kind (bound + 1) (Parser.declaration bound)
  | _, methods =>
    many (· == .rightBrace) (Parser.callable .method (bound + 1) (Parser.declaration bound))
      (bound + 1)
  | _, superclass => superclass?
  | _, classDeclaration => Parser.classDeclaration (bound + 1) (Parser.declaration bound)
  | _, declarationRule =>
    Parser.declarationRule (bound + 1) (Parser.declaration bound) (Parser.statement bound)
  | _, declaration => Parser.declaration bound
  | _, program => Parser.program bound

/-! ## Runs with other bounds -/

variable {α β : Type} {only : TokenKind → Bool} {m : Mode} {f : α → α} {p p' : Parser α}
  {u : State} {stop : u.stop.kind = .eof} {bound bound' : Nat}

theorem Carries.unshifted {w : Surroundings} (h : Carries w only m f p p' s) (same : ∀ a, f a = a) :
    Carries w anyKind ⟨false, false⟩ id p p' s := by
  obtain rfl : f = id := funext same
  exact (h.loosen fun _ _ => rfl).at (by simp [Mode.gives])

theorem Carries.same_run (h : Carries (nowhere u stop) only m f p p' s)
    (same : ∀ a, f a = a) (atEnd : s.stop = u.stop) : p' s = p s := by
  unfold Carries Ends at h
  rw [nowhere_place atEnd] at h
  split at h
  · rename_i a t run
    obtain ⟨takes, -, carried⟩ := h
    have atEnd' : t.stop = u.stop := takes.stop.trans atEnd
    rw [run, carried (.inr (nowhere_hidden atEnd')), same, nowhere_place atEnd']
  · rename_i e t run
    obtain ⟨takes, carried⟩ := h
    have atEnd' : t.stop = u.stop := takes.stop.trans atEnd
    rw [run, carried (nowhere_hidden atEnd'), nowhere_place atEnd']

theorem carries_same {Q : α → State → Prop} (h : Proceeds p s Q) (atEnd : s.stop = u.stop) :
    Carries (nowhere u stop) anyKind ⟨false, false⟩ id p p s := by
  unfold Carries Ends
  unfold Proceeds Ends at h
  rw [nowhere_place atEnd]
  cases run : p s with
  | ok a t =>
      rw [run] at h
      refine ⟨⟨h.1, fun _ _ _ _ => rfl⟩, nofun, fun _ => ?_⟩
      rw [nowhere_place (h.1.stop.trans atEnd)]
      rfl
  | error e t =>
      rw [run] at h
      refine ⟨⟨h, fun _ _ _ _ => rfl⟩, fun _ => ?_⟩
      rw [nowhere_place (h.stop.trans atEnd)]

/-! ## The end of the input -/

theorem stuck_declarationRule (k : Nat) (declaration : Parser (Option Stmt))
    (statement : Parser Stmt) : Stuck (declarationRule k declaration statement) :=
  Stuck.missed (Stuck.missed ((stuck_expression k).then _) _) _

theorem declaration_end (bound : Nat) (tokens : s.tokens = []) (stop : s.stop.kind = .eof) :
    declaration bound s = recovering noExpression s := by
  cases bound with
  | zero => rfl
  | succ bound =>
      have stuck :=
        stuck_declarationRule (bound + 1) (declaration bound) (statement bound) s tokens stop
      rw [declaration]
      unfold recovering
      rw [stuck]

/-! ## Nested rules start behind a token -/

theorem expression_behind {nested : Parser Expr} (stop : s.stop.kind = .eof)
    (enough : s.tokens.length ≤ bound + 1)
    (agree : ∀ t, t.stop = s.stop → t.tokens.length < s.tokens.length →
      nested t = expression bound t) :
    assignment (bound + 1) nested s = expression (bound + 1) s := by
  let w := nowhere s stop
  have nested' : Nested w s.tokens.length (expression bound) nested := by
    intro t stop' fewer
    have fits : w.Fits bound bound t := nowhere_fits (by omega) (by omega)
    have same : nested (w.place t) = expression bound (w.place t) :=
      agree _ rfl (by simpa [w, nowhere, Surroundings.place] using fewer)
    exact (carries_expression bound bound stop' fits).of_runs rfl same
  have carries := carries_assignment nested' enough enough stop (Nat.le_refl _)
  exact carries.same_run Expr.shifted_zero rfl

theorem statement_behind {declaration' : Parser (Option Stmt)} {statement' : Parser Stmt}
    (stop : s.stop.kind = .eof) (enough : s.tokens.length ≤ bound + 1)
    (agree : ∀ t, t.stop = s.stop → t.tokens.length < s.tokens.length →
      declaration' t = declaration bound t ∧ statement' t = statement bound t) :
    statementRule (bound + 1) declaration' statement' s = statement (bound + 1) s ∧
      recovering (declarationRule (bound + 1) declaration' statement') s =
        declaration (bound + 1) s := by
  let w := nowhere s stop
  have fits (t : State) (fewer : t.tokens.length < s.tokens.length) : w.Fits bound bound t :=
    nowhere_fits (by omega) (by omega)
  have same (t : State) (fewer : t.tokens.length < s.tokens.length) :=
    agree (w.place t) rfl (by simpa [w, nowhere, Surroundings.place] using fewer)
  have nested : NestedStmts w s.tokens.length (declaration bound) declaration' (statement bound)
      statement' := by
    constructor
    · intro t stop' fewer some
      have carries := (carries_nested rfl bound bound stop' (fits t fewer)).2 some
      exact carries.of_runs rfl (same t fewer).1
    · intro t stop' fewer
      have carries := (carries_nested rfl bound bound stop' (fits t fewer)).1
      exact carries.of_runs rfl (same t fewer).2
  have fits : w.Fits (bound + 1) (bound + 1) s := nowhere_fits enough enough
  have statements := carries_statementRule nested rfl stop (Nat.le_refl _) fits
  have declarations := carries_declarationRule nested rfl stop (Nat.le_refl _) fits
  constructor
  · exact statements.same_run Stmt.shifted_zero rfl
  · rw [declaration]
    unfold recovering
    rw [declarations.same_run Stmt.shifted_zero rfl]

/-! ## Every rule -/

theorem functionShifted_zero (decl : FunctionDecl Stmt) : functionShifted 0 decl = decl := by
  obtain ⟨name, params, body⟩ := decl
  rw [functionShifted, stmtsShifted_zero]

theorem functionsShifted_zero (decls : List (FunctionDecl Stmt)) :
    decls.map (functionShifted 0) = decls := by
  rw [← methodsShifted_eq, methodsShifted_zero]

theorem optionalStmtsShifted_zero (found : Option Stmt) : found.map (Stmt.shifted 0) = found := by
  cases found with
  | none => rfl
  | some stmt => rw [Option.map_some, stmt.shifted_zero]

theorem superclassShifted_zero (found : Option Occurrence) :
    found.map (Occurrence.shifted 0) = found := by
  cases found <;> rfl

theorem carries_declarationAt (stop : s.stop.kind = .eof)
    (fits : (nowhere s stop).Fits bound bound' s) :
    Carries (nowhere s stop) anyKind ⟨false, false⟩ id (declaration bound)
      (declaration bound') s := by
  by_cases tokens : s.tokens = []
  · have recovers : Carries (nowhere s stop) anyKind ⟨false, false⟩ id
        (recovering noExpression : Parser (Option Stmt)) (recovering noExpression) s :=
      carries_same (proceeds_recovering (Q := fun _ _ => True) proceeds_noExpression) rfl
    apply recovers.of_runs (declaration_end bound tokens stop)
    rw [nowhere_place rfl]
    exact declaration_end bound' tokens stop
  · exact ((carries_nested rfl bound bound' stop fits).2 tokens).unshifted optionalStmtsShifted_zero

theorem carries_wholeExpression (stop : s.stop.kind = .eof)
    (fits : (nowhere s stop).Fits bound bound' s) :
    Carries (nowhere s stop) anyKind ⟨false, false⟩ id (wholeExpression bound)
      (wholeExpression bound') s := by
  apply Carries.at
  · apply ((carries_expression bound bound' stop fits).unshifted Expr.shifted_zero).then
    intro e t hst _
    apply carries_same (Q := fun _ _ => True) _ hst.stop
    unfold Proceeds Ends
    cases tokens : t.tokens with
    | nil =>
        simp only [tokens]
        exact ⟨.refl t, trivial⟩
    | cons _ _ =>
        simp only [tokens]
        exact .refl t
  · rfl

theorem carries_program (stop : s.stop.kind = .eof)
    (fits : (nowhere s stop).Fits bound bound' s) :
    Carries (nowhere s stop) anyKind ⟨false, false⟩ id (program bound) (program bound')
      s := by
  apply Carries.at
  · apply ((carries_declarations rfl stop fits _ fits).unshifted map_unshifted).then
    exact fun found _ _ _ => carries_pure (found.filterMap id)
  · rfl

theorem Rule.carries (rule : Rule α) (stop : s.stop.kind = .eof)
    (fits : (nowhere s stop).Fits bound bound' s) :
    Carries (nowhere s stop) anyKind ⟨false, false⟩ id (rule.parser bound)
      (rule.parser bound') s := by
  let n := s.tokens.length + 1
  have more : (nowhere s stop).Fits (bound + 1) (bound' + 1) s :=
    nowhere_fits (Nat.le_succ_of_le fits.alone) (Nat.le_succ_of_le fits.placed)
  have short : s.tokens.length < n := Nat.lt_succ_self _
  have alone : n ≤ bound + 1 := Nat.succ_le_succ fits.alone
  have placed : n ≤ bound' + 1 := Nat.succ_le_succ fits.placed
  have nested : Nested (nowhere s stop) n (Parser.expression bound)
      (Parser.expression bound') := fun t stop' fewer =>
    carries_expression bound bound' stop' (fits.le (Nat.le_of_lt_succ fewer))
  have statements : NestedStmts (nowhere s stop) n (Parser.declaration bound)
      (Parser.declaration bound') (Parser.statement bound) (Parser.statement bound') :=
    ⟨fun t stop' fewer =>
        (carries_nested rfl bound bound' stop' (fits.le (Nat.le_of_lt_succ fewer))).2,
      fun t stop' fewer =>
        (carries_nested rfl bound bound' stop' (fits.le (Nat.le_of_lt_succ fewer))).1⟩
  cases rule with
  | peek => exact carries_same proceeds_peek rfl
  | sees kind => exact carries_same (proceeds_sees kind) rfl
  | accept wanted => exact carries_same (proceeds_accept? wanted) rfl
  | expect what => exact carries_same (proceeds_expect what) rfl
  | advance => exact carries_same proceeds_advance rfl
  | primary => exact (carries_primary nested stop (Nat.le_of_lt short)).unshifted Expr.shifted_zero
  | arguments => exact (carries_arguments nested _ _ stop short more).unshifted exprsShifted_zero
  | argumentsFrom count =>
      exact (carries_commaList rfl .tooManyArguments nested _ _ count stop short more).unshifted
        fun es => (exprsShifted_eq 0 es).symm.trans (exprsShifted_zero es)
  | callChain callee =>
      have chain := carries_callChain nested _ _ callee stop (Nat.le_of_lt short) more
      have same : callee.shifted (nowhere s stop).ids = callee := callee.shifted_zero
      rw [same] at chain
      exact chain.unshifted Expr.shifted_zero
  | call =>
      exact (carries_call nested _ _ stop (Nat.le_of_lt short) more).unshifted Expr.shifted_zero
  | level l =>
      exact ((operand_atLevel nested alone placed l).carries s stop (Nat.le_of_lt short)).unshifted
        Expr.shifted_zero
  | @operations l next tighter left =>
      have chain := carries_leftChain (operand_atLevel nested alone placed next) (node_shifted l _)
        (inExpression_operators l) _ _ left stop (Nat.le_of_lt short) more
      have same : left.shifted (nowhere s stop).ids = left := left.shifted_zero
      rw [same] at chain
      exact chain.unshifted Expr.shifted_zero
  | assignment =>
      exact (carries_assignment nested alone placed stop (Nat.le_of_lt short)).unshifted
        Expr.shifted_zero
  | expression => exact (carries_expression _ _ stop fits).unshifted Expr.shifted_zero
  | optionalExpression without =>
      exact (carries_optionalExpression without stop fits).unshifted optionalShifted_zero
  | wholeExpression => exact carries_wholeExpression stop fits
  | varDeclaration => exact (carries_varDeclaration stop fits).unshifted Stmt.shifted_zero
  | expressionStatement => exact (carries_expressionStatement stop fits).unshifted Stmt.shifted_zero
  | forInitializer =>
      exact (carries_forInitializer stop fits).unshifted optionalStmtsShifted_zero
  | forStatement keyword =>
      exact (carries_forStatement statements.statement keyword stop short more).unshifted
        Stmt.shifted_zero
  | ifStatement =>
      exact (carries_ifStatement statements.statement rfl stop short more).unshifted
        Stmt.shifted_zero
  | whileStatement =>
      exact (carries_whileStatement statements.statement stop short more).unshifted
        Stmt.shifted_zero
  | keywordStatement keyword =>
      exact (carries_keywordStatement statements rfl keyword stop short more).unshifted
        Stmt.shifted_zero
  | statementRule =>
      exact (carries_statementRule statements rfl stop (Nat.le_of_lt short) more).unshifted
        Stmt.shifted_zero
  | statement => exact (carries_nested rfl _ _ stop fits).1.unshifted Stmt.shifted_zero
  | declarations stops =>
      exact (carries_declarations rfl stop fits stops more).unshifted map_unshifted
  | block =>
      exact (carries_block statements.declaration stop short more).unshifted stmtsShifted_zero
  | parametersFrom count => exact (carries_parameters count stop more).unshifted List.map_id
  | callable kind =>
      exact (carries_callable statements.declaration kind stop short more).unshifted
        functionShifted_zero
  | methods =>
      exact (carries_methods rfl stop fits (· == .rightBrace) more).unshifted
        functionsShifted_zero
  | superclass => exact carries_superclass?.unshifted superclassShifted_zero
  | classDeclaration =>
      exact (carries_classDeclaration statements.declaration stop short more).unshifted
        Stmt.shifted_zero
  | declarationRule =>
      exact (carries_declarationRule statements rfl stop (Nat.le_of_lt short) more).unshifted
        Stmt.shifted_zero
  | declaration => exact carries_declarationAt stop fits
  | program => exact carries_program stop fits

theorem Rule.steady (rule : Rule α) (here : s.At tokens k) (stop : s.stop.kind = .eof)
    (enough : s.tokens.length ≤ bound) :
    Ends (rule.parser bound) s (fun _ t => ∃ k', k ≤ k' ∧ t.At tokens k')
        (fun _ t => ∃ k', k ≤ k' ∧ t.At tokens k') ∧
      rule.parser bound s = rule.parser s.tokens.length s := by
  have carries := rule.carries stop (nowhere_fits (Nat.le_refl s.tokens.length) enough)
  have same := carries.same_run (fun _ => rfl) rfl
  refine ⟨?_, same⟩
  have ends := rule.carries stop (nowhere_fits enough enough)
  apply Ends.imp ends
  · exact fun _ _ h => here.advances h.1.toAdvances
  · exact fun _ _ h => here.advances h.1.toAdvances

theorem declaration_progress (here : s.At tokens k) (stop : s.stop.kind = .eof)
    (before : k < endPosition tokens) (enough : s.tokens.length ≤ bound) :
    ∃ found t k', declaration bound s = .ok found t ∧ k < k' ∧ t.At tokens k' := by
  have left := here.left
  have some : s.tokens ≠ [] := List.ne_nil_of_length_pos (by omega)
  obtain ⟨found, t, run⟩ := declaration_ok bound s
  have fits : (nowhere s stop).Fits bound bound s := nowhere_fits enough enough
  have carries := (carries_nested rfl bound bound stop fits).2 some
  obtain ⟨takes, fewer, -⟩ := (ends_ok_iff run).mp carries
  have fewer := fewer rfl
  obtain ⟨k', -, there⟩ := here.advances takes.toAdvances
  have left' := there.left
  exact ⟨found, t, k', run, by omega, there⟩

/-! ## Answers -/

theorem answers_of_start {tokens tokens' : List Token} {firstId : Nat}
    (same : State.start firstId tokens = State.start firstId tokens') :
    parseProgram firstId tokens = parseProgram firstId tokens' ∧
      parseExpression firstId tokens = parseExpression firstId tokens' := by
  simp only [parseProgram, parseExpression, same, and_self]

theorem answers_up_to_end {last : Token} (eof : last.kind = .eof) (before rest rest' : List Token)
    (firstId : Nat) :
    parseProgram firstId (before ++ last :: rest) = parseProgram firstId (before ++ last :: rest') ∧
      parseExpression firstId (before ++ last :: rest) =
        parseExpression firstId (before ++ last :: rest') := by
  have ends : ∃ t ∈ before ++ [last], t.kind = .eof := ⟨last, by simp, eof⟩
  have cut (rest : List Token) :
      State.start firstId (before ++ last :: rest) = State.start firstId (before ++ [last]) := by
    rw [List.append_cons]
    exact start_append ends rest firstId
  exact answers_of_start ((cut rest).trans (cut rest').symm)

theorem terminated_of_noEnd (noEnd : ∀ t ∈ tokens, t.kind ≠ .eof) :
    terminated tokens = tokens ++ [Token.endOfInput ((tokens.getLast?.map Token.line).getD 1)] := by
  apply if_neg
  cases last : tokens.getLast? with
  | none => simp
  | some t => simpa using noEnd t (List.mem_of_getLast? last)

/-! ## The statement -/

structure Orderly (tokens : List Token) (k : Nat) (s : State) : Prop where
  sees : (terminated tokens)[k]? = some s.front
  /-- Every rule ends, whether well or not, at a position that is not before the one it starts at
  and not behind the first end token. No greater bound changes what it does. -/
  rules {α : Type} (rule : Rule α) (bound : Nat) : s.tokens.length ≤ bound →
    Ends (rule.parser bound) s (fun _ t => ∃ k', k ≤ k' ∧ t.At tokens k')
        (fun _ t => ∃ k', k ≤ k' ∧ t.At tokens k') ∧
      rule.parser bound s = rule.parser s.tokens.length s
  progress (bound : Nat) : s.tokens.length ≤ bound → k < endPosition tokens →
    ∃ found t k', declaration bound s = .ok found t ∧ k < k' ∧ t.At tokens k'
  /-- Of the expressions nested in one, those behind its first token are all that matters. -/
  expressions (bound : Nat) (nested : Parser Expr) : s.tokens.length ≤ bound + 1 →
    (∀ t, t.stop = s.stop → t.tokens.length < s.tokens.length → nested t = expression bound t) →
    assignment (bound + 1) nested s = expression (bound + 1) s
  statements (bound : Nat) (declaration' : Parser (Option Stmt)) (statement' : Parser Stmt) :
    s.tokens.length ≤ bound + 1 →
    (∀ t, t.stop = s.stop → t.tokens.length < s.tokens.length →
      declaration' t = declaration bound t ∧ statement' t = statement bound t) →
    statementRule (bound + 1) declaration' statement' s = statement (bound + 1) s ∧
      recovering (declarationRule (bound + 1) declaration' statement') s = declaration (bound + 1) s

theorem State.At.orderly (h : s.At tokens k) : Orderly tokens k s where
  sees := h.front
  rules rule _ enough := rule.steady h h.stop enough
  progress _ enough before := declaration_progress h h.stop before enough
  expressions _ _ enough agree := expression_behind h.stop enough agree
  statements _ _ _ enough agree := statement_behind h.stop enough agree

/-- The parser starts at the first token, with bounds that are great enough, and is orderly at every
position. What it answers depends on the tokens up to the first end token, and that one may be left
out. -/
theorem parser_total (firstId : Nat) (tokens : List Token) :
    ((State.start firstId tokens).At tokens 0 ∧
      (State.start firstId tokens).tokens.length = endPosition tokens ∧
      endPosition tokens < (terminated tokens).length) ∧
    (∀ s k, s.At tokens k → Orderly tokens k s) ∧
    (∀ before last rest rest', last.kind = .eof →
      parseProgram firstId (before ++ last :: rest) =
          parseProgram firstId (before ++ last :: rest') ∧
        parseExpression firstId (before ++ last :: rest) =
          parseExpression firstId (before ++ last :: rest')) ∧
    ((∀ t ∈ tokens, t.kind ≠ .eof) →
      let last := Token.endOfInput ((tokens.getLast?.map Token.line).getD 1)
      parseProgram firstId tokens = parseProgram firstId (tokens ++ [last]) ∧
        parseExpression firstId tokens = parseExpression firstId (tokens ++ [last])) := by
  have start := start_at firstId tokens
  have left := start.left
  rw [Nat.zero_add] at left
  refine ⟨⟨start, left, endPosition_lt tokens⟩, fun s k here => here.orderly, ?_, fun noEnd => ?_⟩
  · exact fun before last rest rest' eof => answers_up_to_end eof before rest rest' firstId
  · dsimp only
    rw [← terminated_of_noEnd noEnd]
    exact answers_of_start (start_terminated firstId tokens).symm

/-! A block that is not closed, with an operator that nothing stands before. -/

def unclosedBlock : List Token := [⟨.leftBrace, "\x7b", none, 3⟩, ⟨.plus, "+", none, 4⟩]

theorem parser_total_unclosedBlock :
    (∃ found t k', declaration 2 (State.start 0 unclosedBlock) = .ok found t ∧ 0 < k' ∧
      t.At unclosedBlock k') ∧
    parseProgram 0 unclosedBlock = parseProgram 0 (unclosedBlock ++ [Token.endOfInput 4]) ∧
    (parseProgram 0 unclosedBlock).result =
      .error [⟨.expectedExpression "+", 4⟩, ⟨.expected .blockEnd, 4⟩] := by
  have noEnd : ∀ t ∈ unclosedBlock, t.kind ≠ .eof := by decide
  obtain ⟨⟨start, -, -⟩, orderly, -, endless⟩ := parser_total 0 unclosedBlock
  refine ⟨?_, (endless noEnd).1, rfl⟩
  exact (orderly _ 0 start).progress 2 (by decide) (by decide)

end ClassScript.Parser
