import ClassScript.Proofs.Parser.Recovery

/-!
# Statements that lack their semicolon

The fault of a simple statement without its semicolon is found at the token behind it. If that is a
keyword that starts a statement, recovery drops it as the token that caused the fault, and goes on
up to a semicolon: the statement that the keyword starts is not parsed, and its own faults are not
reported (`unterminated_hides_next`).
-/

namespace ClassScript

/-- What is missed in a simple statement that ends in front of this token. -/
def Stmt.missedEnd (next : Token) : Stmt → ParseFault
  | .varDecl .. => .expected .varDeclEnd
  | .print _ => .expected .printEnd
  | .return _ none => .expectedExpression next.lexeme
  | .return _ (some _) => .expected .returnEnd
  | .break _ => .expected .breakEnd
  | .continue _ => .expected .continueEnd
  | _ => .expected .expressionEnd

namespace Parser

open Grammar

variable {α β : Type} {p : Parser α} {b c a rest : List Token} {fault : ParseError} {t : Token}

/-- The parser fails at the first of the tokens `a`, without faults in front of it. -/
def FailsAt (p : Parser α) (b a : List Token) (fault : ParseError) : Prop :=
  ∀ s : State, s.tokens = b → s.stop.kind = .eof → Ends p s (fun _ _ => False)
    fun e t => e = fault ∧ t.tokens = a ∧ t.stop = s.stop ∧ t.recorded = s.recorded

theorem FailsAt.first (h : FailsAt p b a fault) (q : α → Parser β) : FailsAt (p >>= q) b a fault := by
  intro s tokens stop
  apply ends_bind.mpr
  exact Ends.imp (h s tokens stop) (fun _ _ fails => fails.elim) fun _ _ failed => failed

theorem FailsAt.map (h : FailsAt p b a fault) (f : α → β) : FailsAt (f <$> p) b a fault :=
  fun s tokens stop => ends_map.mpr (h s tokens stop)

theorem Reports.failsAt {q : α → Parser β} (h : Reports p b c [])
    (next : ∀ x, FailsAt (q x) c a fault) : FailsAt (p >>= q) b a fault := by
  intro s tokens stop
  apply ends_bind.mpr
  apply Ends.imp (h s tokens stop)
  · rintro x t ⟨tokens, same, recorded⟩
    rw [List.append_nil] at recorded
    rw [← same, ← recorded]
    exact next x t tokens (same ▸ stop)
  · exact fun _ _ fails => fails.elim

theorem FailsAt.found {wanted : TokenKind → Bool} {q : Option Token → Parser α}
    (h : FailsAt (q (some t)) rest a fault) (fits : wanted t.kind = true) :
    FailsAt (accept? wanted >>= q) (t :: rest) a fault := by
  intro s tokens stop
  apply ends_bind.mpr
  exact (ends_ok_iff (accept?_found tokens fits)).mpr (h _ rfl stop)

theorem FailsAt.missed {wanted : TokenKind → Bool} {q : Option Token → Parser α}
    (h : FailsAt (q none) b a fault) (other : startsWith wanted b = false) :
    FailsAt (accept? wanted >>= q) b a fault := by
  intro s tokens stop
  apply ends_bind.mpr
  exact (ends_ok_iff (accept?_missed (tokens ▸ other))).mpr (h s tokens stop)

theorem FailsAt.seen {q : Bool → Parser α} {kind : TokenKind}
    (h : FailsAt (q (startsWith (· == kind) b)) b a fault) :
    FailsAt (sees kind >>= q) b a fault := by
  intro s tokens stop
  apply ends_bind.mpr
  exact (ends_ok_iff (sees_eq kind s)).mpr (tokens ▸ h s tokens stop)

theorem failsAt_peek {q : Token → Parser α} (h : FailsAt (q t) (t :: rest) a fault) :
    FailsAt (peek >>= q) (t :: rest) a fault := by
  intro s tokens stop
  apply ends_bind.mpr
  have run : peek s = .ok t s := by simp [peek, State.front, tokens]
  exact (ends_ok_iff run).mpr (h s tokens stop)

theorem failsAt_throw (fault : ParseError) : FailsAt (throw fault : Parser α) a a fault :=
  fun _ tokens _ => ⟨rfl, tokens, rfl, rfl⟩

theorem failsAt_expect {what : Expectation} (other : t.kind ≠ what.kind) :
    FailsAt (expect what) (t :: rest) (t :: rest) ⟨.expected what, t.line⟩ := by
  apply FailsAt.missed
  · exact failsAt_peek (failsAt_throw _)
  · rw [startsWith_cons, beq_eq_false_iff_ne]
    exact other

theorem failsAt_noExpression :
    FailsAt (noExpression : Parser α) (t :: rest) (t :: rest)
      ⟨.expectedExpression t.lexeme, t.line⟩ :=
  failsAt_peek (failsAt_throw _)

theorem continuesExpression_of_startsStatement {k : TokenKind} (h : startsStatement k = true) :
    continuesExpression k = false := by
  cases k <;> first | rfl | cases h

theorem ne_semicolon_of_startsStatement {k : TokenKind} (h : startsStatement k = true) :
    k ≠ .semicolon := by
  rintro rfl
  cases h

section

variable (starts : startsStatement t.kind = true) {bound : Nat}

include starts

theorem failsAt_primary (nested : Parser Expr) :
    FailsAt (primary nested) (t :: rest) (t :: rest) ⟨.expectedExpression t.lexeme, t.line⟩ := by
  unfold primary
  apply failsAt_peek
  have other : ∀ k, startsStatement k = false → t.kind ≠ k := by
    rintro k no rfl
    rw [starts] at no
    cases no
  split
  case h_10 => exact failsAt_noExpression
  all_goals
    rename_i kind
    exact absurd kind (other _ rfl)

theorem failsAt_expression :
    FailsAt (expression bound) (t :: rest) (t :: rest) ⟨.expectedExpression t.lexeme, t.line⟩ := by
  cases bound with
  | zero => exact failsAt_noExpression
  | succ bound =>
      have operand (k : Nat) : FailsAt (unary (call (bound + 1) (expression bound)) k) (t :: rest)
          (t :: rest) ⟨.expectedExpression t.lexeme, t.line⟩ := by
        have atOnce : FailsAt (primary (expression bound)) (t :: rest) (t :: rest)
            ⟨.expectedExpression t.lexeme, t.line⟩ := failsAt_primary starts _
        have plain := atOnce.first (callChain (expression bound) (bound + 1))
        cases k with
        | zero => exact plain
        | succ k =>
            apply FailsAt.missed plain
            rw [startsWith_cons]
            revert starts
            cases t.kind <;> decide
      -- Every level reads an operand first.
      exact ((((((operand _).first _).first _).first _).first _).first _).first _ |>.first _

theorem failsAt_semicolon {x : α} {what : Expectation} (semicolon : what.kind = .semicolon) :
    FailsAt (do discard <| expect what; return x) (t :: rest) (t :: rest)
      ⟨.expected what, t.line⟩ := by
  have other : t.kind ≠ what.kind := semicolon ▸ ne_semicolon_of_startsStatement starts
  exact ((failsAt_expect other).map _).first _

theorem reports_word {w : List Token} {e : Expr}
    (h : ∀ rest, Derives true .expression (w ++ rest) rest e)
    (short : (w ++ t :: rest).length ≤ bound) :
    Reports (expression bound) (w ++ t :: rest) (t :: rest) [] := by
  apply reports_expression (h (t :: rest)) short
  rw [startsWith_cons]
  exact continuesExpression_of_startsStatement starts

theorem failsAt_expressionEnd {w : List Token} {e : Expr} {node : Expr → α} {what : Expectation}
    (h : ∀ rest, Derives true .expression (w ++ rest) rest e) (semicolon : what.kind = .semicolon)
    (short : (w ++ t :: rest).length ≤ bound) :
    FailsAt (do let e ← expression bound; discard <| expect what; return node e) (w ++ t :: rest)
      (t :: rest) ⟨.expected what, t.line⟩ :=
  (reports_word starts h short).failsAt fun _ => failsAt_semicolon starts semicolon

theorem failsAt_varDeclaration {name equals : Token} {w : List Token} {e : Expr}
    (isName : name.kind = .identifier) (isEquals : equals.kind = .equal)
    (h : ∀ rest, Derives true .expression (w ++ rest) rest e)
    (short : (w ++ t :: rest).length ≤ bound) :
    FailsAt (varDeclaration bound) (name :: equals :: (w ++ t :: rest)) (t :: rest)
      ⟨.expected .varDeclEnd, t.line⟩ := by
  apply (reports_expect isName).failsAt
  intro name
  apply FailsAt.found _ (by simp [isEquals])
  exact (reports_word starts h short).map.failsAt fun _ => failsAt_semicolon starts rfl

theorem failsAt_plainDeclaration {name : Token} (isName : name.kind = .identifier) :
    FailsAt (varDeclaration bound) (name :: t :: rest) (t :: rest)
      ⟨.expected .varDeclEnd, t.line⟩ := by
  apply (reports_expect isName).failsAt
  intro name
  apply FailsAt.missed
  · exact failsAt_semicolon starts rfl
  · rw [startsWith_cons]
    revert starts
    cases t.kind <;> decide

theorem failsAt_plainReturn {node : Option Expr → α} :
    FailsAt (do
      let value ← optionalExpression bound .semicolon
      discard <| expect .returnEnd
      return node value) (t :: rest) (t :: rest) ⟨.expectedExpression t.lexeme, t.line⟩ := by
  apply FailsAt.first
  apply FailsAt.seen
  have other : startsWith (· == .semicolon) (t :: rest) = false :=
    beq_eq_false_iff_ne.mpr (ne_semicolon_of_startsStatement starts)
  rw [other]
  exact (failsAt_expression starts).first _

theorem failsAt_returnValue {w : List Token} {e : Expr} {node : Option Expr → α}
    (h : ∀ rest, Derives true .expression (w ++ rest) rest e)
    (short : (w ++ t :: rest).length ≤ bound) :
    FailsAt (do
      let value ← optionalExpression bound .semicolon
      discard <| expect .returnEnd
      return node value) (w ++ t :: rest) (t :: rest) ⟨.expected .returnEnd, t.line⟩ := by
  have value : Reports (optionalExpression bound .semicolon) (w ++ t :: rest) (t :: rest) [] := by
    apply Reports.seen
    rw [expression_ne_stop rfl (h _).starts]
    exact (reports_word starts h short).last fun _ => reports_pure _
  exact value.failsAt fun _ => failsAt_semicolon starts rfl

end

section

variable {declaration : Parser (Option Stmt)} {statement : Parser Stmt} {bound : Nat}

theorem failsAt_keyword {keyword : Token} {k : TokenKind} (kind : keyword.kind = k)
    (opens : opensStatement k = true)
    (h : FailsAt (keywordStatement keyword bound declaration statement) b a fault) :
    FailsAt (declarationRule bound declaration statement) (keyword :: b) a fault := by
  subst kind
  apply FailsAt.missed
  · exact h.found opens
  · rw [startsWith_cons]
    revert opens
    cases keyword.kind <;> decide

theorem failsAt_expressionStatement {w : List Token} {e : Expr}
    (starts : startsStatement t.kind = true)
    (h : ∀ rest, Derives true .expression (w ++ rest) rest e)
    (short : (w ++ t :: rest).length ≤ bound) :
    FailsAt (declarationRule bound declaration statement) (w ++ t :: rest) (t :: rest)
      ⟨.expected .expressionEnd, t.line⟩ := by
  have first : startsWith startsExpression (w ++ t :: rest) = true := (h _).starts
  apply FailsAt.missed
  · apply FailsAt.missed
    · exact failsAt_expressionEnd starts h rfl short
    · exact startsWith_disjoint noKeyword_of_expression first
  · exact startsWith_disjoint noKeyword_of_statement
      (startsWith_of_imp startsStmt_of_expression first)

theorem failsAt_declarationRule {semicolon : Token} {s : Stmt}
    (starts : startsStatement t.kind = true)
    (h : DerivesStmt .declaration (a ++ [semicolon]) [] s) (simple : s.isSimple = true)
    (short : (a ++ t :: rest).length ≤ bound) :
    FailsAt (declarationRule bound declaration statement) (a ++ t :: rest) (t :: rest)
      ⟨s.missedEnd t, t.line⟩ := by
  have front {w : List Token} {last : Token} (eq : a ++ [semicolon] = w ++ [last]) : a = w :=
    (List.append_inj' eq rfl).1
  generalize eq : a ++ [semicolon] = b at h
  cases h with
  | classDecl | funDecl => cases simple
  | varDecl h =>
      cases h with
      | @plain keyword name _ _ isVar isName _ =>
          obtain rfl := front (w := [keyword, name]) eq
          apply FailsAt.found _ (by simp [isVar])
          simp only [isVar]
          exact failsAt_plainDeclaration starts isName
      | @initialized keyword name equals _ _ _ e isVar isName isEquals derives _ =>
          obtain ⟨w, rfl, word⟩ := derives.word
          obtain rfl := front (w := keyword :: name :: equals :: w) eq
          apply FailsAt.found _ (by simp [isVar])
          simp only [isVar]
          exact failsAt_varDeclaration starts isName isEquals word
            (Nat.le_of_succ_le (Nat.le_of_succ_le (Nat.le_of_succ_le short)))
  | statement h =>
      cases h with
      | @forStmt _ _ _ _ _ _ _ _ _ _ first =>
          cases first <;> cases simple
      | ifStmt | ifElse | whileStmt | block => cases simple
      | exprStmt h =>
          obtain ⟨derives, -⟩ := h
          obtain ⟨w, rfl, word⟩ := derives.word
          obtain rfl := front eq
          exact failsAt_expressionStatement starts word short
      | @printStmt _ keyword _ _ _ _ isPrint derives _ =>
          obtain ⟨w, rfl, word⟩ := derives.word
          obtain rfl := front (w := keyword :: w) eq
          apply failsAt_keyword isPrint rfl
          simp only [keywordStatement, isPrint]
          exact failsAt_expressionEnd starts word rfl (Nat.le_of_succ_le short)
      | @returnStmt _ keyword _ _ _ _ isReturn value _ =>
          cases value with
          | none =>
              obtain rfl := front (w := [keyword]) eq
              apply failsAt_keyword isReturn rfl
              simp only [keywordStatement, isReturn]
              exact failsAt_plainReturn starts
          | some derives =>
              obtain ⟨w, rfl, word⟩ := derives.word
              obtain rfl := front (w := keyword :: w) eq
              apply failsAt_keyword isReturn rfl
              simp only [keywordStatement, isReturn]
              exact failsAt_returnValue starts word (Nat.le_of_succ_le short)
      | @breakStmt _ keyword _ _ isBreak _ =>
          obtain rfl := front (w := [keyword]) eq
          apply failsAt_keyword isBreak rfl
          simp only [keywordStatement, isBreak]
          exact failsAt_semicolon starts rfl
      | @continueStmt _ keyword _ _ isContinue _ =>
          obtain rfl := front (w := [keyword]) eq
          apply failsAt_keyword isContinue rfl
          simp only [keywordStatement, isContinue]
          exact failsAt_semicolon starts rfl

theorem reports_recovered {p : Parser Stmt} (h : FailsAt p b a fault) :
    Reports (recovering p) b (resume a) [fault] := by
  intro s tokens stop
  have run := h s tokens stop
  unfold Ends recovering at *
  generalize p s = result at *
  cases result with
  | ok x t => exact run.elim
  | error e t =>
      obtain ⟨rfl, rfl, same, recorded⟩ := run
      exact ⟨rfl, same, by rw [recorded]⟩

end

theorem reports_many_end {item : Parser α} {stops : TokenKind → Bool} (bound : Nat) :
    Reports (many stops item bound) [] [] [] := by
  cases bound with
  | zero => exact reports_pure []
  | succ bound =>
      apply (reports_pure []).of_run
      intro s tokens
      rw [many_succ, tokens]
      rfl

end Parser

open ClassScript.Parser ClassScript.Grammar

/-- Where a simple statement lacks its semicolon, one fault is reported at the keyword behind it, and
nothing of the statement that this keyword starts. -/
theorem unterminated_hides_next {a b : List Token} {semicolon t : Token} {s : Stmt}
    (h : DerivesStmt .declaration (a ++ [semicolon]) [] s) (simple : s.isSimple = true)
    (starts : startsStatement t.kind = true) (chunk : Chunk (t :: b)) (firstId : Nat) :
    (parseProgram firstId (a ++ t :: b)).result = .error [⟨s.missedEnd t, t.line⟩] := by
  have noEnd : ∀ x ∈ a ++ t :: b, x.kind ≠ .eof := by
    apply List.forall_mem_append.mpr ⟨fun x mem isEnd => ?_, chunk.noEnd⟩
    cases h.endBehind x (List.mem_append_left _ mem) isEnd
  have resumed : resume (t :: b) = [] := by
    have behind := resume_last chunk.ends chunk.later []
    rwa [List.append_nil] at behind
  obtain ⟨m, length⟩ : ∃ m, (a ++ t :: b).length = m + 1 :=
    ⟨(a ++ b).length, by simp only [List.length_append, List.length_cons, Nat.add_assoc]⟩
  have first : Reports (declaration (m + 1)) (a ++ t :: b) [] [⟨s.missedEnd t, t.line⟩] :=
    resumed ▸ reports_recovered (failsAt_declarationRule starts h simple (Nat.le_of_eq length))
  have goesOn : endsList (fun _ => false) (a ++ t :: b) = false := by
    cases a <;> rfl
  have run := reports_many_more goesOn first (reports_many_end m)
  have ended := run (State.start firstId (a ++ t :: b)) (written_of_noEnd noEnd) (start_stop _ _)
  unfold Ends at ended
  rw [← length] at ended
  split at ended
  · rename_i found u ran
    obtain ⟨-, -, recorded⟩ := ended
    rw [parseProgram_of_run noEnd ran, recorded]
    rfl
  · exact ended.elim

/-! A `print` without its semicolon, and an empty one behind it. -/

def openPrint : List Token := [⟨.kwPrint, "print", none, 1⟩, ⟨.kwTrue, "true", none, 1⟩]

theorem derives_openPrint : DerivesStmt .declaration (openPrint ++ [⟨.semicolon, ";", none, 1⟩]) []
    (.print (.literal (.bool true) 1)) :=
  .statement (.printStmt rfl (derives_primary (.true rfl)) rfl)

theorem unterminated_hides_next_emptyPrint :
    (parseProgram 0 (openPrint ++ emptyPrint)).result = .error [⟨.expected .printEnd, 2⟩] :=
  unterminated_hides_next derives_openPrint rfl rfl chunk_emptyPrint 0

theorem next_fault_lost :
    (∃ s, DerivesStmt .declaration (openPrint ++ [⟨.semicolon, ";", none, 1⟩]) [] s ∧
      s.isSimple = true) ∧ Chunk emptyPrint ∧
    (parseProgram 0 emptyPrint).result = .error [⟨.expectedExpression ";", 2⟩] ∧
    ∀ fault : ParseError, fault.line = 2 → (parseProgram 0 (openPrint ++ emptyPrint)).result ≠
      .error (fault :: faultsAlone 0 emptyPrint) := by
  refine ⟨⟨_, derives_openPrint, rfl⟩, chunk_emptyPrint, rfl, fun fault _ both => ?_⟩
  have one : (parseProgram 0 (openPrint ++ emptyPrint)).result =
      .error [⟨.expected .printEnd, 2⟩] := rfl
  have alone : faultsAlone 0 emptyPrint = [⟨.expectedExpression ";", 2⟩] := rfl
  rw [one, alone] at both
  cases both

end ClassScript
