import Mathlib
import ClassScript.Proofs.Grammar.ForLoops
import ClassScript.Proofs.Run.Rounds
import ClassScript.Proofs.Similar.Renumbered

namespace ClassScript

open Binding Grammar

/-- The parser builds the first statement from the tokens of a `for` loop, and the second one from
those of the loop when it is written out. There is no `continue` for the loop in its body. -/
inductive WrittenOut (s s' : Stmt) : Prop
  | intro (l : ForLoop) (t : Brackets) : l.body.continues = false → Builds l.tokens s →
      Builds (l.tokensOut t) s' → WrittenOut s s'

/-- A program in which one `for` loop, at any depth, is written out. -/
abbrev OneWrittenOut : List Stmt → List Stmt → Prop := OneInStmts WrittenOut fun _ _ => False

inductive Expands : Stmt → Stmt → Prop
  | intro (keyword : Token) (first : Option Stmt) (condition : Option Expr) {body : Stmt}
      (increment : Option Expr) (line inner outer : Nat) : body.continues = false →
      Expands (forTree keyword first condition body increment)
        (writtenOut line inner outer first condition body increment)

theorem exists_loop {s body : Stmt} {condition increment : Option Expr} {line : Nat}
    (eq : s.unnumbered = .loop (condition.getD (.literal (.bool true) line)) body increment) :
    ∃ condition' body' increment',
      s = .loop (Option.getD condition' (.literal (.bool true) line)) body' increment' ∧
      condition'.map Expr.unnumbered = condition ∧ body'.unnumbered = body ∧
      increment'.map Expr.unnumbered = increment := by
  cases s with
  | loop c body' increment' =>
      obtain ⟨same, rfl, rfl⟩ := Stmt.loop.inj eq
      cases condition with
      | some condition =>
          exact ⟨some c, body', increment', rfl, congrArg some same, rfl, rfl⟩
      | none =>
          cases c with
          | literal =>
              cases same
              exact ⟨none, body', increment', rfl, rfl, rfl, rfl⟩
          | _ => cases same
  | _ => cases eq

theorem exists_forTree {s body : Stmt} {keyword : Token} {first : Option Stmt}
    {condition increment : Option Expr}
    (eq : s.unnumbered = forTree keyword first condition body increment) :
    ∃ first' condition' body' increment',
      s = forTree keyword first' condition' body' increment' ∧
      first'.map Stmt.unnumbered = first ∧ condition'.map Expr.unnumbered = condition ∧
      body'.unnumbered = body ∧ increment'.map Expr.unnumbered = increment := by
  cases first with
  | none =>
      obtain ⟨c, b, i, rfl, hc, hb, hi⟩ := exists_loop eq
      exact ⟨none, c, b, i, rfl, rfl, hc, hb, hi⟩
  | some before =>
      cases s with
      | block ss line =>
          obtain ⟨parts, rfl⟩ := Stmt.block.inj eq
          match ss with
          | [first', loop] =>
              obtain ⟨hf, rest⟩ := List.cons.inj parts
              obtain ⟨c, b, i, rfl, hc, hb, hi⟩ := exists_loop (List.cons.inj rest).1
              exact ⟨some first', c, b, i, rfl, congrArg some hf, hc, hb, hi⟩
          | [] | [_] | _ :: _ :: _ :: _ => simp [stmtsUnnumbered] at parts
      | _ => cases eq

theorem renumbers_writtenOut :
    Renumbers WrittenOut Expands (fun _ _ => False) fun _ _ => False where
  stmt replaced := by
    obtain ⟨l, t, absent, built, built'⟩ := replaced
    obtain ⟨first, condition, body, increment, rfl, hf, hc, hb, hi⟩ :=
      exists_forTree (l.builds_iff.mp built)
    refine ⟨_, .intro l.keyword first condition increment t.yes.line t.inner.line t.outer.line ?_,
      ?_⟩
    · rw [← continues_unnumbered, hb, absent]
    · rw [(l.builds_writtenOut_iff t).mp built', writtenOut_unnumbered, hf, hc, hb, hi]
      rfl
  function never := never.elim

variable {others : List String} {V : Set (Scopes × Expr)} {Γ : ScopePairs}

theorem similarCondition_self (same : Γ.Same) (regular : Γ.Regular) (condition : Option Expr)
    (line line' : Nat) :
    SimilarCondition PlacedAlike Γ (condition.getD (.literal (.bool true) line))
      (condition.getD (.literal (.bool true) line')) := by
  cases condition with
  | none => exact .constant _ line line'
  | some c => exact .same (similarExpr_self same regular c)

theorem similarPlain_atEnd (same : Γ.Same) (condition : Option Expr) {body : Stmt}
    (increment : Option Expr) (line line' inner : Nat) (absent : body.continues = false)
    (h : Stands others V Γ
      (.loop (condition.getD (.literal (.bool true) line)) body increment)) :
    SimilarPlain PlacedAlike True Γ
      (.loop (condition.getD (.literal (.bool true) line)) body increment)
      (.loop (condition.getD (.literal (.bool true) line'))
        (.block (body :: increments increment) inner) none) :=
  .expandRight inner trivial absent (similarCondition_self same h.regular condition line line')
    (similarPlain_self (.right same) body (h.body.inBlock h.proper.1))
    (similarOptional_self (.right same) (.right h.regular) increment)

theorem fitting_expands (others : List String) (V : Set (Scopes × Expr)) :
    Fitting Expands (fun _ _ => False) True others V where
  stmt same h replaced := by
    cases replaced with
    | intro keyword first condition increment line inner outer absent =>
        unfold writtenOut
        cases first with
        | none =>
            exact .wrapRight outer trivial
              (similarPlain_atEnd (.right same) condition increment _ line inner absent
                (h.inBlock rfl))
        | some s =>
            have parts : StandsAll others V (.both (.refl String) [] :: _) _ := h.block rfl
            refine .plain (.scope (.refl _) (.inr trivial)
              (.cons (.plain ?_) (.cons (.plain ?_) .nil)))
            · exact similarPlain_self (.both same) s parts.first
            · exact similarPlain_atEnd ((same.both).after s) condition increment _ line inner absent
                parts.rest.first
  function _ _ never := never.elim

namespace Machine

/-- A `for` loop does the same as what it is written out as, if its body contains no `continue` for
it. One such loop of an accepted program is replaced, at any depth, and what is parsed for the
program that comes of it is accepted too. Without interruption each of the two programs goes as far
as the other: if the run of one ends, then so does that of the other one, with the same result or
fault, and with the same lines printed; if it does not, then whatever it prints the other one prints
too. A run has to get at most three times as much fuel as the other one.

Whatever its body contains, a loop evaluates its increment exactly once behind a body that ends
normally or by `continue`, and nothing comes behind a body that ends by `break`, `return` or with a
fault. -/
theorem for_loop_writtenOut :
    (∀ {firstId firstId' : Nat} {tokens tokens' : List Token}
      {program expanded program' : List Stmt},
      (∀ t ∈ tokens, t.Spelled) → (∀ t ∈ tokens', t.Spelled) →
      (parseProgram firstId tokens).result = .ok program →
      (parseProgram firstId' tokens').result = .ok program' →
      (initial.analyse program).1 = .ok () → OneWrittenOut program expanded →
      stmtsUnnumbered program' = stmtsUnnumbered expanded →
      ∀ host : Host, (∀ n, host.interrupts n = false) →
      (initial.analyse program').1 = .ok () ∧ ∀ fuel fuel', 3 * fuel ≤ fuel' →
        GoesAsFar (initial.interpret host fuel program) (initial.interpret host fuel' program') ∧
        GoesAsFar (initial.interpret host fuel program') (initial.interpret host fuel' program)) ∧
    ∀ (host : Host) (condition : Expr) (body : Stmt) (increment : Expr) (fuel : Nat) (m : Machine),
      Run.RunsInSteps host condition body increment fuel m := by
  refine ⟨?_, Run.runsInSteps⟩
  intro _ _ _ _ program expanded program' spelled spelled' parsed parsed' accepted one same host
    quiet
  obtain ⟨other, one, eq⟩ := one.renumbered renumbers_writtenOut
  obtain ⟨nodup, analysed, goesAsFar⟩ :=
    interpret_replaced (fitting_expands [] Set.univ) spelled parsed accepted one host quiet
  obtain ⟨accepted', alike⟩ :=
    interpret_renumbered host spelled' parsed' (eq.trans same.symm) nodup analysed
  refine ⟨accepted', fun fuel fuel' enough => ?_⟩
  obtain ⟨there, back⟩ := goesAsFar fuel fuel' enough
  exact ⟨there.congr ⟨rfl, rfl⟩ (alike fuel'), back.congr (alike fuel) ⟨rfl, rfl⟩⟩

def flag : Token := ⟨.identifier, "i", none, 1⟩

def negation : Token := ⟨.bang, "!", none, 1⟩

def onceLoop : ForLoop where
  keyword := ⟨.kwFor, "for", none, 1⟩
  left := ⟨.leftParen, "(", none, 1⟩
  opening := [⟨.kwVar, "var", none, 1⟩, flag, ⟨.semicolon, ";", none, 1⟩]
  firstTokens := some [⟨.kwVar, "var", none, 1⟩, flag, ⟨.semicolon, ";", none, 1⟩]
  testTokens := some [negation, flag]
  semicolon := ⟨.semicolon, ";", none, 1⟩
  counterTokens := some [flag, ⟨.equal, "=", none, 1⟩, ⟨.kwTrue, "true", none, 1⟩]
  right := ⟨.rightParen, ")", none, 1⟩
  bodyTokens := [⟨.kwPrint, "print", none, 1⟩, flag, ⟨.semicolon, ";", none, 1⟩]
  first := some (.varDecl flag none)
  test := some (.unary negation (.var ⟨0, flag⟩))
  counter := some (.assign ⟨0, flag⟩ (.literal (.bool true) 1))
  body := .print (.var ⟨0, flag⟩)
  keyword_kind := rfl
  left_kind := rfl
  semicolon_kind := rfl
  right_kind := rfl
  opening_eq _ mem := Option.some.inj mem
  opening_kind := nofun
  first_part := .present fun _ => .inl (.plain rfl rfl rfl)
  test_part := .present fun _ =>
    derives_unary (.unary (.inl rfl) (.noOperator (.call (.identifier rfl) .callEnd)))
  counter_part := .present fun _ => .assign rfl rfl (derives_primary (.true rfl))
  body_word _ := .printStmt rfl (derives_primary (.identifier rfl)) rfl

def onceBrackets : Brackets where
  outer := ⟨.leftBrace, "\x7b", none, 1⟩
  loop := ⟨.kwWhile, "while", none, 1⟩
  left := ⟨.leftParen, "(", none, 1⟩
  yes := ⟨.kwTrue, "true", none, 1⟩
  right := ⟨.rightParen, ")", none, 1⟩
  inner := ⟨.leftBrace, "\x7b", none, 1⟩
  semicolon := ⟨.semicolon, ";", none, 1⟩
  innerEnd := ⟨.rightBrace, "\x7d", none, 1⟩
  outerEnd := ⟨.rightBrace, "\x7d", none, 1⟩
  outer_kind := rfl
  loop_kind := rfl
  left_kind := rfl
  yes_kind := rfl
  right_kind := rfl
  inner_kind := rfl
  semicolon_kind := rfl
  innerEnd_kind := rfl
  outerEnd_kind := rfl

def onceProgram : List Stmt :=
  [.block [.varDecl flag none, .loop (.unary negation (.var ⟨0, flag⟩))
    (.print (.var ⟨3, flag⟩)) (some (.assign ⟨2, flag⟩ (.literal (.bool true) 1)))] 1]

def onceWrittenOut : List Stmt :=
  [.block [.varDecl flag none, .loop (.unary negation (.var ⟨0, flag⟩))
    (.block [.print (.var ⟨1, flag⟩),
      .expression (.assign ⟨3, flag⟩ (.literal (.bool true) 1))] 1) none] 1]

theorem for_loop_writtenOut_onceProgram :
    let host := Host.standard fun _ => 0
    (parseProgram 0 onceLoop.tokens).result = .ok onceProgram ∧
      (parseProgram 0 (onceLoop.tokensOut onceBrackets)).result = .ok onceWrittenOut ∧
      OneWrittenOut onceProgram onceWrittenOut ∧
      (initial.interpret host 9 onceProgram).1 = .ok () ∧
      (initial.interpret host 27 onceWrittenOut).1 = .ok () ∧
      (initial.interpret host 27 onceWrittenOut).2.output =
        (initial.interpret host 9 onceProgram).2.output := by
  intro host
  have parsed : (parseProgram 0 onceLoop.tokens).result = .ok onceProgram := by cbv
  have parsed' : (parseProgram 0 (onceLoop.tokensOut onceBrackets)).result = .ok onceWrittenOut := by
    cbv
  have accepted : (initial.analyse onceProgram).1 = .ok () := rfl
  have one : OneWrittenOut onceProgram onceWrittenOut :=
    .first _ (.here (.intro onceLoop onceBrackets rfl (onceLoop.builds_iff.mpr rfl)
      ((onceLoop.builds_writtenOut_iff onceBrackets).mpr rfl)))
  have ended : (initial.interpret host 9 onceProgram).1 = .ok () := by
    have ran : (initial.interpret host 9 onceProgram).1.isOk = true := by decide +kernel
    generalize (initial.interpret host 9 onceProgram).1 = result at ran
    cases result with
    | ok => rfl
    | error => cases ran
  obtain ⟨-, goesAsFar⟩ := for_loop_writtenOut.1 (by decide) (by decide) parsed parsed' accepted one
    rfl host fun _ => rfl
  have finished : (initial.interpret host 9 onceProgram).1 ≠ .error .outOfFuel := by
    rw [ended]
    intro eq
    cases eq
  obtain ⟨result, output⟩ := (goesAsFar 9 27 (by decide)).1.ends finished
  exact ⟨parsed, parsed', one, ended, result.trans ended, output⟩

end Machine

end ClassScript
