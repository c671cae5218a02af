import ClassScript.Proofs.Lexical.Occurrences
import ClassScript.Proofs.Run.Shortened
import ClassScript.Proofs.Run.Sources

namespace ClassScript.Run

open Binding Machine

variable {α β : Type} {host : Host} {fuel line : Nat} {m n : Machine} {p q : Moment} {e : Halt}
  {printed : Array String}

/-- A part ends with a halt, and these are the lines that were printed by then. -/
def Fails (part : Run α) (m : Machine) (e : Halt) (printed : Array String) : Prop :=
  ∃ n, part m = .error e n ∧ n.output = printed

abbrev Moment.Fails (host : Host) (p : Moment) (e : Halt) (printed : Array String) : Prop :=
  Run.Fails (p.part host) p.machine e printed

theorem Fails.bind {part : Run α} (h : Fails part m e printed) (rest : α → Run β) :
    Fails (part >>= rest) m e printed := by
  obtain ⟨n, run, output⟩ := h
  exact ⟨n, by simp only [Bind.bind, EStateM.bind, run], output⟩

theorem Fails.after {part : Run α} {rest : α → Run β} {a : α} (run : part m = .ok a n)
    (h : Fails (rest a) n e printed) : Fails (part >>= rest) m e printed := by
  obtain ⟨o, failed, output⟩ := h
  exact ⟨o, by simp only [Bind.bind, EStateM.bind, run, failed], output⟩

theorem fails_bind {part : Run α} {rest : α → Run β} (h : Fails (part >>= rest) m e printed) :
    Fails part m e printed ∨ ∃ a n, part m = .ok a n ∧ Fails (rest a) n e printed := by
  obtain ⟨o, failed, output⟩ := h
  simp only [Bind.bind, EStateM.bind] at failed
  cases run : part m with
  | ok a n =>
      rw [run] at failed
      exact .inr ⟨a, n, rfl, o, failed, output⟩
  | error e' n =>
      rw [run] at failed
      cases failed
      exact .inl ⟨o, run, output⟩

theorem fails_discard {part : Run α} :
    Fails (discard part) m e printed ↔ Fails part m e printed := by
  rw [discard_eq]
  refine ⟨fun h => ?_, fun h => h.bind _⟩
  rcases fails_bind h with h | ⟨a, n, -, o, failed, -⟩
  · exact h
  · cases failed

theorem fails_inScope {part : Run α} {scope : Address} :
    Fails (inScope scope part) m e printed ↔
      Fails part { m with environment := scope } e printed := by
  simp only [Fails, inScope]
  cases part { m with environment := scope } <;> simp

theorem fails_inLoop {part : Run α} :
    Fails (inLoop part) m e printed ↔ Fails part m.insideLoop e printed := by
  simp only [Fails, inLoop, insideLoop]
  generalize part _ = x
  cases x <;> simp

theorem fails_inCall {part : Run α} {kind : FrameKind} {scope : Address} :
    Fails (inCall kind scope part) m e printed ↔
      Fails part { m.insideCall kind with environment := scope } e printed := by
  simp only [Fails, inCall, insideCall]
  generalize part _ = x
  cases x <;> simp

theorem Fails.begins {s : Stmt} {part : Run α} (begins : Begins host s m n)
    (h : Fails part n e printed) :
    Fails (do start host s.line; collectIfDue host; part) m e printed := by
  rw [← bind_assoc]
  exact h.after begins

theorem Fails.called {args : List Value} {arity : Nat} {part : Run α}
    (same : args.length = arity) (h : Fails part m e printed) :
    Fails (if args.length ≠ arity then fail (.wrongArity arity args.length) line else part) m e
      printed := if_neg (not_not.mpr same) ▸ h

theorem Fails.truly {condition : Expr} {part other : Run α} {v : Value}
    (run : eval host fuel condition m = .ok v n) (yes : v.truthy = true)
    (h : Fails part n e printed) :
    Fails (do if (← eval host fuel condition).truthy then part else other) m e printed :=
  .after run (if_pos yes ▸ h)

theorem Fails.goesRound {condition : Expr} {body : Stmt} {increment : Option Expr} {v : Value}
    {signal : Signal} {o : Machine} (run : eval host fuel condition m = .ok v n)
    (yes : v.truthy = true) (once : exec host fuel body n = .ok signal o) (goesOn : GoesOn signal)
    (h : Fails (goRound host fuel condition body increment .normal) o e printed) :
    Fails (execLoop host (fuel + 1) condition body increment) m e printed := by
  have round : Fails (goRound host fuel condition body increment signal) o e printed := by
    cases signal with
    | normal | «continue» line => exact h
    | «break» line | «return» value line => exact goesOn.elim
  exact .truly run yes (.after once round)

theorem Fails.superclassOf {decl : ClassDecl Stmt} {parent : Occurrence}
    (named : decl.superclass = some parent) (ne : parent.token.lexeme ≠ decl.name.lexeme)
    (h : Fails (lookup parent parent.token.lexeme) m e printed) :
    Fails (superclassOf decl) m e printed := by
  unfold Run.superclassOf
  rw [named]
  dsimp only
  rw [if_neg (by simpa using ne)]
  exact h.bind _

theorem fails_of_enters (enters : Enters host p q) (h : q.Fails host e printed) :
    p.Fails host e printed := by
  have failed {α : Type} {part : Run α} {m : Machine} (h : Fails (discard part) m e printed) :
      Fails part m e printed := fails_discard.mp h
  cases enters with
  | grouping | var | this | super => exact h
  | assigned | binaryLeft | unary | callee | get | setObject | logicalLeft | firstExpr =>
      exact fails_discard.mpr ((failed h).bind _)
  | assign run => exact fails_discard.mpr (.after run (h.bind _))
  | logicalRight run goesOn =>
      exact fails_discard.mpr (.after run (if_neg (Bool.eq_false_iff.mp goesOn) ▸ failed h))
  | binaryRight run | arguments run | setValue run | otherExprs run =>
      exact fails_discard.mpr (.after run ((failed h).bind _))
  | call callee arguments => exact fails_discard.mpr (.after callee (.after arguments (failed h)))
  | function same | bound same => exact fails_discard.mpr (.called same (failed h))
  | «initializer» same created found bound =>
      apply fails_discard.mpr
      apply Fails.called same
      apply Fails.after created
      rw [found]
      exact .after bound (h.bind _)
  | callBody depth created =>
      have inner := fails_inCall.mpr (failed h)
      exact fails_discard.mpr (.after depth (.after created (inner.bind _)))
  | expression begins => exact fails_discard.mpr (.begins begins (h.bind _))
  | print begins | varDecl begins | branchCondition begins =>
      exact fails_discard.mpr (.begins begins ((failed h).bind _))
  | block begins created =>
      have inner := fails_inScope.mpr (failed h)
      exact fails_discard.mpr (.begins begins (.after rfl (.after created inner)))
  | thenBranch begins condition yes =>
      exact fails_discard.mpr (.begins begins (.truly condition yes (failed h)))
  | elseBranch begins condition no =>
      apply fails_discard.mpr
      apply Fails.begins begins
      apply Fails.after condition
      rw [if_neg (Bool.eq_false_iff.mp no)]
      exact failed h
  | loop begins => exact fails_discard.mpr (.begins begins (fails_inLoop.mpr (failed h)))
  | superclass begins named ne =>
      have above := Fails.superclassOf named ne (failed h)
      exact fails_discard.mpr (.begins begins ((above.bind _).bind _))
  | returned begins checked =>
      exact fails_discard.mpr (.begins begins (.after checked ((failed h).bind _)))
  | firstStmt => exact fails_discard.mpr ((failed h).bind _)
  | otherStmts run => exact fails_discard.mpr (.after run (failed h))
  | loopCondition => exact fails_discard.mpr ((failed h).bind _)
  | loopBody condition yes => exact fails_discard.mpr (.truly condition yes ((failed h).bind _))
  | increment condition yes body goesOn =>
      exact fails_discard.mpr (.goesRound condition yes body goesOn (h.bind _))
  | again condition yes body goesOn =>
      exact fails_discard.mpr (.goesRound condition yes body goesOn (failed h))
  | incremented condition yes body goesOn increment =>
      apply fails_discard.mpr
      apply Fails.goesRound condition yes body goesOn
      exact .after (discard_ok increment) (failed h)
  | firstOfProgram => exact (failed h).bind _
  | restOfProgram run => exact h.after run

theorem not_fails {part : Run α} {a : α} (run : part m = .ok a n) : ¬ Fails part m e printed := by
  rintro ⟨o, failed, -⟩
  rw [run] at failed
  cases failed

theorem lookup_fault {o : Occurrence} {name : String} {e : RuntimeError}
    (failed : lookup o name m = .error (.fault e) n) : e.fault = .undefinedVariable name := by
  rw [lookup_eq] at failed
  split at failed <;> cases failed
  rfl

theorem assign_fault {o : Occurrence} {value : Value} {e : RuntimeError}
    (failed : assign o value m = .error (.fault e) n) :
    e.fault = .undefinedVariable o.token.lexeme := by
  rw [assign_eq] at failed
  split at failed <;> cases failed
  rfl

theorem readProperty_fault {id : Address} {object : ClassObject} {name : String} {e : RuntimeError}
    (failed : readProperty id object name line m = .error (.fault e) n) :
    e.fault = .undefinedProperty name := by
  unfold Run.readProperty at failed
  dsimp only at failed
  split at failed <;> cases failed
  rfl

theorem Primitive.plain_of_fault {plain : Bool} {part : Run α} {e : RuntimeError}
    (h : Primitive plain part) (failed : part m = .error (.fault e) n) :
    plain = true → e.fault.plain = true := by
  cases h with
  | fail line ne =>
      cases failed
      exact id
  | lookup o name | assign o value => exact nofun
  | readProperty id object name line => exact fun _ => readProperty_fault failed ▸ rfl
  | _ => cases failed

theorem traceable_fault (host : Host) {e : RuntimeError} (special : e.fault.plain = false)
    (printed : Array String) :
    Traceable host fun _ part m => Fails part m (.fault e) printed where
  step h := by
    rintro ⟨n, failed, -⟩
    rw [h.plain_of_fault failed rfl] at special
    cases special
  bind h := fails_bind h
  discard h := fails_discard.mpr h
  inScope h := fails_inScope.mp h
  inLoop h := fails_inLoop.mp h
  inCall h := fails_inCall.mp h
  collectIfDue := by
    rintro m ⟨n, failed, -⟩
    unfold collectIfDue at failed
    split at failed <;> cases failed
  readClock := not_fails rfl
  exhausted := by
    rintro α m ⟨n, failed, -⟩
    cases failed

abbrev overflow (line : Nat) : Halt := .fault ⟨.stackOverflow, line⟩

theorem fault_of_overflow {fault : RuntimeFault} {line' : Nat}
    (h : Fails (fail fault line' : Run α) m (overflow line) printed) : fault = .stackOverflow := by
  obtain ⟨n, failed, -⟩ := h
  cases failed
  rfl

theorem Primitive.not_overflows {plain : Bool} {part : Run α} (h : Primitive plain part) :
    ¬ Fails part m (overflow line) printed := by
  rintro ⟨n, failed, output⟩
  cases h with
  | fail line ne => exact ne (fault_of_overflow ⟨n, failed, output⟩)
  | lookup o name => exact absurd (lookup_fault failed) nofun
  | assign o value => exact absurd (assign_fault failed) nofun
  | readProperty id object name line => exact absurd (readProperty_fault failed) nofun
  | _ => exact not_fails rfl ⟨n, failed, output⟩

def Moment.Exceeds (host : Host) (line : Nat) (p : Moment) : Prop :=
  ∃ fuel closure args m limit, p = ⟨fuel + 1, .invoke closure args line, m⟩ ∧
    host.maxDepth = some limit ∧ limit ≤ m.callDepth

theorem checkDepth_error (failed : checkDepth host line m = .error e n) :
    e = overflow line ∧ n = m ∧ ∃ limit, host.maxDepth = some limit ∧ limit ≤ m.callDepth := by
  cases limited : host.maxDepth with
  | none =>
      rw [checkDepth_unlimited limited] at failed
      cases failed
  | some limit =>
      rw [checkDepth_limited limited] at failed
      by_cases overrun : limit ≤ m.callDepth
      · rw [if_pos overrun] at failed
        cases failed
        exact ⟨rfl, rfl, limit, rfl, overrun⟩
      · rw [if_neg overrun] at failed
        cases failed

/-- An overflow comes from a call that the limit does not admit. -/
theorem overflow_origin (h : p.Fails host (overflow line) printed) :
    ∃ q, Relation.ReflTransGen (Enters host) p q ∧ q.Exceeds host line ∧
      q.machine.output = printed := by
  obtain ⟨q, run, origin⟩ := exists_origin (traceable_fault host rfl printed)
    (fun step => step.not_overflows) h
  cases origin with
  | @call fuel closure args line' is failed =>
      obtain ⟨n, failed, output⟩ := failed
      obtain ⟨eq, rfl, limit, limited, overrun⟩ := checkDepth_error failed
      cases eq
      exact ⟨q, run, ⟨fuel, closure, args, _, limit, is, limited, overrun⟩, output⟩
  | statement is failed =>
      obtain ⟨n, failed, -⟩ := failed
      unfold start at failed
      dsimp only at failed
      split at failed <;> cases failed

end ClassScript.Run
