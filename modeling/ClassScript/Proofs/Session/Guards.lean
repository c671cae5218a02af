import ClassScript.Proofs.Dispatch.Methods
import ClassScript.Proofs.Session.Accepted
import ClassScript.Proofs.Session.CallLimit

namespace ClassScript

open Binding Store

/-- The texts of the errors that the guards report. -/
inductive Guarding : String → Prop
  | unary (operator : String) : Guarding ("Invalid unary operator '" ++ operator ++ "'.")
  | binary (operator : String) : Guarding ("Invalid binary operator '" ++ operator ++ "'.")
  | super : Guarding "Invalid 'super' binding."
  | outside : Guarding "Can't use 'super' outside of a class."
  | undefined {name : String} : Reserved name → Guarding ("Undefined variable '" ++ name ++ "'.")

def guardingHeads : List (List Char) :=
  ["Invalid ".toList, "Can't use 's".toList, "Undefined v".toList]

theorem Guarding.head {text : String} (h : Guarding text) :
    ∃ head ∈ guardingHeads, head <+: text.toList := by
  cases h <;> simp [guardingHeads, String.toList_append]

theorem reserved_of_guarding {name : String}
    (h : Guarding ("Undefined variable '" ++ name ++ "'.")) : Reserved name := by
  generalize is : "Undefined variable '" ++ name ++ "'." = text at h
  cases h with
  | undefined reserved =>
      rw [String.append_left_inj, String.append_right_inj] at is
      exact is ▸ reserved
  | _ =>
      have same := congrArg String.toList is
      simp [String.toList_append] at same

theorem defensive_of_guarding {fault : RuntimeFault} (h : Guarding fault.message) :
    fault.Defensive := by
  -- The equations of `message` are slow to come by, its definition is not.
  delta RuntimeFault.message at h
  have head := h.head
  cases fault with
  | invalidUnary operator => exact .unary operator
  | invalidBinary operator => exact .binary operator
  | invalidSuper => exact .super
  | superOutsideClass => exact .outside
  | undefinedVariable name => exact .reserved (reserved_of_guarding h)
  | outsideLoop exit => cases exit <;> simp [guardingHeads, LoopExit.text] at head
  | _ => simp [guardingHeads, String.toList_append] at head

namespace Session

variable {s : Session} {source : String} {program : List Stmt} {host : Host} {fuel : Nat}
  {e : RuntimeError} {kind : TokenKind} {text : String}

theorem interpret_of_run (h : .runtime e ∈ (s.run host source).1) :
    ∃ program, (s.parse source).1 = .ok program ∧
      (s.machine.interpret host ampleFuel program).1 = .error (.runtime e) := by
  unfold Session.run Session.parse at h
  unfold Session.parse
  cases scanned : lex source with
  | error e =>
      simp only [scanned, List.mem_singleton, reduceCtorEq] at h
  | ok tokens =>
      cases parsed : (parseProgram s.nextId tokens).result with
      | error es => simp [scanned, parsed, Except.mapError] at h
      | ok program =>
          simp only [scanned, parsed, Except.mapError] at h ⊢
          refine ⟨program, rfl, ?_⟩
          split at h <;> rename_i result
          · cases h
          · obtain rfl := List.mem_singleton.mp h
            rw [result]

theorem Ran.vetted (ran : Ran s) (read : (s.parse source).1 = .ok program)
    (ok : (s.machine.analyse program).1 = .ok ()) (host : Host) (fuel : Nat) :
    ∃ src, Run.Vetted host ⟨fuel, .program program, (s.machine.analyse program).2⟩ src := by
  obtain ⟨programs, accepted, accepts⟩ := ran.accepting
  obtain ⟨tokens, lexed, parsed, -⟩ := parse_ok read
  exact ⟨_, (accepts.read (spelled_lex lexed) parsed).vetted List.mem_cons_self ok host fuel⟩

theorem Ran.not_guarding (ran : Ran s) (read : (s.parse source).1 = .ok program)
    (h : (s.machine.interpret host fuel program).1 = .error (.runtime e)) :
    ¬ Guarding e.fault.message := by
  intro guarding
  cases ok : (s.machine.analyse program).1 with
  | error rejected =>
      rw [Machine.interpret_eq_rejected ok] at h
      cases h
  | ok =>
      obtain ⟨src, vetted⟩ := ran.vetted read ok host fuel
      exact vetted.not_defensive (Machine.fails_of_interpret ok h)
        (defensive_of_guarding guarding)

/-- The expression is evaluated in a run of some source, in a session of runs. -/
def Evaluated (e : Expr) : Prop :=
  ∃ s host source program p, Ran s ∧ (s.parse source).1 = .ok program ∧
    p ∈ s.machine.moments host ampleFuel program ∧ p.task = .eval e

theorem Evaluated.formed {e : Expr} (h : Evaluated e) : e.Formed fun _ => True := by
  obtain ⟨s, host, source, program, p, ran, read, ⟨ok, run⟩, is⟩ := h
  obtain ⟨src, vetted⟩ := ran.vetted read ok host ampleFuel
  exact vetted.formed run is

theorem evaluated_of_parse (source : String) {e : Expr}
    (read : (initial.parse source).1 = .ok [.expression e])
    (ok : (initial.machine.analyse [.expression e]).1 = .ok ()) : Evaluated e := by
  obtain ⟨distances, same⟩ := Machine.analyse_eq initial.machine [.expression e]
  have begins : Run.Begins familyHost (.expression e) (initial.machine.analyse [.expression e]).2
      { initial.machine with distances, started := 1 } := by
    rw [same]
    rfl
  obtain ⟨fuel, some⟩ : ∃ fuel, ampleFuel = fuel + 1 := ⟨_, rfl⟩
  have run : Relation.ReflTransGen (Run.Enters familyHost)
      ⟨fuel + 1, .program [.expression e], (initial.machine.analyse [.expression e]).2⟩
      ⟨fuel, .eval e, { initial.machine with distances, started := 1 }⟩ :=
    .head .firstOfProgram (.single (.expression begins))
  rw [← some] at run
  exact ⟨initial, familyHost, source, _, _, .initial, read, ⟨ok, run⟩, rfl⟩

def nilLiteral : Expr := .literal .nil 1

def unaryUse (kind : TokenKind) (text : String) : Expr := .unary ⟨kind, text, none, 1⟩ nilLiteral

def binaryUse (kind : TokenKind) (text : String) : Expr :=
  .binary nilLiteral ⟨kind, text, none, 1⟩ nilLiteral

def logicalUse (kind : TokenKind) (text : String) : Expr :=
  .logical nilLiteral ⟨kind, text, none, 1⟩ nilLiteral

theorem evaluated_unary (h : kind ∈ unaryOperators) : ∃ text, Evaluated (unaryUse kind text) := by
  simp only [unaryOperators, List.mem_cons, List.not_mem_nil, or_false] at h
  rcases h with rfl | rfl
  · exact ⟨"!", evaluated_of_parse "!nil;" (by cbv) rfl⟩
  · exact ⟨"-", evaluated_of_parse "-nil;" (by cbv) rfl⟩

theorem evaluated_binary (h : kind ∈ binaryOperators) :
    ∃ text, Evaluated (binaryUse kind text) := by
  simp only [binaryOperators, List.mem_cons, List.not_mem_nil, or_false] at h
  rcases h with rfl | rfl | rfl | rfl | rfl | rfl | rfl | rfl | rfl | rfl
  · exact ⟨"+", evaluated_of_parse "nil+nil;" (by cbv) rfl⟩
  · exact ⟨"-", evaluated_of_parse "nil-nil;" (by cbv) rfl⟩
  · exact ⟨"*", evaluated_of_parse "nil*nil;" (by cbv) rfl⟩
  · exact ⟨"/", evaluated_of_parse "nil/nil;" (by cbv) rfl⟩
  · exact ⟨">", evaluated_of_parse "nil>nil;" (by cbv) rfl⟩
  · exact ⟨">=", evaluated_of_parse "nil>=nil;" (by cbv) rfl⟩
  · exact ⟨"<", evaluated_of_parse "nil<nil;" (by cbv) rfl⟩
  · exact ⟨"<=", evaluated_of_parse "nil<=nil;" (by cbv) rfl⟩
  · exact ⟨"==", evaluated_of_parse "nil==nil;" (by cbv) rfl⟩
  · exact ⟨"!=", evaluated_of_parse "nil!=nil;" (by cbv) rfl⟩

theorem evaluated_logical (h : kind ∈ logicalOperators) :
    ∃ text, Evaluated (logicalUse kind text) := by
  simp only [logicalOperators, List.mem_cons, List.not_mem_nil, or_false] at h
  rcases h with rfl | rfl
  · exact ⟨"and", evaluated_of_parse "nil and nil;" (by cbv) rfl⟩
  · exact ⟨"or", evaluated_of_parse "nil or nil;" (by cbv) rfl⟩

theorem handlesUnary_iff_evaluated : Operator.HandlesUnary kind ↔
    ∃ operator operand, operator.kind = kind ∧ Evaluated (.unary operator operand) := by
  rw [Operator.handlesUnary_iff]
  constructor
  · intro known
    obtain ⟨text, evaluated⟩ := evaluated_unary known
    exact ⟨_, _, rfl, evaluated⟩
  · rintro ⟨operator, operand, rfl, evaluated⟩
    exact evaluated.formed

theorem handlesBinary_iff_evaluated : Operator.HandlesBinary kind ↔
    ∃ left operator right, operator.kind = kind ∧ Evaluated (.binary left operator right) := by
  rw [Operator.handlesBinary_iff]
  constructor
  · intro known
    obtain ⟨text, evaluated⟩ := evaluated_binary known
    exact ⟨_, _, _, rfl, evaluated⟩
  · rintro ⟨left, operator, right, rfl, evaluated⟩
    exact evaluated.formed

theorem logical_iff_evaluated : kind ∈ logicalOperators ↔
    ∃ left operator right, operator.kind = kind ∧ Evaluated (.logical left operator right) := by
  constructor
  · intro known
    obtain ⟨text, evaluated⟩ := evaluated_logical known
    exact ⟨_, _, _, rfl, evaluated⟩
  · rintro ⟨left, operator, right, rfl, evaluated⟩
    exact evaluated.formed

/-- Whatever sources were run before, no run reports what only guards report. At each moment of it,
`this` evaluates to an instance, `super` finds a class and an instance, and operators are such that
the evaluator has a case for them. Of these there is none that is not evaluated in some run. -/
theorem guards_unmet (ran : Ran s) (host : Host) (source : String) :
    (∀ e, .runtime e ∈ (s.run host source).1 → ¬ Guarding e.fault.message) ∧
    (∀ program fuel, (s.parse source).1 = .ok program →
      (∀ e, (s.machine.interpret host fuel program).1 = .error (.runtime e) →
        ¬ Guarding e.fault.message) ∧
      ∀ p ∈ s.machine.moments host fuel program,
        (∀ operator operand, p.task = .eval (.unary operator operand) →
          Operator.HandlesUnary operator.kind) ∧
        (∀ left operator right, p.task = .eval (.binary left operator right) →
          Operator.HandlesBinary operator.kind) ∧
        (∀ left operator right, p.task = .eval (.logical left operator right) →
          operator.kind = .kwAnd ∨ operator.kind = .kwOr) ∧
        (∀ keyword, p.task = .eval (.this keyword) → ∃ id object, ∀ fuel,
          Run.eval host (fuel + 1) (.this keyword) p.machine =
            .ok (.instance id object) p.machine) ∧
        ∀ keyword method, p.task = .eval (.super keyword method) →
          Run.SuperBound p.machine keyword) ∧
    (∀ kind, Operator.HandlesUnary kind ↔
      ∃ operator operand, operator.kind = kind ∧ Evaluated (.unary operator operand)) ∧
    (∀ kind, Operator.HandlesBinary kind ↔
      ∃ left operator right, operator.kind = kind ∧ Evaluated (.binary left operator right)) ∧
    ∀ kind, (kind = .kwAnd ∨ kind = .kwOr) ↔
      ∃ left operator right, operator.kind = kind ∧ Evaluated (.logical left operator right) := by
  have logical (kind : TokenKind) : kind ∈ logicalOperators ↔ kind = .kwAnd ∨ kind = .kwOr := by
    simp [logicalOperators]
  refine ⟨fun e reported => ?_, fun program fuel read => ⟨fun e reported => ?_, ?_⟩,
    fun kind => handlesUnary_iff_evaluated, fun kind => handlesBinary_iff_evaluated,
    fun kind => (logical kind).symm.trans logical_iff_evaluated⟩
  · obtain ⟨program, read, ended⟩ := interpret_of_run reported
    exact ran.not_guarding read ended
  · exact ran.not_guarding read reported
  · rintro p ⟨ok, run⟩
    -- All code that the run can come to is code of accepted sources.
    obtain ⟨src, vetted⟩ := ran.vetted read ok host fuel
    have home := Run.atHome_of_moments vetted.follows run vetted.home
    refine ⟨fun operator operand is => ?_, fun left operator right is => ?_,
      fun left operator right is => ?_, fun keyword is => ?_, fun keyword method is => ?_⟩
    · exact Operator.handlesUnary_iff.mpr (vetted.formed run is)
    · exact Operator.handlesBinary_iff.mpr (vetted.formed run is)
    · exact (logical _).mp (vetted.formed run is)
    · rw [is] at home
      obtain ⟨setting, inside, within⟩ := home
      have mem := (within_cons.mp within).1
      obtain ⟨id, object, found⟩ := Run.lookup_receiver inside mem (vetted.known_at run mem)
      exact ⟨id, object, fun fuel => found⟩
    · rw [is] at home
      obtain ⟨setting, inside, within⟩ := home
      have mem := (within_cons.mp within).1
      exact Run.superBound inside mem (vetted.known_at run mem)

def familySource : String :=
  "class A\x7bm()\x7b\x7d\x7dclass B<A\x7bm()\x7bsuper.m;\x7d\x7dclass C<B\x7b\x7dC().m();"

theorem guards_unmet_familyProgram : Ran initial ∧
    (initial.parse familySource).1 = .ok familyProgram ∧
    (∀ e, .runtime e ∈ (initial.run familyHost familySource).1 → ¬ Guarding e.fault.message) ∧
    ∃ p ∈ initial.machine.moments familyHost 20 familyProgram,
      p.task = .eval familyUse ∧ Run.SuperBound p.machine ⟨1, familySuper⟩ := by
  have read : (initial.parse familySource).1 = .ok familyProgram := by cbv
  obtain ⟨reports, runs, -⟩ := guards_unmet .initial familyHost familySource
  have during : _ ∈ initial.machine.moments familyHost 20 familyProgram :=
    ⟨rfl, familyStart_calls⟩
  obtain ⟨-, -, -, -, super⟩ := (runs familyProgram 20 read).2 _ during
  exact ⟨.initial, read, reports, _, during, rfl, super _ _ rfl⟩

end Session

end ClassScript
