import ClassScript.Proofs.Run.Active

namespace ClassScript

open Run

namespace Run

variable {host : Host} {first p q : Moment} {n : Nat}

theorem call_of_invoke {closure : Closure} {args : List Value} {line : Nat}
    (enters : Enters host p q) (invokes : q.task = .invoke closure args line) :
    ∃ f args, p.task = .call f args line := by
  cases enters <;> cases invokes
  all_goals exact ⟨_, _, rfl⟩

theorem expression_of_call {f : Value} {args : List Value} {line : Nat}
    (enters : Enters host p q) (calls : q.task = .call f args line) :
    ∃ callee paren arguments, p.task = .eval (.call callee paren arguments) ∧
      paren.line = line := by
  cases enters <;> cases calls
  exact ⟨_, _, _, rfl, rfl⟩

theorem Active.expression {fuel line : Nat} {program : List Stmt} {m : Machine} {closure : Closure}
    {args : List Value} (h : Active host ⟨fuel, .program program, m⟩ n q)
    (invokes : q.task = .invoke closure args line) :
    ∃ p dispatch callee paren arguments, Active host ⟨fuel, .program program, m⟩ n p ∧
      p.task = .eval (.call callee paren arguments) ∧ Enters host p dispatch ∧
      Enters host dispatch q ∧ paren.line = line := by
  cases h with
  | start => cases invokes
  | body _ isCall enters =>
      obtain ⟨f, args, dispatches⟩ := call_of_invoke enters invokes
      rw [dispatches] at isCall
      exact isCall.elim
  | part active _ enters =>
      obtain ⟨f, args, dispatches⟩ := call_of_invoke enters invokes
      cases active with
      | start => cases dispatches
      | body _ isCall before =>
          obtain ⟨callee, paren, arguments, calls, -⟩ := expression_of_call before dispatches
          rw [calls] at isCall
          exact isCall.elim
      | part active _ before =>
          obtain ⟨callee, paren, arguments, calls, line⟩ := expression_of_call before dispatches
          exact ⟨_, _, callee, paren, arguments, active, calls, before, enters, line⟩

theorem exists_enters_of_invoke (host : Host) (unlimited : host.maxDepth = none)
    {fuel line : Nat} {closure : Closure} {args : List Value} {m : Machine} :
    ∃ body, Enters host ⟨fuel + 1, .invoke closure args line, m⟩ body :=
  ⟨_, .callBody (checkDepth_unlimited unlimited line m) rfl⟩

theorem isCall_enters (isCall : p.task.IsCall) (enters : Enters host p q) :
    ∃ fuel closure args line m, p = ⟨fuel + 1, .invoke closure args line, m⟩ := by
  cases enters with
  | callBody => exact ⟨_, _, _, _, _, rfl⟩
  | _ => exact isCall.elim

end Run

def Overflowed (result : Except Diagnostic Unit) : Prop :=
  ∃ line, result = .error (.runtime ⟨.stackOverflow, line⟩)

namespace Machine

variable {m : Machine} {host : Host} {fuel line limit : Nat} {program : List Stmt}
  {more : Option Nat}

abbrev firstMoment (m : Machine) (fuel : Nat) (program : List Stmt) : Moment :=
  ⟨fuel, .program program, (m.analyse program).2⟩

theorem concluded_fault {x : EStateM.Result Halt Machine Unit} {e : RuntimeError}
    (h : (concluded x).1 = .error (.runtime e)) : ∃ n, x = .error (.fault e) n := by
  cases x with
  | ok _ n => cases h
  | error e n =>
      cases e with
      | outOfFuel => cases h
      | fault e =>
          cases h
          exact ⟨n, rfl⟩

theorem fails_of_interpret {e : RuntimeError} (accepted : (m.analyse program).1 = .ok ())
    (h : (m.interpret host fuel program).1 = .error (.runtime e)) :
    (m.firstMoment fuel program).Fails host (.fault e)
      (m.interpret host fuel program).2.output := by
  rw [interpret_eq_concluded accepted] at h ⊢
  obtain ⟨n, run⟩ := concluded_fault h
  rw [run]
  exact ⟨n, run, rfl⟩

theorem overflowed_of_fails (accepted : (m.analyse program).1 = .ok ())
    (h : (m.firstMoment fuel program).Overflows host) :
    Overflowed (m.interpret host fuel program).1 := by
  obtain ⟨line, -, n, run, -⟩ := h
  replace run : Run.program host fuel program (m.analyse program).2 = _ := run
  rw [interpret_eq_concluded accepted, run]
  exact ⟨line, rfl⟩

theorem concluded_eq_of_shortened {x y : EStateM.Result Halt Machine Unit}
    (h : Shortened IsOverflow x y) (none : ¬ Overflowed (concluded x).1) :
    concluded x = concluded y := by
  cases h with
  | same => rfl
  | stopped stop _ =>
      obtain ⟨line, rfl⟩ := stop
      exact absurd ⟨line, rfl⟩ none

theorem concluded_output_of_shortened {x y : EStateM.Result Halt Machine Unit}
    (h : Shortened IsOverflow x y) :
    (concluded x).2.output.toList <+: (concluded y).2.output.toList := by
  cases h with
  | same => exact List.prefix_rfl
  | stopped _ printed => cases y <;> exact printed

theorem callDepth_firstMoment (m : Machine) (fuel : Nat) (program : List Stmt) :
    (m.firstMoment fuel program).machine.callDepth = m.callDepth := by
  obtain ⟨distances, eq⟩ := analyse_eq m program
  unfold firstMoment
  rw [eq]

theorem exists_call_of_overflow (rest : m.callDepth = 0)
    (accepted : (m.analyse program).1 = .ok ())
    (h : (m.interpret (host.limitedTo (some limit)) fuel program).1 =
      .error (.runtime ⟨.stackOverflow, line⟩)) :
    ∃ left closure args n, Active (host.limitedTo (some limit)) (m.firstMoment fuel program) limit
        ⟨left + 1, .invoke closure args line, n⟩ ∧
      n.output = (m.interpret (host.limitedTo (some limit)) fuel program).2.output := by
  obtain ⟨q, run, exceeds, output⟩ := overflow_origin (fails_of_interpret accepted h)
  obtain ⟨depth, active⟩ := exists_active run
  have counted := active.callDepth
  rw [callDepth_firstMoment, rest, Nat.zero_add] at counted
  have below := withinLimit_of_moments run (fun limit' _ => by
    rw [callDepth_firstMoment, rest]
    exact Nat.zero_le limit') limit rfl
  obtain ⟨left, closure, args, n, limit', rfl, limited, overrun⟩ := exceeds
  cases limited
  obtain rfl : depth = limit := counted.symm.trans (Nat.le_antisymm below overrun)
  exact ⟨left, closure, args, n, active, output⟩

theorem overflowed_of_call {call body : Moment} (rest : m.callDepth = 0)
    (accepted : (m.analyse program).1 = .ok ())
    (active : Active (host.limitedTo (some limit)) (m.firstMoment fuel program) limit call)
    (isCall : call.task.IsCall) (enters : Enters (host.limitedTo none) call body) :
    Overflowed (m.interpret (host.limitedTo (some limit)) fuel program).1 := by
  have depth := active.callDepth
  rw [callDepth_firstMoment, rest, Nat.zero_add] at depth
  obtain ⟨left, closure, args, line, n, rfl⟩ := isCall_enters isCall enters
  have exceeds : Moment.Exceeds (host.limitedTo (some limit)) line
      ⟨left + 1, .invoke closure args line, n⟩ := exceeds_invoke rfl depth.ge
  exact overflowed_of_fails accepted ⟨line, _, fails_of_moments active.moment exceeds.fails⟩

/-- A limit on active calls only cuts runs short. A run that does not reach the smaller limit is the
same under the larger one and without a limit. A run ends with an overflow under a limit exactly if,
without one, it enters a function, method or initializer at a moment when as many of them are active
as the limit says. What was printed until then is the beginning of what a larger limit lets it
print, and the fault is in the line of the closing parenthesis of the call expression that is
evaluated. -/
theorem limit_only_cuts (rest : m.callDepth = 0) (host : Host) (fuel : Nat) (program : List Stmt)
    (le : ∀ limit' ∈ more, limit ≤ limit') :
    let less := host.limitedTo (some limit)
    let free := host.limitedTo none
    let first := m.firstMoment fuel program
    let few := m.interpret less fuel program
    let many := m.interpret (host.limitedTo more) fuel program
    (¬ Overflowed few.1 → few = many) ∧
    (Overflowed few.1 ↔ (m.analyse program).1 = .ok () ∧ ∃ call body,
      Active free first limit call ∧ call.task.IsCall ∧ Enters free call body) ∧
    ∀ line, few.1 = .error (.runtime ⟨.stackOverflow, line⟩) →
      few.2.output.toList <+: many.2.output.toList ∧
      ∃ expression dispatch call body callee paren arguments,
        Active less first limit expression ∧
        expression.task = .eval (.call callee paren arguments) ∧
        Enters less expression dispatch ∧ Enters less dispatch call ∧ call.task.IsCall ∧
        Enters free call body ∧ call.machine.output = few.2.output ∧ paren.line = line := by
  intro less free first few many
  cases accepted : (m.analyse program).1 with
  | error e =>
      have few_eq : few = _ := interpret_eq_rejected accepted
      have many_eq : many = _ := interpret_eq_rejected accepted
      have none : ¬ Overflowed few.1 := by
        rw [few_eq]
        exact fun ⟨_, h⟩ => nomatch h
      refine ⟨fun _ => few_eq.trans many_eq.symm, ⟨fun h => absurd h none, fun h => ?_⟩,
        fun line h => absurd ⟨line, h⟩ none⟩
      cases h.1
  | ok =>
      -- The run under the smaller limit is a shortened run of the other one. It ends at the first
      -- call that the run without a limit enters at that depth.
      have shortened := ((lockstep_shortens (stricter_limitedTo host le) stops_limitedTo).program
        (shortenedWith_limitedTo host le fuel) program).ends (m.analyse program).2
      have few_eq : few = concluded (Run.program less fuel program (m.analyse program).2) :=
        interpret_eq_concluded accepted
      have many_eq : many = concluded (Run.program _ fuel program (m.analyse program).2) :=
        interpret_eq_concluded accepted
      refine ⟨fun none => ?_, ⟨fun overrun => ⟨rfl, ?_⟩, ?_⟩, fun line overrun => ⟨?_, ?_⟩⟩
      · rw [few_eq] at none
        rw [few_eq, many_eq]
        exact concluded_eq_of_shortened shortened none
      · obtain ⟨line, overrun⟩ := overrun
        obtain ⟨left, closure, args, n, active, -⟩ := exists_call_of_overflow rest accepted overrun
        obtain ⟨body, enters⟩ := exists_enters_of_invoke free rfl
        exact ⟨_, body, active.of_less nofun, trivial, enters⟩
      · rintro ⟨-, call, body, active, isCall, enters⟩
        rcases active.of_more nofun with active | overrun
        · exact overflowed_of_call rest accepted active isCall enters
        · exact overflowed_of_fails accepted overrun
      · rw [few_eq, many_eq]
        exact concluded_output_of_shortened shortened
      · obtain ⟨left, closure, args, n, active, output⟩ :=
          exists_call_of_overflow rest accepted overrun
        obtain ⟨p, dispatch, callee, paren, arguments, before, calls, enters, enters', line⟩ :=
          active.expression rfl
        obtain ⟨body, inside⟩ := exists_enters_of_invoke free rfl
        exact ⟨p, dispatch, _, body, callee, paren, arguments, before, calls, enters, enters',
          trivial, inside, output, line⟩

def descendingName : Token := ⟨.identifier, "descend", none, 1⟩

def descendingParen (line : Nat) : Token := ⟨.rightParen, ")", none, line⟩

def descendingProgram : List Stmt :=
  [.funDecl ⟨descendingName, [], [.print (.literal (.string "down") 1),
      .expression (.call (.var ⟨0, descendingName⟩) (descendingParen 2) [])]⟩,
    .expression (.call (.var ⟨1, descendingName⟩) (descendingParen 3) [])]

theorem limit_only_cuts_descendingProgram :
    let host := Host.standard fun _ => 0
    let few := initial.interpret (host.limitedTo (some 2)) 20 descendingProgram
    let many := initial.interpret (host.limitedTo (some 3)) 20 descendingProgram
    few.1 = .error (.runtime ⟨.stackOverflow, 2⟩) ∧ Overflowed few.1 ∧
      few.2.output.toList <+: many.2.output.toList ∧
      ∃ call body, Active (host.limitedTo none) (initial.firstMoment 20 descendingProgram) 2 call ∧
        call.task.IsCall ∧ Enters (host.limitedTo none) call body := by
  intro host
  have accepted : (initial.analyse descendingProgram).1 = .ok () := rfl
  have fault : (match Run.program (host.limitedTo (some 2)) 20 descendingProgram
      (initial.analyse descendingProgram).2 with
    | .error (.fault e) _ => some e
    | _ => none) = some ⟨.stackOverflow, 2⟩ := by decide +kernel
  have overrun : (initial.interpret (host.limitedTo (some 2)) 20 descendingProgram).1 =
      .error (.runtime ⟨.stackOverflow, 2⟩) := by
    split at fault
    · rename_i failed
      cases fault
      exact interpret_error accepted failed
    · cases fault
  have le : ∀ limit' ∈ some 3, 2 ≤ limit' := fun limit' mem => by cases mem; decide
  obtain ⟨-, occurs, cut⟩ := limit_only_cuts (rfl : initial.callDepth = 0) host 20
    descendingProgram le
  exact ⟨overrun, ⟨2, overrun⟩, (cut 2 overrun).1, (occurs.mp ⟨2, overrun⟩).2⟩

end Machine

end ClassScript
