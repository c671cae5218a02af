import ClassScript.Proofs.Run.Bodies

namespace ClassScript.Run

open Machine

inductive LoopStep where
  | condition (result : EStateM.Result Halt Machine Value)
  | body (result : EStateM.Result Halt Machine Signal)
  | increment (result : EStateM.Result Halt Machine Value)

namespace LoopStep

def leaves : LoopStep → Option (EStateM.Result Halt Machine Signal)
  | .condition (.ok v n) => if v.truthy then none else some (.ok .normal n)
  | .body (.ok (.break _) n) => some (.ok .normal n)
  | .body (.ok (.return value line) n) => some (.ok (.return value line) n)
  | .body (.ok _ _) | .increment (.ok _ _) => none
  | .condition (.error halt n) | .body (.error halt n) | .increment (.error halt n) =>
    some (.error halt n)

def machine : LoopStep → Machine
  | .condition result | .increment result => leftIn result
  | .body result => leftIn result

end LoopStep

/-- Each step is what comes of its part in the state that the step before it left. A round takes
fuel from the loop, and its parts get what remains. -/
inductive LoopSteps (host : Host) (condition : Expr) (body : Stmt) (increment : Expr) :
    Nat → Machine → List LoopStep → Prop
  | nil {fuel m} : LoopSteps host condition body increment fuel m []
  | condition {fuel m rest} :
      LoopSteps host condition body increment fuel (leftIn (eval host fuel condition m)) rest →
      LoopSteps host condition body increment (fuel + 1) m
        (.condition (eval host fuel condition m) :: rest)
  | body {fuel m rest} :
      LoopSteps host condition body increment fuel (leftIn (exec host fuel body m)) rest →
      LoopSteps host condition body increment fuel m (.body (exec host fuel body m) :: rest)
  | increment {fuel m rest} :
      LoopSteps host condition body increment fuel (leftIn (eval host fuel increment m)) rest →
      LoopSteps host condition body increment fuel m
        (.increment (eval host fuel increment m) :: rest)

/-- What a loop comes to with these steps. If none of them leaves it, then its fuel is used up. -/
def loopOutcome : Machine → List LoopStep → EStateM.Result Halt Machine Signal
  | m, [] => .error .outOfFuel m
  | _, step :: rest => step.leaves.getD (loopOutcome step.machine rest)

/-- The increment comes exactly once behind a body that goes on, and nowhere else. -/
structure OnceBehindBodies (steps : List LoopStep) : Prop where
  first : ∀ result, steps[0]? ≠ some (.increment result)
  behind : ∀ i, (∃ result, steps[i + 1]? = some (.increment result)) ↔
    ∃ signal n, steps[i]? = some (.body (.ok signal n)) ∧ GoesOn signal
  last : ∀ i step, steps[i]? = some step → step.leaves.isSome → i + 1 = steps.length

variable {host : Host} {fuel : Nat} {condition : Expr} {body : Stmt} {increment : Expr}
  {m n o : Machine} {v w : Value} {signal : Signal} {halt : Halt} {steps : List LoopStep}

theorem leaves_body : (LoopStep.body (.ok signal n)).leaves.isSome ↔ ¬GoesOn signal := by
  cases signal <;> simp [LoopStep.leaves, GoesOn]

theorem leaves_condition (yes : v.truthy = true) :
    (LoopStep.condition (.ok v m)).leaves = none := by
  rw [LoopStep.leaves, if_pos yes]

theorem onceBehindBodies_nil : OnceBehindBodies [] where
  first _ := nofun
  behind i := by simp
  last i step := by simp

theorem onceBehindBodies_condition (result : EStateM.Result Halt Machine Value) :
    OnceBehindBodies [.condition result] where
  first _ := by simp
  behind i := by cases i <;> simp
  last i step := by cases i <;> simp

theorem onceBehindBodies_left (yes : v.truthy = true) {result : EStateM.Result Halt Machine Signal}
    (left : (LoopStep.body result).leaves.isSome) :
    OnceBehindBodies [.condition (.ok v m), .body result] where
  first _ := by simp
  behind i := by
    match i with
    | 0 | i + 2 => simp
    | 1 =>
        constructor
        · rintro ⟨_, absent⟩
          cases absent
        · rintro ⟨signal, n, eq, goesOn⟩
          cases eq
          exact absurd goesOn (leaves_body.mp left)
  last i step := by
    match i with
    | 0 =>
        rintro eq leaves
        cases eq
        rw [leaves_condition yes] at leaves
        cases leaves
    | 1 | i + 2 => simp

theorem OnceBehindBodies.round (yes : v.truthy = true) (goesOn : GoesOn signal)
    {result : EStateM.Result Halt Machine Value} (h : OnceBehindBodies steps)
    (ended : (LoopStep.increment result).leaves.isSome → steps = []) :
    OnceBehindBodies
      (.condition (.ok v m) :: .body (.ok signal n) :: .increment result :: steps) where
  first _ := by simp
  behind i := by
    match i with
    | 0 => simp
    | 1 => exact ⟨fun _ => ⟨signal, n, rfl, goesOn⟩, fun _ => ⟨result, rfl⟩⟩
    | 2 =>
        constructor
        · rintro ⟨result, eq⟩
          exact absurd eq (h.first result)
        · rintro ⟨_, _, eq, _⟩
          cases eq
    | i + 3 => exact h.behind i
  last i step := by
    match i with
    | 0 =>
        rintro eq leaves
        cases eq
        rw [leaves_condition yes] at leaves
        cases leaves
    | 1 =>
        rintro eq leaves
        cases eq
        exact absurd goesOn (leaves_body.mp leaves)
    | 2 =>
        rintro eq leaves
        cases eq
        rw [ended leaves]
        rfl
    | i + 3 =>
        intro eq leaves
        have last := h.last i step eq leaves
        simp only [List.length_cons]
        omega

def RunsInSteps (host : Host) (condition : Expr) (body : Stmt) (increment : Expr) (fuel : Nat)
    (m : Machine) : Prop :=
  ∃ steps, LoopSteps host condition body increment fuel m steps ∧ OnceBehindBodies steps ∧
    execLoop host fuel condition body (some increment) m = loopOutcome m steps

theorem LoopSteps.tested (run : eval host fuel condition m = .ok v n)
    (h : LoopSteps host condition body increment fuel n steps) :
    LoopSteps host condition body increment (fuel + 1) m (.condition (.ok v n) :: steps) := by
  rw [← run]
  refine .condition ?_
  rw [run]
  exact h

theorem LoopSteps.ran (once : exec host fuel body m = .ok signal n)
    (h : LoopSteps host condition body increment fuel n steps) :
    LoopSteps host condition body increment fuel m (.body (.ok signal n) :: steps) := by
  rw [← once]
  refine .body ?_
  rw [once]
  exact h

theorem runsInSteps_halted (run : eval host fuel condition m = .error halt n) :
    RunsInSteps host condition body increment (fuel + 1) m := by
  refine ⟨[.condition (.error halt n)], run ▸ .condition .nil, onceBehindBodies_condition _, ?_⟩
  simp only [execLoop, Bind.bind, EStateM.bind, run]
  rfl

theorem runsInSteps_unless (run : eval host fuel condition m = .ok v n) (no : v.truthy = false) :
    RunsInSteps host condition body increment (fuel + 1) m := by
  refine ⟨[.condition (.ok v n)], .tested run .nil, onceBehindBodies_condition _, ?_⟩
  have done : execLoop host (fuel + 1) condition body (some increment) m = .ok .normal n := by
    refine (bind_ok run).trans ?_
    rw [if_neg (by rw [no]; decide)]
    rfl
  rw [done, loopOutcome, LoopStep.leaves, if_neg (by rw [no]; decide)]
  rfl

theorem execLoop_left (run : eval host fuel condition m = .ok v n) (yes : v.truthy = true)
    (left : (LoopStep.body (exec host fuel body n)).leaves.isSome) (increment : Option Expr) :
    some (execLoop host (fuel + 1) condition body increment m) =
      (LoopStep.body (exec host fuel body n)).leaves := by
  have round : execLoop host (fuel + 1) condition body increment m =
      (exec host fuel body >>= goRound host fuel condition body increment) n :=
    truly_eq run yes
  rw [round]
  cases once : exec host fuel body n with
  | error halt o => simp only [Bind.bind, EStateM.bind, once, LoopStep.leaves]
  | ok signal o =>
      rw [bind_ok once]
      cases signal with
      | «break» line | «return» value line => rfl
      | normal | «continue» line => rw [once] at left; cases left

theorem runsInSteps_left (run : eval host fuel condition m = .ok v n) (yes : v.truthy = true)
    (left : (LoopStep.body (exec host fuel body n)).leaves.isSome) :
    RunsInSteps host condition body increment (fuel + 1) m := by
  refine ⟨[.condition (.ok v n), .body (exec host fuel body n)], .tested run (.body .nil),
    onceBehindBodies_left yes left, ?_⟩
  have outcome := execLoop_left run yes left (some increment)
  rw [loopOutcome, leaves_condition yes, loopOutcome, ← outcome]
  rfl

theorem runsInSteps_again (run : eval host fuel condition m = .ok v n) (yes : v.truthy = true)
    (once : exec host fuel body n = .ok signal o) (goesOn : GoesOn signal)
    (next : ∀ p, RunsInSteps host condition body increment fuel p) :
    RunsInSteps host condition body increment (fuel + 1) m := by
  have round : execLoop host (fuel + 1) condition body (some increment) m =
      goRound host fuel condition body (some increment) .normal o :=
    goesRound_eq run yes once goesOn
  have stays : (LoopStep.body (.ok signal o)).leaves = none := by
    rw [← Option.not_isSome_iff_eq_none, leaves_body, not_not]
    exact goesOn
  cases counted : eval host fuel increment o with
  | error halt p =>
      refine ⟨[.condition (.ok v n), .body (.ok signal o), .increment (.error halt p)],
        .tested run (.ran once (counted ▸ .increment .nil)),
        .round yes goesOn onceBehindBodies_nil fun _ => rfl, ?_⟩
      rw [round, loopOutcome, leaves_condition yes, loopOutcome, stays]
      exact bind_error (discard_error counted)
  | ok w p =>
      obtain ⟨steps, rest, behind, outcome⟩ := next p
      refine ⟨.condition (.ok v n) :: .body (.ok signal o) :: .increment (.ok w p) :: steps,
        .tested run (.ran once ?_), .round yes goesOn behind nofun, ?_⟩
      · rw [← counted]
        refine .increment ?_
        rw [counted]
        exact rest
      · rw [round, loopOutcome, leaves_condition yes, loopOutcome, stays]
        exact (bind_ok (discard_ok counted)).trans outcome

theorem runsInSteps (host : Host) (condition : Expr) (body : Stmt) (increment : Expr)
    (fuel : Nat) (m : Machine) : RunsInSteps host condition body increment fuel m := by
  induction fuel generalizing m with
  | zero => exact ⟨[], .nil, onceBehindBodies_nil, rfl⟩
  | succ fuel ih =>
      cases run : eval host fuel condition m with
      | error halt n => exact runsInSteps_halted run
      | ok v n =>
          cases yes : v.truthy with
          | false => exact runsInSteps_unless run yes
          | true =>
              by_cases left : (LoopStep.body (exec host fuel body n)).leaves.isSome
              · exact runsInSteps_left run yes left
              · cases once : exec host fuel body n with
                | error halt o => simp [once, LoopStep.leaves] at left
                | ok signal o =>
                    rw [once, leaves_body, not_not] at left
                    exact runsInSteps_again run yes once left ih

end ClassScript.Run
