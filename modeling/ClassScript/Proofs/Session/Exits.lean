import ClassScript.Proofs.Lexical.Sessions
import ClassScript.Proofs.Run.Entered

namespace ClassScript

open Binding Store

namespace Run

variable {host : Host} {p q : Moment}

def WithinLimit (host : Host) (m : Machine) : Prop :=
  ∀ limit, host.maxDepth = some limit → m.callDepth ≤ limit

theorem Opens.withinLimit {m : Machine} {task : Task} (opens : Opens host m task q)
    (h : WithinLimit host m) : WithinLimit host q.machine := by
  cases opens with
  | goOn | block | loop => exact h
  | call below => exact below

theorem withinLimit_of_enters (enters : Enters host p q) (h : WithinLimit host p.machine) :
    WithinLimit host q.machine := by
  obtain ⟨n, returns, opens⟩ := opens_of_enters enters
  apply opens.withinLimit
  intro limit limited
  rw [returns.callDepth]
  exact h limit limited

theorem withinLimit_of_moments (run : Relation.ReflTransGen (Enters host) p q)
    (h : WithinLimit host p.machine) : WithinLimit host q.machine := by
  induction run with
  | refl => exact h
  | tail _ enters ih => exact withinLimit_of_enters enters ih

end Run

namespace Machine

/-- Where the steps of a session begin: with a program that the analysis accepts, or with a single
expression or statement. -/
inductive Starts (m : Machine) : Run.Moment → Prop
  | program {fuel program} : (m.analyse program).1 = .ok () →
      Starts m ⟨fuel, .program program, (m.analyse program).2⟩
  | eval {fuel e} : Starts m ⟨fuel, .eval e, m⟩
  | exec {fuel s} : Starts m ⟨fuel, .exec s, m⟩

/-- The moments of all steps that a machine can do next. -/
def during (host : Host) (m : Machine) : Set Run.Moment :=
  {moment | ∃ first, m.Starts first ∧ Relation.ReflTransGen (Run.Enters host) first moment}

/-- The machine as it would be if no call and no loop had been entered. -/
def outermost (m : Machine) : Machine :=
  { m with environment := Store.globals, frame := ⟨.script, 0⟩, callDepth := 0 }

variable {m : Machine} {host : Host} {moment : Run.Moment}

theorem AtRest.outermost_eq (h : m.AtRest) : m.outermost = m := by
  unfold outermost
  rw [← h.environment, ← h.frame]
  exact congrArg (fun callDepth => { m with callDepth }) h.callDepth.symm

theorem interpret_error {fuel : Nat} {program : List Stmt} {halt : Halt} {n : Machine}
    (accepted : (m.analyse program).1 = .ok ())
    (failed : Run.program host fuel program (m.analyse program).2 = .error halt n) :
    (m.interpret host fuel program).1 = .error halt.diagnostic := by
  unfold interpret
  generalize m.analyse program = analysed at *
  obtain ⟨result, m⟩ := analysed
  obtain rfl : result = .ok () := accepted
  simp only [runAnalysed, perform, failed]

theorem Starts.callDepth (h : m.Starts moment) (rest : m.AtRest) :
    moment.machine.callDepth = 0 := by
  cases h with
  | program _ => exact (rest.analyse _).callDepth
  | eval | exec => exact rest.callDepth

end Machine

namespace Session

open Run

/-- Each expression and each statement, evaluated in any state and ending in any way, leaves the
environment, the frame and the number of calls as it found them. So calls and loops can be counted
up and down, and no counter is zero when it is counted down. In the steps of a session the number of
calls keeps within the limit, and after each step the machine is as if no call and no loop had been
entered. -/
theorem exits_restore {s : Session} (reachable : s.Reachable) (host : Host) (fuel : Nat) :
    (∀ (m : Machine) (e : Expr), Ends (eval host fuel e) m
      (fun _ n => n.surroundings = m.surroundings) fun _ n => n.surroundings = m.surroundings) ∧
    (∀ (m : Machine) (statement : Stmt), Ends (exec host fuel statement) m
      (fun _ n => n.surroundings = m.surroundings) fun _ n => n.surroundings = m.surroundings) ∧
    (∀ (m : Machine) condition body increment,
      let part := execLoop host fuel condition body increment
      inLoop part m = countedLoop part m ∧ Ends part m.insideLoop
        (fun _ n => 0 < n.frame.loopDepth) fun _ n => 0 < n.frame.loopDepth) ∧
    (∀ (m : Machine) kind scope body,
      let part := execAll host fuel body
      inCall kind scope part m = countedCall kind scope part m ∧
        Ends (inScope scope part) (m.insideCall kind)
          (fun _ n => 0 < n.callDepth) fun _ n => 0 < n.callDepth) ∧
    (∀ moment ∈ s.machine.during host, ∀ limit, host.maxDepth = some limit →
      moment.machine.callDepth ≤ limit) ∧
    (∀ program, let n := (s.machine.interpret host fuel program).2; n.outermost = n) ∧
    (∀ e, let n := (s.machine.perform (eval host fuel e)).2; n.outermost = n) ∧
    ∀ statement, let n := (s.machine.perform (exec host fuel statement)).2; n.outermost = n := by
  -- Each part puts back what it changed, also where it fails, so nothing is known of the state.
  have restores := restoresWith host fuel
  have rest := reachable.atRest
  refine ⟨fun m e => ?_, fun m statement => ?_, fun m condition body increment => ?_,
    fun m kind scope body => ?_, fun moment during limit limited => ?_, fun program => ?_,
    fun e => ?_, fun statement => ?_⟩
  · exact (restores.eval e m).imp (fun _ _ h => h.surroundings) fun _ _ h => h.surroundings
  · exact (restores.exec statement m).imp (fun _ _ h => h.surroundings) fun _ _ h => h.surroundings
  · have part := restores.execLoop condition body increment
    refine ⟨congrFun part.inLoop_eq m, (part m.insideLoop).imp ?_ ?_⟩
    · exact fun _ n hn => hn.frame ▸ Nat.succ_pos _
    · exact fun _ n hn => hn.frame ▸ Nat.succ_pos _
  · have part := restores.execAll body
    have inner := part.inScope scope (m.insideCall kind)
    refine ⟨congrFun (part.inCall_eq kind scope) m, inner.imp ?_ ?_⟩
    · exact fun _ n hn => hn.callDepth ▸ Nat.succ_pos _
    · exact fun _ n hn => hn.callDepth ▸ Nat.succ_pos _
  · obtain ⟨first, start, run⟩ := during
    refine withinLimit_of_moments run (fun limit _ => ?_) limit limited
    rw [start.callDepth rest]
    exact Nat.zero_le limit
  · exact (rest.interpret program).outermost_eq
  · exact (rest.perform_eval e).outermost_eq
  · exact (rest.perform_exec statement).outermost_eq

def failingName : Token := ⟨.identifier, "f", none, 1⟩

def failingParen : Token := ⟨.rightParen, ")", none, 1⟩

def failingProgram : List Stmt :=
  [.funDecl ⟨failingName, [], [.expression (.call (.literal .nil 1) failingParen [])]⟩,
    .expression (.call (.var ⟨0, failingName⟩) failingParen [])]

theorem exits_restore_failingProgram : ∃ moment,
    moment ∈ initial.machine.during (Host.standard fun _ => 0) ∧ moment.machine.callDepth = 1 ∧
    moment.machine.callDepth ≤ defaultMaxDepth ∧
    let ran := initial.machine.interpret (Host.standard fun _ => 0) 9 failingProgram
    ran.1 = .error (.runtime ⟨.notCallable, 1⟩) ∧ ran.2.outermost = ran.2 := by
  have accepted : (initial.machine.analyse failingProgram).1 = .ok () := rfl
  have fault : (match program (Host.standard fun _ => 0) 9 failingProgram
      (initial.machine.analyse failingProgram).2 with
    | .error (.fault e) _ => some e
    | _ => none) = some ⟨.notCallable, 1⟩ := by decide +kernel
  have run : ∃ moment, Relation.ReflTransGen (Enters (Host.standard fun _ => 0))
      ⟨9, .program failingProgram, (initial.machine.analyse failingProgram).2⟩ moment ∧
      moment.machine.callDepth = 1 := by
    apply Exists.intro
    constructor
    · apply Relation.ReflTransGen.head (.restOfProgram rfl)
      apply Relation.ReflTransGen.head .firstOfProgram
      apply Relation.ReflTransGen.head (.expression rfl)
      apply Relation.ReflTransGen.head (.call rfl rfl)
      apply Relation.ReflTransGen.head (.function rfl)
      exact .single (.callBody rfl rfl)
    · rfl
  obtain ⟨moment, run, inside⟩ := run
  have during : moment ∈ initial.machine.during (Host.standard fun _ => 0) :=
    ⟨_, .program accepted, run⟩
  have restored := exits_restore reachable_initial (Host.standard fun _ => 0) 9
  refine ⟨moment, during, inside, restored.2.2.2.2.1 moment during _ rfl, ?_,
    restored.2.2.2.2.2.1 failingProgram⟩
  split at fault
  · rename_i failed
    cases fault
    exact Machine.interpret_error accepted failed
  · cases fault

end Session

end ClassScript
