import ClassScript.Proofs.Run.Active
import ClassScript.Proofs.Run.Bodies

namespace ClassScript

open Run

namespace Run

variable {host : Host} {p first : Moment} {n : Machine} {signal : Signal} {code : List Stmt}
  {count : Nat} {value : Value} {line : Nat}

theorem Moment.Sends.admits (h : p.Sends host signal n) : p.machine.frame.Admits signal := by
  obtain ⟨fuel, task, m⟩ := p
  have emits := emitsWith host fuel
  cases task with
  | exec s => exact (ends_ok_iff h).mp (emits.exec s m)
  | execAll ss => exact (ends_ok_iff h).mp (emits.execAll ss m)
  | execLoop condition body increment =>
      exact ((ends_ok_iff h).mp (emits.execLoop condition body increment m)).admits
  | _ => exact h.elim

theorem frame_of_program {ss : List Stmt} (run : Relation.ReflTransGen (Enters host) first p)
    (is : p.task = .program ss) : p.machine.frame = first.machine.frame := by
  induction run generalizing ss with
  | refl => rfl
  | tail _ enters ih =>
      cases enters with
      | restOfProgram run => exact (returns_exec run).frame.trans (ih rfl)
      | _ => cases is

theorem Call.start_eq {c c' : Call host first} (h : c.During p) (h' : c'.During p) :
    c.start = c'.start := by
  obtain ⟨_, -, owned⟩ := h.owned
  obtain ⟨_, -, owned'⟩ := h'.owned
  exact start_eq_of_owns (owned 0 (Nat.zero_le _) _ rfl) (owned' 0 (Nat.zero_le _) _ rfl)

theorem exists_call_of_return (run : Relation.ReflTransGen (Enters host) first p)
    (outside : first.machine.frame = ⟨.script, 0⟩) (h : p.Sends host (.return value line) n) :
    ∃ c : Call host first, c.During p := by
  obtain ⟨kind, code, count, inBody⟩ := exists_inBody run
  cases inBody with
  | outermost inside =>
      refine absurd ?_ h.admits
      rw [inside.frame, outside]
  | call c inside => exact ⟨c, inside.during⟩

end Run

namespace Machine

variable {m : Machine} {first : Moment} {host : Host} {e : RuntimeError} {printed : Array String}

theorem Starts.frame (h : m.Starts first) (rest : m.AtRest) :
    first.machine.frame = ⟨.script, 0⟩ := by
  cases h with
  | program _ => exact (rest.analyse _).frame
  | eval | exec => exact rest.frame

theorem Starts.interpret_error (h : m.Starts first)
    (failed : first.Fails host (.fault e) printed) {program : List Stmt}
    (is : first.task = .program program) :
    (m.interpret host first.fuel program).1 = .error (.runtime e) := by
  cases h with
  | program accepted =>
      cases is
      obtain ⟨n, run, -⟩ := failed
      exact Machine.interpret_error accepted run
  | eval | exec => cases is

end Machine

namespace Session

variable {s : Session} {host : Host}

theorem execute_normal (rest : s.machine.AtRest) (statement : Stmt) :
    (s.execute host statement).1 = .ok .normal ∨ ∃ d, (s.execute host statement).1 = .error d := by
  have admitted := (emitsWith host ampleFuel).exec statement s.machine
  unfold Ends at admitted
  unfold execute Machine.perform
  cases ended : exec host ampleFuel statement s.machine with
  | ok signal n =>
      rw [ended] at admitted
      obtain rfl := admitted.eq_normal rest.frame
      exact .inl rfl
  | error e n => exact .inr ⟨e.diagnostic, rfl⟩

theorem executeAll_normal (rest : s.machine.AtRest) (statements : List Stmt) :
    ∀ result ∈ (s.executeAll host statements).1,
      result = .ok .normal ∨ ∃ d, result = .error d := by
  induction statements generalizing s with
  | nil => exact fun _ mem => nomatch mem
  | cons statement others ih =>
      intro result mem
      rcases List.mem_cons.mp mem with rfl | mem
      · exact execute_normal rest statement
      · exact ih (rest.perform_exec statement) result mem

/-- A statement ends with an exit from a loop only if its frame counts a loop, and with a return
only in a body; a loop lets only a return through, and a body only that. So the statements of a
program, and those that are executed on their own, end normally or with an error.

At each moment of a step of a session the frame says which kind of body runs and how many of the
loops of its text are around. A return ends exactly the innermost active call, with its value. A
`break` or `continue` without a loop around it in that body, and a return outside of all calls, is
what the step is reported for, on the line of its keyword. -/
theorem signals_stay (reachable : s.Reachable) (host : Host) (fuel : Nat) :
    (∀ (m : Machine) (statement : Stmt), Ends (exec host fuel statement) m
      (fun signal _ => m.frame.Admits signal) fun _ _ => True) ∧
    (∀ (m : Machine) condition body increment,
      Ends (exec host fuel (.loop condition body increment)) m
        (fun signal _ => m.frame.LoopAdmits signal) fun _ _ => True) ∧
    (∀ (m : Machine) kind scope body, Ends (inCall kind scope (execAll host fuel body)) m
      (fun signal _ => Frame.LoopAdmits ⟨kind, 0⟩ signal) fun _ _ => True) ∧
    (∀ statements, ∀ result ∈ (s.executeAll host statements).1,
      result = .ok .normal ∨ ∃ d, result = .error d) ∧
    ∀ first, s.machine.Starts first → ∀ p, Relation.ReflTransGen (Enters host) first p →
      (∀ statement rest, p.task = .program (statement :: rest) →
        Ends (exec host p.fuel statement) p.machine (fun signal _ => signal = .normal)
          fun _ _ => True) ∧
      (∃ kind code count, InBody host first kind code count p) ∧
      (∀ kind code count, InBody host first kind code count p →
        p.machine.frame = ⟨kind, count⟩ ∧ p.task.StandsIn code count ∧
        ∀ left statement n e, p = ⟨left + 1, .exec statement, p.machine⟩ →
          Run.Begins host statement p.machine n → statement.misplaced? kind count = some e →
          first.Fails host (.fault e) p.machine.output ∧
          ∀ program, first.task = .program program →
            (s.machine.interpret host first.fuel program).1 = .error (.runtime e)) ∧
      ∀ value line n, p.Sends host (.return value line) n →
        ∃ c : Call host first, c.During p ∧
          (∀ c' : Call host first, c'.During p → c.start = c'.start) ∧
          (∀ q, c.During q → Relation.ReflTransGen (Stays host) q p →
            q.Sends host (.return value line) (n.within q.machine.surroundings)) ∧
          c.result =
            callResult c.closure c.line value (n.within c.start.machine.surroundings) := by
  have rest := reachable.atRest
  refine ⟨fun m statement => (emitsWith host fuel).exec statement m,
    fun m condition body increment => emits_loop host fuel condition body increment m,
    fun m kind scope body => emits_body host fuel kind scope body,
    executeAll_normal rest, fun first starts p run => ⟨fun statement others is => ?_,
      exists_inBody run, fun kind code count inBody => ?_, fun value line n sends => ?_⟩⟩
  · have frame := (frame_of_program run is).trans (starts.frame rest)
    apply ((emitsWith host p.fuel).exec statement p.machine).imp
    · exact fun _ _ admitted => admitted.eq_normal frame
    · exact fun _ _ _ => trivial
  · have frame := inBody.frame (congrArg Frame.loopDepth (starts.frame rest))
    refine ⟨frame, inBody.standsIn, fun left statement n e is begins misplaced => ?_⟩
    -- What a part fails with, the run fails with.
    have failed : p.Fails host (.fault e) p.machine.output := by
      rw [is]
      apply fails_misplaced begins
      rw [frame]
      exact misplaced
    have failed := fails_of_moments run failed
    exact ⟨failed, fun program isProgram => starts.interpret_error failed isProgram⟩
  · obtain ⟨c, during⟩ := exists_call_of_return run (starts.frame rest) sends
    exact ⟨c, during, fun c' during' => Call.start_eq during during', fun q inCall rest =>
      sends_of_during rest inCall.notProgram sends, c.consumes during sends⟩

def strayName : Token := ⟨.identifier, "f", none, 1⟩

def strayBreak : Token := ⟨.kwBreak, "break", none, 2⟩

def strayParen : Token := ⟨.rightParen, ")", none, 3⟩

def strayProgram : List Stmt :=
  [.funDecl ⟨strayName, [], [.break strayBreak]⟩,
    .loop (.literal (.bool true) 3) (.expression (.call (.var ⟨0, strayName⟩) strayParen [])) none]

theorem signals_stay_strayProgram : ∃ p,
    p ∈ initial.machine.during (Host.standard fun _ => 0) ∧ p.task = .exec (.break strayBreak) ∧
    p.machine.frame = ⟨.function, 0⟩ ∧
    (initial.machine.interpret (Host.standard fun _ => 0) 9 strayProgram).1 =
      .error (.runtime ⟨.outsideLoop .break, 2⟩) := by
  have accepted : (initial.machine.analyse strayProgram).1 = .ok () := rfl
  -- Nothing in the program refers to a scope, so that no distances are recorded.
  have unknowing : (initial.machine.analyse strayProgram).2 = initial.machine := rfl
  have starts : initial.machine.Starts ⟨9, .program strayProgram, initial.machine⟩ :=
    unknowing ▸ .program accepted
  have run : ∃ m n, Relation.ReflTransGen (Enters (Host.standard fun _ => 0))
      ⟨9, .program strayProgram, initial.machine⟩ ⟨1 + 1, .exec (.break strayBreak), m⟩ ∧
      m.frame = ⟨.function, 0⟩ ∧
      Run.Begins (Host.standard fun _ => 0) (.break strayBreak) m n := by
    apply Exists.intro
    apply Exists.intro
    refine ⟨?_, ?_, ?_⟩
    · apply Relation.ReflTransGen.head (.restOfProgram rfl)
      apply Relation.ReflTransGen.head .firstOfProgram
      apply Relation.ReflTransGen.head (.loop rfl)
      apply Relation.ReflTransGen.head (.loopBody rfl rfl)
      apply Relation.ReflTransGen.head (.expression rfl)
      apply Relation.ReflTransGen.head (.call rfl rfl)
      apply Relation.ReflTransGen.head (.function rfl)
      apply Relation.ReflTransGen.head (.callBody rfl rfl)
      exact .single .firstStmt
    · rfl
    · rfl
  obtain ⟨m, n, run, frame, begins⟩ := run
  obtain ⟨-, -, -, -, all⟩ := signals_stay reachable_initial (Host.standard fun _ => 0) 9
  obtain ⟨-, ⟨kind, code, count, inBody⟩, placed, -⟩ := all _ starts _ run
  obtain ⟨same, -, reported⟩ := placed kind code count inBody
  cases frame.symm.trans same
  exact ⟨_, ⟨_, starts, run⟩, rfl, frame, (reported 1 _ n _ rfl begins rfl).2 _ rfl⟩

end Session

end ClassScript
