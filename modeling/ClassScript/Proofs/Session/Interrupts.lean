import ClassScript.Proofs.Run.Interrupted
import ClassScript.Proofs.Session.CallLimit

namespace ClassScript

open Run

/-- What a hook does to a run that interrupts when it is asked more than so many times. The runs are
given for each amount of fuel: from this moment on, without the hook and with it. -/
structure CutAt {ε α : Type} (report : RuntimeError → ε) (host : Host) (limit : Nat)
    (first : Nat → Moment) (free cut : Nat → Except ε α × Machine) : Prop where
  counted : ∀ fuel k s p, Started host.uninterrupted (first fuel) k s p →
    (first fuel).machine.started ≤ k ∧ k < (free fuel).2.started
  /-- A run that starts no more statements is the same with the hook. -/
  within : ∀ fuel, (free fuel).2.started ≤ (first fuel).machine.started + limit →
    cut fuel = free fuel
  /-- A run that starts more statements is interrupted at the first one beyond. -/
  beyond : ∀ fuel, (first fuel).machine.started + limit < (free fuel).2.started →
    ∃ s p, Started host.uninterrupted (first fuel) ((first fuel).machine.started + limit) s p ∧
      (∀ s' p', Started host.uninterrupted (first fuel) ((first fuel).machine.started + limit) s' p' →
        s' = s ∧ p' = p) ∧
      ∀ more ≥ fuel, (cut more).1 = .error (report ⟨.interrupted, s.line⟩) ∧
        (cut more).2.started = (first fuel).machine.started + limit + 1 ∧
        (cut more).2.output = p.machine.output

/-- How the end of a run is reported keeps its counts, its output and its fault. -/
structure Reports {ε α : Type} (report : RuntimeError → ε)
    (close : EStateM.Result Halt Machine α → Except ε α × Machine) : Prop where
  started : ∀ x, (close x).2.started = (leftIn x).started
  output : ∀ x, (close x).2.output = (leftIn x).output
  fault : ∀ e n, (close (.error (.fault e) n)).1 = .error (report e)

theorem cutAt_of_cuts {ε α : Type} {report : RuntimeError → ε} {host : Host} {limit : Nat}
    {m : Machine} {first : Nat → Moment} (part : Host → Nat → Run α)
    {close : EStateM.Result Halt Machine α → Except ε α × Machine}
    (reports : Reports report close) (starts : ∀ fuel, (first fuel).machine = m)
    (is : ∀ h fuel, (first fuel).part h = discard (part h fuel))
    (cuts : ∀ k fuel, Cuts k (part (host.interruptedBeyond k) fuel) (part host.uninterrupted fuel))
    (continues : ∀ {h fuel more}, fuel ≤ more → Continues (part h fuel) (part h more)) :
    CutAt report host limit first (fun fuel => close (part host.uninterrupted fuel m))
      fun fuel => close (part (host.interruptedBeyond (m.started + limit)) fuel m) where
  counted fuel k s p started := by
    have crosses := started.crosses
    unfold Crosses at crosses
    rw [is, leftIn_discard, starts] at crosses
    rw [reports.started, starts]
    exact crosses
  within fuel within := by
    rw [reports.started, starts] at within
    exact congrArg close (((cuts _ fuel).ends m (Nat.le_add_right _ _)).eq within)
  beyond fuel beyond := by
    rw [reports.started, starts] at beyond
    have crosses : (first fuel).machine.started + limit <
        (leftIn ((first fuel).part host.uninterrupted (first fuel).machine)).started := by
      rw [is, leftIn_discard, starts]
      exact beyond
    obtain ⟨s, p, n, started, failed, count, output⟩ :=
      exists_interruption (Nat.le_add_right _ limit) crosses
    refine ⟨s, p, started, fun s' p' started' => started.unique started', fun more le => ?_⟩
    rw [starts, is] at failed
    have ended := (continues le).fault (error_of_discard failed)
    rw [starts] at count ⊢
    rw [ended, reports.started, reports.output]
    exact ⟨reports.fault _ n, count, output⟩

namespace Machine

variable {m : Machine}

def performed {α : Type} : EStateM.Result Halt Machine α → Except Halt α × Machine
  | .ok a n => (.ok a, n)
  | .error e n => (.error e, n)

theorem reports_performed {α : Type} : Reports Halt.fault (@performed α) where
  started x := by cases x <;> rfl
  output x := by cases x <;> rfl
  fault _ _ := rfl

theorem reports_concluded : Reports Diagnostic.runtime concluded where
  started x := by cases x <;> rfl
  output x := by cases x <;> rfl
  fault _ _ := rfl

/-- A hook that interrupts when it is asked more than `limit` times does nothing but to cut runs of
programs, statements and expressions, from any state. The statements of a run without the hook are
numbered by the count at which they start. A run that starts no more than `limit` statements is the
same with the hook, which is asked as often as statements are started. Any other run is interrupted
at the next statement, on its line, when the hook was asked once more, and has printed what the run
without the hook has printed at the start of that statement. -/
theorem interrupt_cuts (m : Machine) (host : Host) (limit : Nat) :
    let free := host.uninterrupted
    let hooked := host.interruptedBeyond (m.started + limit)
    (∀ program, (m.analyse program).1 = .ok () →
      CutAt .runtime host limit (fun fuel => m.firstMoment fuel program)
        (fun fuel => m.interpret free fuel program) fun fuel => m.interpret hooked fuel program) ∧
    (∀ program fuel, (m.analyse program).1 ≠ .ok () →
      m.interpret hooked fuel program = m.interpret free fuel program) ∧
    (∀ s, CutAt .fault host limit (fun fuel => ⟨fuel, .exec s, m⟩)
      (fun fuel => m.perform (exec free fuel s)) fun fuel => m.perform (exec hooked fuel s)) ∧
    ∀ e, CutAt .fault host limit (fun fuel => ⟨fuel, .eval e, m⟩)
      (fun fuel => m.perform (eval free fuel e)) fun fuel => m.perform (eval hooked fuel e) := by
  intro free hooked
  refine ⟨fun program accepted => ?_, fun program fuel rejected => ?_, fun s => ?_, fun e => ?_⟩
  · have same : hooked = host.interruptedBeyond ((m.analyse program).2.started + limit) := by
      obtain ⟨distances, eq⟩ := analyse_eq m program
      rw [eq]
    have ended (h : Host) : (fun fuel => m.interpret h fuel program) = fun fuel =>
        concluded (Run.program h fuel program (m.analyse program).2) :=
      funext fun fuel => interpret_eq_concluded accepted
    rw [ended free, ended hooked, same]
    refine cutAt_of_cuts (fun h fuel => Run.program h fuel program) reports_concluded
      (fun _ => rfl) (fun h fuel => ?_) (fun k fuel => ?_) ?_
    · exact (discard_eq (Run.program h fuel program)).trans (bind_pure _) |>.symm
    · exact (lockstep_cuts host k).program (cutsWith host k fuel) program
    · exact fun le => continues_program _ le program
  · cases analysed : (m.analyse program).1 with
    | ok => exact absurd analysed rejected
    | error e => exact (interpret_eq_rejected analysed).trans (interpret_eq_rejected analysed).symm
  · exact cutAt_of_cuts (fun h fuel => exec h fuel s) reports_performed (fun _ => rfl)
      (fun _ _ => rfl) (fun k fuel => (cutsWith host k fuel).exec s)
      fun le => (continuesWith _ le).exec s
  · exact cutAt_of_cuts (fun h fuel => eval h fuel e) reports_performed (fun _ => rfl)
      (fun _ _ => rfl) (fun k fuel => (cutsWith host k fuel).eval e)
      fun le => (continuesWith _ le).eval e

def countingProgram : List Stmt :=
  [.block [.print (.literal (.bool true) 2), .print (.literal (.bool false) 3)] 1]

theorem interrupt_cuts_countingProgram :
    let host := Host.standard fun _ => 0
    let hooked := initial.interpret (host.interruptedBeyond 2) 5 countingProgram
    (initial.analyse countingProgram).1 = .ok () ∧
    2 < (initial.interpret host.uninterrupted 5 countingProgram).2.started ∧
    hooked.1 = .error (.runtime ⟨.interrupted, 3⟩) ∧ hooked.2.started = 3 ∧
    hooked.2.output = #["true"] := by
  intro host hooked
  have accepted : (initial.analyse countingProgram).1 = .ok () := rfl
  have second : ∃ m, Relation.ReflTransGen (Enters host.uninterrupted)
      (initial.firstMoment 5 countingProgram)
      ⟨1 + 1, .exec (.print (.literal (.bool false) 3)), m⟩ ∧
      m.started = 2 ∧ m.output = #["true"] := by
    apply Exists.intro
    refine ⟨?_, ?_, ?_⟩
    · apply Relation.ReflTransGen.head .firstOfProgram
      apply Relation.ReflTransGen.head (.block rfl rfl)
      apply Relation.ReflTransGen.head (.otherStmts rfl)
      exact .single .firstStmt
    · rfl
    · rfl
  obtain ⟨m, run, count, output⟩ := second
  have started : Started host.uninterrupted (initial.firstMoment 5 countingProgram) 2
      (.print (.literal (.bool false) 3)) ⟨1 + 1, _, m⟩ := ⟨run, ⟨1, rfl⟩, count⟩
  have cut := (interrupt_cuts initial host 2).1 countingProgram accepted
  have more := (cut.counted 5 _ _ _ started).2
  obtain ⟨s, q, -, sole, ends⟩ := cut.beyond 5 more
  obtain ⟨rfl, rfl⟩ := sole _ _ started
  obtain ⟨fault, count, printed⟩ := ends 5 (Nat.le_refl 5)
  exact ⟨accepted, more, fault, count, printed.trans output⟩

end Machine

end ClassScript
