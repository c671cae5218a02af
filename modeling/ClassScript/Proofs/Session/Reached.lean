import ClassScript.Proofs.Run.Sound
import ClassScript.Proofs.Token.Spelled

/-!
# The states between the steps of a session

`Session.Reached` lists what can happen to a session: programs that are read, analysed and run,
expressions and statements that are evaluated without an analysis, and everything of this kind that
fails. Between two steps the machine is at rest: whatever happened in a step, the next one starts in
the global scope, outside of all calls and loops, with a sound store.
-/

namespace ClassScript

namespace Machine

variable {m n : Machine} {host : Host} {fuel : Nat}

structure AtRest (m : Machine) : Prop where
  sound : m.Sound
  environment : m.environment = Store.globals
  frame : m.frame = ⟨.script, 0⟩
  callDepth : m.callDepth = 0

theorem sound_initial : Store.initial.Sound where
  globalScope := ⟨.empty, rfl⟩
  scopes_nodup := List.nodup_nil
  instances_nodup := List.nodup_nil
  scope_cell a ha := by simp [Store.initial] at ha
  instance_cell a ha := by simp [Store.initial] at ha
  cell_listed a c ha hc := by
    rcases ha with (rfl | ha) | ha
    · obtain rfl : Cell.scope none .empty = c := by simpa [Store.initial, Store.globals] using hc
      exact ⟨fun p hp => (Option.not_mem_none p hp).elim, Store.bindingsListed_empty _⟩
    · simp [Store.initial] at ha
    · simp [Store.initial] at ha

theorem atRest_initial : initial.AtRest where
  sound := ⟨sound_initial.define trivial, .inl rfl⟩
  environment := rfl
  frame := rfl
  callDepth := rfl

theorem AtRest.of_passes (h : m.AtRest) (hn : m.Passes n) : n.AtRest where
  sound := hn.sound
  environment := hn.environment.trans h.environment
  frame := hn.frame.trans h.frame
  callDepth := hn.callDepth.trans h.callDepth

theorem of_perform {α : Type} {part : Run α} {P : Machine → Prop}
    (h : Ends part m (fun _ n => P n) fun _ n => P n) : P (m.perform part).2 := by
  unfold Ends at h
  unfold perform
  generalize part m = result at *
  cases result with
  | ok a n => exact h
  | error e n => exact h

theorem passes_perform {α : Type} {part : Run α} {listed : Store → α → Prop}
    (h : Run.PassesWith part m listed) : m.Passes (m.perform part).2 :=
  of_perform (h.imp (fun _ _ hn => hn.1) fun _ _ hn => hn)

theorem AtRest.perform_eval (h : m.AtRest) (e : Expr) :
    (m.perform (Run.eval host fuel e)).2.AtRest :=
  h.of_passes (passes_perform ((Run.soundWith host fuel).eval e h.sound).passes)

theorem AtRest.perform_exec (h : m.AtRest) (s : Stmt) :
    (m.perform (Run.exec host fuel s)).2.AtRest :=
  h.of_passes (passes_perform ((Run.soundWith host fuel).exec s h.sound))

theorem analyse_eq (m : Machine) (program : List Stmt) :
    ∃ distances, (m.analyse program).2 = { m with distances } := by
  unfold analyse
  split
  · exact ⟨_, rfl⟩
  · exact ⟨_, rfl⟩

theorem AtRest.analyse (h : m.AtRest) (program : List Stmt) : (m.analyse program).2.AtRest := by
  obtain ⟨distances, eq⟩ := analyse_eq m program
  rw [eq]
  exact ⟨⟨h.sound.store, h.sound.environment⟩, h.environment, h.frame, h.callDepth⟩

/-- The state that a program which was analysed ends in, before the last collection. -/
abbrev afterProgram (m : Machine) (host : Host) (fuel : Nat) (program : List Stmt) : Machine :=
  (m.perform (Run.program host fuel program)).2

theorem AtRest.afterProgram (h : m.AtRest) (host : Host) (fuel : Nat) (program : List Stmt) :
    (m.afterProgram host fuel program).AtRest :=
  h.of_passes (passes_perform (Run.passes_program host fuel program h.sound))

theorem AtRest.collect (h : m.AtRest) :
    ({ m with store := m.store.collect m.environment } : Machine).AtRest where
  sound := ⟨h.sound.store.collect h.sound.environment,
    (h.sound.store.scopeListed_collect h.sound.environment).mpr
      ⟨h.sound.environment, h.sound.store.marked_root h.sound.environment⟩⟩
  environment := h.environment
  frame := h.frame
  callDepth := h.callDepth

theorem interpret_eq_rejected {program : List Stmt} {e : BindingError}
    (h : (m.analyse program).1 = .error e) :
    m.interpret host fuel program = (.error (.binding e), (m.analyse program).2) := by
  unfold interpret
  generalize m.analyse program = analysed at *
  obtain ⟨result, m⟩ := analysed
  obtain rfl : result = .error e := h
  rfl

theorem interpret_rejected {program : List Stmt} {e : BindingError}
    (h : (m.analyse program).1 = .error e) :
    (m.interpret host fuel program).2 = (m.analyse program).2 := by rw [interpret_eq_rejected h]

theorem interpret_accepted {program : List Stmt} (h : (m.analyse program).1 = .ok ()) :
    (m.interpret host fuel program).2 =
      let n := (m.analyse program).2.afterProgram host fuel program
      { n with store := n.store.collect n.environment } := by
  unfold interpret
  split
  · rename_i eq
    rw [eq] at h
    cases h
  · rename_i n eq
    rw [eq]
    dsimp only [runAnalysed]
    split <;> rename_i run <;> simp only [Prod.mk.injEq] at run <;> exact run.2.symm

def concluded : EStateM.Result Halt Machine Unit → Except Diagnostic Unit × Machine
  | .ok _ n => (.ok (), { n with store := n.store.collect n.environment })
  | .error e n => (.error e.diagnostic, { n with store := n.store.collect n.environment })

theorem interpret_eq_concluded {program : List Stmt} (h : (m.analyse program).1 = .ok ()) :
    m.interpret host fuel program =
      concluded (Run.program host fuel program (m.analyse program).2) := by
  unfold interpret
  generalize m.analyse program = analysed at *
  obtain ⟨result, m⟩ := analysed
  obtain rfl : result = .ok () := h
  simp only [runAnalysed, perform]
  cases Run.program host fuel program m <;> rfl

theorem AtRest.interpret (h : m.AtRest) (program : List Stmt) :
    (m.interpret host fuel program).2.AtRest := by
  cases accepted : (m.analyse program).1 with
  | error e =>
      rw [interpret_rejected accepted]
      exact h.analyse program
  | ok =>
      rw [interpret_accepted accepted]
      exact ((h.analyse program).afterProgram host fuel program).collect

end Machine

namespace Session

/-- The sessions that come about by any steps, with the programs that were read so far. A program
can be run any number of times, and so can each of its statements without an analysis. -/
inductive Reached : (programs : List (List Stmt)) → Session → Prop
  | initial : Reached [] .initial
  | counters {programs s} : Reached programs s → Reached programs s.nextStep
  | unread {programs s} (tokens : List Token) : Reached programs s → (∀ t ∈ tokens, t.Spelled) →
      Reached programs { s with nextId := (parseProgram s.nextId tokens).nextId }
  | unreadExpr {programs s} (tokens : List Token) : Reached programs s →
      (∀ t ∈ tokens, t.Spelled) →
      Reached programs { s with nextId := (parseExpression s.nextId tokens).nextId }
  | read {programs s program} (tokens : List Token) : Reached programs s →
      (∀ t ∈ tokens, t.Spelled) → (parseProgram s.nextId tokens).result = .ok program →
      Reached (program :: programs) { s with nextId := (parseProgram s.nextId tokens).nextId }
  | readExpr {programs s e} (tokens : List Token) : Reached programs s →
      (∀ t ∈ tokens, t.Spelled) → (parseExpression s.nextId tokens).result = .ok e →
      Reached ([.expression e] :: programs)
        { s with nextId := (parseExpression s.nextId tokens).nextId }
  | interpreted {programs s program} (host : Host) (fuel : Nat) : Reached programs s →
      program ∈ programs →
      Reached programs { s with machine := (s.machine.interpret host fuel program).2 }
  | evaluated {programs s program e} (host : Host) (fuel : Nat) : Reached programs s →
      program ∈ programs → .expression e ∈ program →
      Reached programs { s with machine := (s.machine.perform (Run.eval host fuel e)).2 }
  | executed {programs s program statement} (host : Host) (fuel : Nat) : Reached programs s →
      program ∈ programs → statement ∈ program →
      Reached programs { s with machine := (s.machine.perform (Run.exec host fuel statement)).2 }

def Reachable (s : Session) : Prop := ∃ programs, Reached programs s

theorem Reached.atRest {programs : List (List Stmt)} {s : Session} (h : Reached programs s) :
    s.machine.AtRest := by
  induction h with
  | initial => exact Machine.atRest_initial
  | counters _ ih =>
      exact ⟨⟨ih.sound.store, ih.sound.environment⟩, ih.environment, ih.frame, ih.callDepth⟩
  | unread _ _ _ ih => exact ih
  | unreadExpr _ _ _ ih => exact ih
  | read _ _ _ _ ih => exact ih
  | readExpr _ _ _ _ ih => exact ih
  | interpreted _ _ _ _ ih => exact ih.interpret _
  | evaluated _ _ _ _ _ ih => exact ih.perform_eval _
  | executed _ _ _ _ _ ih => exact ih.perform_exec _

theorem Reachable.atRest {s : Session} (h : s.Reachable) : s.machine.AtRest := by
  obtain ⟨_, h⟩ := h
  exact h.atRest

theorem parse_ok {s : Session} {source : String} {program : List Stmt}
    (h : (s.parse source).1 = .ok program) :
    ∃ tokens, lex source = .ok tokens ∧ (parseProgram s.nextId tokens).result = .ok program ∧
      s.parse source =
        (.ok program, { s with nextId := (parseProgram s.nextId tokens).nextId }) := by
  unfold parse at *
  cases read : lex source with
  | error e =>
      rw [read] at h
      cases h
  | ok tokens =>
      rw [read] at h
      refine ⟨tokens, rfl, ?_, ?_⟩
      · cases parsed : (parseProgram s.nextId tokens).result with
        | error es =>
            simp only [parsed] at h
            cases h
        | ok p =>
            simp only [parsed] at h
            cases h
            rfl
      · exact Prod.ext h rfl

theorem reachable_initial : Session.initial.Reachable := ⟨[], .initial⟩

theorem Reachable.nextStep {s : Session} (h : s.Reachable) : s.nextStep.Reachable := by
  obtain ⟨programs, h⟩ := h
  exact ⟨programs, .counters h⟩

theorem run_cases {P : Session → Prop} {s : Session} (host : Host) (source : String)
    (nothing : P s)
    (unread : ∀ tokens, (∀ t ∈ tokens, Token.Spelled t) →
      P { s with nextId := (parseProgram s.nextId tokens).nextId })
    (ran : ∀ tokens program, (∀ t ∈ tokens, Token.Spelled t) →
      (parseProgram s.nextId tokens).result = .ok program →
      P ⟨(s.machine.interpret host ampleFuel program).2, (parseProgram s.nextId tokens).nextId⟩) :
    P (s.run host source).2 := by
  unfold Session.run Session.parse
  cases scanned : lex source with
  | error e => exact nothing
  | ok tokens =>
      have spelled := spelled_lex scanned
      cases parsed : (parseProgram s.nextId tokens).result with
      | error es =>
          simp only [parsed, Except.mapError]
          exact unread tokens spelled
      | ok program =>
          have after := ran tokens program spelled parsed
          simp only [parsed, Except.mapError]
          split <;> rename_i eq <;> rw [eq] at after <;> exact after

theorem Reachable.run {s : Session} (h : s.Reachable) (host : Host) (source : String) :
    (s.run host source).2.Reachable := by
  obtain ⟨programs, h⟩ := h
  apply run_cases host source
  · exact ⟨programs, h⟩
  · exact fun tokens spelled => ⟨programs, .unread tokens h spelled⟩
  · exact fun tokens program spelled parsed =>
      ⟨_, .interpreted host ampleFuel (.read tokens h spelled parsed) List.mem_cons_self⟩

theorem Reachable.evaluateSource {s : Session} (h : s.Reachable) (host : Host) (source : String) :
    (s.evaluateSource host source).2.Reachable := by
  obtain ⟨programs, h⟩ := h
  unfold Session.evaluateSource Session.parseExpr
  cases scanned : lex source with
  | error e => exact ⟨programs, h⟩
  | ok tokens =>
      have spelled := spelled_lex scanned
      cases parsed : (parseExpression s.nextId tokens).result with
      | error e =>
          simp only [parsed, Except.mapError]
          exact ⟨programs, .unreadExpr tokens h spelled⟩
      | ok e =>
          simp only [parsed, Except.mapError]
          exact ⟨_, .evaluated host ampleFuel (.readExpr tokens h spelled parsed)
            List.mem_cons_self List.mem_cons_self⟩

theorem Reached.executeAll {programs : List (List Stmt)} {s : Session} {program : List Stmt}
    (h : Reached programs s) (mem : program ∈ programs) (host : Host) {statements : List Stmt}
    (sub : statements ⊆ program) : Reached programs (s.executeAll host statements).2 := by
  induction statements generalizing s with
  | nil => exact h
  | cons statement rest ih =>
      have first := Reached.executed host ampleFuel h mem (sub List.mem_cons_self)
      exact ih first fun other inRest => sub (List.mem_cons_of_mem _ inRest)

end Session

end ClassScript
