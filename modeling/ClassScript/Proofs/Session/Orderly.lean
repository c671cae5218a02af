import ClassScript.Proofs.Run.Evolves
import ClassScript.Proofs.Session.Exits

namespace ClassScript

open Store

namespace Run

variable {host : Host} {fuel line : Nat} {m n o : Machine} {p q first : Moment}

def Task.values : Task → List Value
  | .call f args _ => f :: args
  | .invoke _ args _ => args
  | .assign _ v => [v]
  | _ => []

def Task.home? : Task → Option Address
  | .invoke closure _ _ => some closure.scope
  | _ => none

structure Moment.Orderly (p : Moment) : Prop extends p.machine.Orderly where
  values : ∀ v ∈ p.task.values, p.machine.store.Admits v
  home : ∀ scope ∈ p.task.home?, p.machine.store.ScopeListed scope

theorem Moment.Orderly.of_machine {task : Task} (h : m.Orderly) (values : task.values = [])
    (home : task.home? = none) : Moment.Orderly ⟨fuel, task, m⟩ where
  toOrderly := h
  values v mem := by simp [values] at mem
  home scope mem := by simp [home] at mem

theorem orderly_initializer {object : ClassObject} {init closure : Closure} {args : List Value}
    {id : Address} (created : newInstance m = .ok id n)
    (found : object.method? ClassObject.initializerName = some init)
    (bound : bindMethod init (.instance id object) n = .ok closure o)
    (h : Moment.Orderly ⟨fuel + 1, .call (.class object) args line, m⟩) :
    Moment.Orderly ⟨fuel, .invoke closure args line, o⟩ := by
  obtain ⟨h', keeps, -, receiver⟩ := orderly_of_ok h.toOrderly created
    (keeps_newInstance h.sound) (evolves_newInstance (h.values _ List.mem_cons_self))
  have inScope := receiver.listed.2 _ (method?_scope_mem found)
  obtain ⟨h'', keeps', listed, -⟩ := orderly_of_ok h' bound
    (keeps_bindMethod h'.sound inScope receiver.listed)
    (evolves_bindMethod h'.prepared inScope receiver.made)
  refine ⟨h'', fun v mem => ?_, fun scope mem => ?_⟩
  · exact ((h.values v (List.mem_cons_of_mem _ mem)).mono keeps).mono keeps'
  · cases mem
    exact listed

theorem orderly_callBody {closure : Closure} {args : List Value} {scope : Address} {frame : Frame}
    (depth : checkDepth host line m = .ok () n) (created : callScope closure args n = .ok scope o)
    (h : Moment.Orderly ⟨fuel + 1, .invoke closure args line, m⟩) :
    Machine.Orderly { o with environment := scope, frame, callDepth := o.callDepth + 1 } := by
  obtain ⟨rfl, -⟩ := checkDepth_ok depth
  have home := h.home closure.scope rfl
  obtain ⟨h', -, listed, -⟩ := orderly_of_ok h.toOrderly created
    (keeps_callScope h.sound home fun v mem => (h.values v mem).listed)
    (evolves_callScope h.toOrderly.prepared home fun v mem => (h.values v mem).made)
  exact ⟨⟨h'.sound.store, listed⟩, h'.ordered⟩

theorem orderly_of_enters (enters : Enters host p q) (h : p.Orderly) : q.Orderly := by
  cases enters with
  | grouping | var | assigned | logicalLeft | binaryLeft | unary | callee | get | setObject | this
  | super | firstExpr | firstStmt | firstOfProgram | loopCondition =>
      exact .of_machine h.toOrderly rfl rfl
  | assign value =>
      obtain ⟨h', -, admits⟩ := orderly_eval h.toOrderly value
      exact ⟨h', fun v mem => List.mem_singleton.mp mem ▸ admits, fun _ mem => by cases mem⟩
  | logicalRight run | binaryRight run | arguments run | setValue run | otherExprs run =>
      exact .of_machine (orderly_eval h.toOrderly run).1 rfl rfl
  | call callee arguments =>
      obtain ⟨h', -, admits⟩ := orderly_eval h.toOrderly callee
      obtain ⟨h'', keeps, all⟩ := orderly_evalAll h' arguments
      refine ⟨h'', fun v mem => ?_, fun _ mem => by cases mem⟩
      rcases List.mem_cons.mp mem with rfl | mem
      · exact admits.mono keeps
      · exact all v mem
  | function | bound =>
      refine ⟨h.toOrderly, fun v mem => h.values v (List.mem_cons_of_mem _ mem), fun _ mem => ?_⟩
      cases mem
      exact (h.values _ List.mem_cons_self).listed
  | «initializer» _ created found bound => exact orderly_initializer created found bound h
  | callBody depth created => exact .of_machine (orderly_callBody depth created h) rfl rfl
  | expression begins | print begins | varDecl begins | branchCondition begins
  | superclass begins => exact .of_machine (orderly_begins h.toOrderly begins) rfl rfl
  | block begins created =>
      have h' := orderly_begins h.toOrderly begins
      obtain ⟨h'', -, listed, -⟩ := orderly_of_ok h' created
        (keeps_newScope h'.sound h'.sound.environment)
        (evolves_newScope h'.prepared h'.sound.environment)
      exact .of_machine ⟨⟨h''.sound.store, listed⟩, h''.ordered⟩ rfl rfl
  | thenBranch begins condition | elseBranch begins condition =>
      have h' := orderly_begins h.toOrderly begins
      exact .of_machine (orderly_eval h' condition).1 rfl rfl
  | loop begins =>
      have h' := orderly_begins h.toOrderly begins
      exact .of_machine ⟨⟨h'.sound.store, h'.sound.environment⟩, h'.ordered⟩ rfl rfl
  | returned begins checked =>
      have h' := orderly_begins h.toOrderly begins
      have inner := orderly_of_ok h' checked (keeps_checkReturn h'.sound _ _)
        (evolves_checkReturn _ _)
      exact .of_machine inner.1 rfl rfl
  | otherStmts run | restOfProgram run => exact .of_machine (orderly_exec h.toOrderly run) rfl rfl
  | loopBody condition => exact .of_machine (orderly_eval h.toOrderly condition).1 rfl rfl
  | increment condition _ body | again condition _ body =>
      have h' := (orderly_eval h.toOrderly condition).1
      exact .of_machine (orderly_exec h' body) rfl rfl
  | incremented condition _ body _ increment =>
      have h' := orderly_exec (orderly_eval h.toOrderly condition).1 body
      exact .of_machine (orderly_eval h' increment).1 rfl rfl

theorem orderly_of_moments (run : Relation.ReflTransGen (Enters host) first p)
    (h : first.Orderly) : p.Orderly := by
  induction run with
  | refl => exact h
  | tail _ enters ih => exact orderly_of_enters enters ih

end Run

namespace Machine

variable {m n : Machine} {host : Host} {fuel : Nat} {p : Run.Moment}

theorem orderly_initial : initial.Orderly where
  sound := atRest_initial.sound
  ordered := by
    have empty : Store.initial.Ordered := by
      refine ⟨fun a p hp => ?_, fun a entry he => ?_, fun a entry he => ?_⟩
      all_goals
        rcases a with _ | a
        · first | cases hp | cases he
        · first | cases hp | cases he
    exact empty.define (.inl rfl) trivial

theorem Orderly.analyse (h : m.Orderly) (program : List Stmt) : (m.analyse program).2.Orderly := by
  obtain ⟨distances, eq⟩ := analyse_eq m program
  rw [eq]
  exact ⟨⟨h.sound.store, h.sound.environment⟩, h.ordered⟩

theorem orderly_perform {α : Type} {part : Run α} {listed made : Store → α → Prop} (h : m.Orderly)
    (passes : Run.PassesWith part m listed) (evolves : Run.EvolvesWith Set.univ part m made) :
    (m.perform part).2.Orderly :=
  of_perform ((passes.and evolves).imp (fun _ _ hn => h.passes hn.1.1 hn.2.1)
    fun _ _ hn => h.passes hn.1 hn.2)

theorem Orderly.afterProgram (h : m.Orderly) (host : Host) (fuel : Nat) (program : List Stmt) :
    (m.afterProgram host fuel program).Orderly :=
  orderly_perform h (Run.passes_program host fuel program h.sound)
    (Run.evolves_program host fuel program h.prepared (Set.mem_univ _))

theorem Starts.orderly (starts : m.Starts p) (h : m.Orderly) : p.Orderly := by
  cases starts with
  | program _ => exact .of_machine (h.analyse _) rfl rfl
  | eval | exec => exact .of_machine h rfl rfl

theorem Orderly.during (h : m.Orderly) (mem : p ∈ m.during host) : p.Orderly := by
  obtain ⟨first, starts, run⟩ := mem
  exact Run.orderly_of_moments run (starts.orderly h)

end Machine

namespace Session

theorem Reached.ordered {programs : List (List Stmt)} {s : Session} (h : Reached programs s) :
    s.machine.store.Ordered := by
  induction h with
  | initial => exact Machine.orderly_initial.ordered
  | counters _ ih | unread _ _ _ ih | unreadExpr _ _ _ ih | read _ _ _ _ ih
  | readExpr _ _ _ _ ih => exact ih
  | @interpreted _ s program host fuel before _ ih =>
      have h : s.machine.Orderly := ⟨before.atRest.sound, ih⟩
      cases accepted : (s.machine.analyse program).1 with
      | error e =>
          rw [Machine.interpret_rejected accepted]
          exact (h.analyse program).ordered
      | ok =>
          rw [Machine.interpret_accepted accepted]
          have h' := (h.analyse program).afterProgram host fuel program
          exact h'.ordered.collect h'.sound.store h'.sound.environment
  | evaluated host fuel before _ _ ih =>
      have h : Machine.Orderly _ := ⟨before.atRest.sound, ih⟩
      exact (Machine.orderly_perform h ((Run.soundWith host fuel).eval _ h.sound).passes
        ((Run.evolvesAll host fuel).eval _ h.prepared)).ordered
  | executed host fuel before _ _ ih =>
      have h : Machine.Orderly _ := ⟨before.atRest.sound, ih⟩
      exact (Machine.orderly_perform h ((Run.soundWith host fuel).exec _ h.sound)
        ((Run.evolvesAll host fuel).exec _ h.prepared (.inl (Set.mem_univ _)))).ordered

theorem Reachable.orderly {s : Session} (h : s.Reachable) : s.machine.Orderly := by
  obtain ⟨programs, reached⟩ := h
  exact ⟨reached.atRest.sound, reached.ordered⟩

end Session

end ClassScript
