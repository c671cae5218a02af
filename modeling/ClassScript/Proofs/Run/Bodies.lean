import ClassScript.Proofs.Run.Calls
import ClassScript.Proofs.Run.Overflow
import ClassScript.Proofs.Run.Signals

namespace ClassScript

/-- A statement stands in a body, within so many of its loops, and in no function declared there. -/
inductive StandsIn (body : List Stmt) : (loops : Nat) → Stmt → Prop
  | own {s} : s ∈ body → StandsIn body 0 s
  | block {n inner line s} : StandsIn body n (.block inner line) → s ∈ inner → StandsIn body n s
  | thenBranch {n condition s other} : StandsIn body n (.branch condition s other) →
      StandsIn body n s
  | elseBranch {n condition other s} : StandsIn body n (.branch condition other (some s)) →
      StandsIn body n s
  | loop {n condition s increment} : StandsIn body n (.loop condition s increment) →
      StandsIn body (n + 1) s

/-- What a statement is reported for that leaves a loop or a body which is not there. -/
def Stmt.misplaced? (kind : FrameKind) (loops : Nat) : Stmt → Option RuntimeError
  | .break keyword => if loops = 0 then some ⟨.outsideLoop .break, keyword.line⟩ else none
  | .continue keyword => if loops = 0 then some ⟨.outsideLoop .continue, keyword.line⟩ else none
  | .return keyword _ => if kind = .script then some ⟨.topLevelReturn, keyword.line⟩ else none
  | _ => none

def Closure.frameKind (closure : Closure) : FrameKind :=
  if closure.isInitializer then .initializer else .function

def Machine.within (m : Machine) (s : Surroundings) : Machine :=
  { m with environment := s.environment, frame := s.frame, callDepth := s.callDepth }

theorem Machine.Returns.within_eq {m n : Machine} (h : m.Returns n) :
    n.within m.surroundings = n := by
  unfold within
  rw [← h.surroundings]
  rfl

namespace Run

variable {host : Host} {fuel count line : Nat} {m n : Machine} {p q first : Moment}
  {value : Value} {kind : FrameKind} {code : List Stmt}

def Task.loops : Task → Nat
  | .exec (.loop _ _ _) => 1
  | _ => 0

inductive Inside (host : Host) (first : Moment) : (loops : Nat) → Moment → Prop
  | start : Inside host first 0 first
  | part {count : Nat} {p q : Moment} : Inside host first count p → Stays host p q →
      Inside host first (count + p.task.loops) q

theorem Stays.frame (stays : Stays host p q) : q.machine.frame =
    ⟨p.machine.frame.kind, p.machine.frame.loopDepth + p.task.loops⟩ := by
  obtain ⟨enters, notCall⟩ := stays
  cases enters with
  | grouping | var | assigned | logicalLeft | binaryLeft | unary | callee | get | setObject | this
  | super | firstExpr | function | bound | firstStmt | firstOfProgram | loopCondition => rfl
  | assign run | logicalRight run | binaryRight run | arguments run | setValue run
  | otherExprs run => exact (returns_eval run).frame
  | call callee arguments => exact ((returns_eval callee).trans (returns_evalAll arguments)).frame
  | «initializer» _ created _ bound =>
      have fresh := restores_newInstance.returns created
      exact (fresh.trans ((restores_bindMethod _ _).returns bound)).frame
  | callBody => exact absurd trivial notCall
  | expression begins | print begins | varDecl begins | branchCondition begins
  | superclass begins => exact (returns_begins begins).frame
  | block begins created =>
      cases created
      exact (returns_begins begins).frame
  | thenBranch begins condition | elseBranch begins condition =>
      exact ((returns_begins begins).trans (returns_eval condition)).frame
  | loop begins =>
      rw [(returns_begins begins).frame]
      rfl
  | returned begins checked =>
      exact ((returns_begins begins).trans ((restores_checkReturn _ _).returns checked)).frame
  | otherStmts run | restOfProgram run => exact (returns_exec run).frame
  | loopBody condition => exact (returns_eval condition).frame
  | increment condition _ body | again condition _ body =>
      exact ((returns_eval condition).trans (returns_exec body)).frame
  | incremented condition _ body _ increment =>
      have once := (returns_eval condition).trans (returns_exec body)
      exact (once.trans (returns_eval increment)).frame

theorem Inside.frame (h : Inside host first count p) : p.machine.frame =
    ⟨first.machine.frame.kind, first.machine.frame.loopDepth + count⟩ := by
  induction h with
  | start => rfl
  | part _ stays ih => rw [stays.frame, ih, Nat.add_assoc]

def Task.StandsIn (body : List Stmt) (loops : Nat) : Task → Prop
  | .exec s => ClassScript.StandsIn body loops s
  | .execAll ss | .program ss => ∀ s ∈ ss, ClassScript.StandsIn body loops s
  | .execLoop _ s _ => ClassScript.StandsIn body loops s
  | _ => True

def Task.body : Task → List Stmt
  | .exec s | .execLoop _ s _ => [s]
  | .execAll ss | .program ss => ss
  | _ => []

theorem Task.standsIn_body (task : Task) : task.StandsIn task.body 0 := by
  cases task with
  | exec s => exact .own List.mem_cons_self
  | execLoop condition s increment => exact .own List.mem_cons_self
  | execAll ss | program ss => exact fun s mem => .own mem
  | _ => trivial

theorem Stays.standsIn (stays : Stays host p q) (h : p.task.StandsIn code count) :
    q.task.StandsIn code (count + p.task.loops) := by
  obtain ⟨enters, notCall⟩ := stays
  cases enters with
  | callBody => exact absurd trivial notCall
  | block => exact fun s mem => .block h mem
  | thenBranch => exact .thenBranch h
  | elseBranch => exact .elseBranch h
  | loop => exact .loop h
  | firstStmt | firstOfProgram => exact h _ List.mem_cons_self
  | otherStmts | restOfProgram => exact fun s mem => h s (List.mem_cons_of_mem _ mem)
  | loopBody | again | incremented => exact h
  | _ => trivial

theorem Inside.standsIn (h : Inside host first count p) :
    p.task.StandsIn first.task.body count := by
  induction h with
  | start => exact Task.standsIn_body _
  | part _ stays ih => exact stays.standsIn ih

/-- The body that runs at a moment, its kind, and how many of its loops are around. -/
inductive InBody (host : Host) (first : Moment) :
    FrameKind → List Stmt → (loops : Nat) → Moment → Prop
  | outermost {count : Nat} {p : Moment} : Inside host first count p →
      InBody host first first.machine.frame.kind first.task.body count p
  | call {count : Nat} {p : Moment} (c : Call host first) : Inside host c.body count p →
      InBody host first c.closure.frameKind c.closure.decl.body count p

theorem Call.body_eq (c : Call host first) :
    c.body.task = .execAll c.closure.decl.body ∧
      c.body.machine.frame = ⟨c.closure.frameKind, 0⟩ := by
  obtain ⟨start, body, closure, args, line, moment, invokes, enters⟩ := c
  cases enters with
  | callBody =>
      cases invokes
      exact ⟨rfl, rfl⟩
  | _ => cases invokes

theorem exists_inBody (run : Relation.ReflTransGen (Enters host) first p) :
    ∃ kind code count, InBody host first kind code count p := by
  induction run with
  | refl => exact ⟨_, _, _, .outermost .start⟩
  | @tail p q run enters ih =>
      by_cases isCall : p.task.IsCall
      · cases invokes : p.task with
        | invoke closure args line =>
            exact ⟨_, _, _, .call ⟨p, q, closure, args, line, run, invokes, enters⟩ .start⟩
        | _ =>
            rw [invokes] at isCall
            exact isCall.elim
      · obtain ⟨kind, code, count, inside⟩ := ih
        have stays : Stays host p q := ⟨enters, isCall⟩
        cases inside with
        | outermost inside => exact ⟨_, _, _, .outermost (inside.part stays)⟩
        | call c inside => exact ⟨_, _, _, .call c (inside.part stays)⟩

theorem InBody.frame (h : InBody host first kind code count p)
    (outside : first.machine.frame.loopDepth = 0) : p.machine.frame = ⟨kind, count⟩ := by
  cases h with
  | outermost inside => rw [inside.frame, outside, Nat.zero_add]
  | call c inside => rw [inside.frame, c.body_eq.2, Nat.zero_add]

theorem InBody.standsIn (h : InBody host first kind code count p) :
    p.task.StandsIn code count := by
  cases h with
  | outermost inside => exact inside.standsIn
  | call c inside =>
      have stands := inside.standsIn
      rw [c.body_eq.1] at stands
      exact stands

theorem Inside.during {c : Call host first} (h : Inside host c.body count p) : c.During p := by
  induction h with
  | start => exact .refl
  | part _ stays ih => exact ih.tail stays

theorem begins_output {s : Stmt} (begins : Begins host s m n) : n.output = m.output := by
  have ends : Ends (do start host s.line; collectIfDue host) m
      (fun _ n => n.output = m.output) fun _ _ => True := by
    apply ends_bind.mpr
    apply ends_start.mpr
    split
    · trivial
    · apply ends_collectIfDue.mpr
      split <;> rfl
  exact (ends_ok_iff begins).mp ends

theorem fails_misplaced {s : Stmt} {e : RuntimeError} (begins : Begins host s m n)
    (h : s.misplaced? m.frame.kind m.frame.loopDepth = some e) :
    Moment.Fails host ⟨fuel + 1, .exec s, m⟩ (.fault e) m.output := by
  have frame := (returns_begins begins).frame
  have output := begins_output begins
  rw [← frame] at h
  apply fails_discard.mpr
  cases s with
  | «break» keyword | «continue» keyword =>
      obtain ⟨outside, eq⟩ := Option.ite_none_right_eq_some.mp h
      cases eq
      refine .begins begins (.after rfl ?_)
      rw [if_pos (by simpa using outside)]
      exact ⟨n, rfl, output⟩
  | «return» keyword value =>
      obtain ⟨outside, eq⟩ := Option.ite_none_right_eq_some.mp h
      cases eq
      refine .begins begins (Fails.bind (.after rfl ?_) _)
      simp only [outside]
      exact ⟨n, rfl, output⟩
  | _ => cases h

def Moment.Sends (host : Host) (signal : Signal) (n : Machine) : Moment → Prop
  | ⟨fuel, .exec s, m⟩ => exec host fuel s m = .ok signal n
  | ⟨fuel, .execAll ss, m⟩ => execAll host fuel ss m = .ok signal n
  | ⟨fuel, .execLoop condition body increment, m⟩ =>
    execLoop host fuel condition body increment m = .ok signal n
  | _ => False

theorem Moment.Sends.returns {signal : Signal} (h : p.Sends host signal n) :
    p.machine.Returns n := by
  obtain ⟨fuel, task, m⟩ := p
  have restores := restoresWith host fuel
  cases task with
  | exec s => exact (restores.exec s).returns h
  | execAll ss => exact (restores.execAll ss).returns h
  | execLoop condition body increment => exact (restores.execLoop _ _ _).returns h
  | _ => exact h.elim

theorem inScope_ok {α : Type} {part : Run α} {scope : Address} {a : α}
    (run : part { m with environment := scope } = .ok a n) :
    inScope scope part m = .ok a { n with environment := m.environment } := by
  simp only [inScope, run]

theorem inLoop_ok {α : Type} {part : Run α} {a : α} (run : part m.insideLoop = .ok a n) :
    inLoop part m = .ok a { n with frame := m.frame } := by
  unfold Machine.insideLoop at run
  simp only [inLoop, run]

theorem inCall_ok {α : Type} {part : Run α} {scope : Address} {a : α}
    (run : part { m.insideCall kind with environment := scope } = .ok a n) :
    inCall kind scope part m = .ok a (n.within m.surroundings) := by
  unfold Machine.insideCall at run
  simp only [inCall, run]
  rfl

theorem Begins.bind_eq {s : Stmt} {α : Type} {part : Run α} (begins : Begins host s m n) :
    (do start host s.line; collectIfDue host; part) m = part n := by
  rw [← bind_assoc]
  exact bind_ok begins

theorem truly_eq {condition : Expr} {v : Value} {α : Type} {part other : Run α}
    (run : eval host fuel condition m = .ok v n) (yes : v.truthy = true) :
    (do if (← eval host fuel condition).truthy then part else other) m = part n := by
  rw [bind_ok run, if_pos yes]

theorem goesRound_eq {condition : Expr} {body : Stmt} {increment : Option Expr} {v : Value}
    {signal : Signal} {o : Machine} (run : eval host fuel condition m = .ok v n)
    (yes : v.truthy = true) (once : exec host fuel body n = .ok signal o)
    (goesOn : GoesOn signal) :
    execLoop host (fuel + 1) condition body increment m =
      goRound host fuel condition body increment .normal o := by
  refine ((truly_eq run yes).trans (bind_ok once)).trans ?_
  cases signal with
  | normal | «continue» line => rfl
  | «break» line | «return» value line => exact goesOn.elim

theorem Stays.sends_on (stays : Stays host p q) (notProgram : ∀ ss, p.task ≠ .program ss)
    (h : q.Sends host (.return value line) n) :
    ∃ o, p.Sends host (.return value line) o ∧ ∀ s, o.within s = n.within s := by
  obtain ⟨enters, notCall⟩ := stays
  cases enters with
  | block begins created =>
      have inner := inScope_ok h
      exact ⟨_, begins.bind_eq.trans ((bind_ok rfl).trans ((bind_ok created).trans inner)),
        fun _ => rfl⟩
  | thenBranch begins condition yes =>
      exact ⟨n, begins.bind_eq.trans ((truly_eq condition yes).trans h), fun _ => rfl⟩
  | elseBranch begins condition no =>
      refine ⟨n, begins.bind_eq.trans ((bind_ok condition).trans ?_), fun _ => rfl⟩
      rw [if_neg (Bool.eq_false_iff.mp no)]
      exact h
  | loop begins =>
      exact ⟨_, begins.bind_eq.trans (inLoop_ok h), fun _ => rfl⟩
  | firstStmt => exact ⟨n, bind_ok h, fun _ => rfl⟩
  | otherStmts run => exact ⟨n, (bind_ok run).trans h, fun _ => rfl⟩
  | loopBody condition yes =>
      exact ⟨n, (truly_eq condition yes).trans (bind_ok h), fun _ => rfl⟩
  | again condition yes once goesOn =>
      exact ⟨n, (goesRound_eq condition yes once goesOn).trans h, fun _ => rfl⟩
  | incremented condition yes once goesOn more =>
      refine ⟨n, (goesRound_eq condition yes once goesOn).trans ?_, fun _ => rfl⟩
      exact (bind_ok (discard_ok more)).trans h
  | callBody => exact absurd trivial notCall
  | firstOfProgram | restOfProgram => exact absurd rfl (notProgram _)
  | _ => exact h.elim

theorem Stays.sends (stays : Stays host p q) (notProgram : ∀ ss, p.task ≠ .program ss)
    (h : q.Sends host (.return value line) n) :
    p.Sends host (.return value line) (n.within p.machine.surroundings) := by
  obtain ⟨o, sends, same⟩ := stays.sends_on notProgram h
  rw [← same, sends.returns.within_eq]
  exact sends

theorem Stays.notProgram (stays : Stays host p q) (notProgram : ∀ ss, p.task ≠ .program ss) :
    ∀ ss, q.task ≠ .program ss := by
  obtain ⟨enters, -⟩ := stays
  cases enters with
  | restOfProgram => exact absurd rfl (notProgram _)
  | _ => exact nofun

theorem sends_of_during (run : Relation.ReflTransGen (Stays host) p q)
    (notProgram : ∀ ss, p.task ≠ .program ss) (h : q.Sends host (.return value line) n) :
    p.Sends host (.return value line) (n.within p.machine.surroundings) := by
  induction run using Relation.ReflTransGen.head_induction_on with
  | refl => rwa [h.returns.within_eq]
  | head stays _ ih =>
      have sends := stays.sends notProgram (ih (stays.notProgram notProgram))
      exact sends

namespace Call

variable (c : Call host first)

def result : EStateM.Result Halt Machine Value :=
  invoke host c.start.fuel c.closure c.args c.line c.start.machine

variable {c}

theorem During.notProgram (h : c.During p) : ∀ ss, p.task ≠ .program ss := by
  induction h with
  | refl =>
      rw [c.body_eq.1]
      exact nofun
  | tail _ stays ih => exact stays.notProgram ih

theorem consumes (during : c.During p) (h : p.Sends host (.return value line) n) :
    c.result = callResult c.closure c.line value (n.within c.start.machine.surroundings) := by
  have sends := sends_of_during during (During.notProgram .refl) h
  obtain ⟨start, body, closure, args, line', moment, invokes, enters⟩ := c
  cases enters with
  | callBody depth created =>
      cases invokes
      obtain ⟨rfl, -⟩ := checkDepth_ok depth
      have opened := (restores_callScope closure args).returns created
      refine (bind_ok depth).trans ((bind_ok created).trans ((bind_ok (inCall_ok sends)).trans ?_))
      rw [opened.surroundings]
      rfl
  | _ => cases invokes

end Call

end Run

end ClassScript
