import ClassScript.Proofs.Run.Calls
import ClassScript.Proofs.Run.Overflow
import ClassScript.Proofs.Session.Exits

namespace ClassScript

def Host.limitedTo (host : Host) (depth : Option Nat) : Host := { host with maxDepth := depth }

namespace Run

variable {host left right : Host} {fuel n line : Nat} {m : Machine} {p q r first : Moment}
  {printed : Array String}

/-- In a run that starts with `first`, this number of calls is active at a moment. -/
inductive Active (host : Host) (first : Moment) : Nat → Moment → Prop
  | start : Active host first 0 first
  | part {n : Nat} {p q : Moment} : Active host first n p → ¬ p.task.IsCall → Enters host p q →
      Active host first n q
  | body {n : Nat} {p q : Moment} : Active host first n p → p.task.IsCall → Enters host p q →
      Active host first (n + 1) q

theorem Active.moment (h : Active host first n p) :
    Relation.ReflTransGen (Enters host) first p := by
  induction h with
  | start => exact .refl
  | part _ _ enters ih | body _ _ enters ih => exact ih.tail enters

theorem exists_active (run : Relation.ReflTransGen (Enters host) first p) :
    ∃ n, Active host first n p := by
  induction run with
  | refl => exact ⟨0, .start⟩
  | @tail p q _ enters ih =>
      obtain ⟨n, active⟩ := ih
      by_cases isCall : p.task.IsCall
      · exact ⟨n + 1, active.body isCall enters⟩
      · exact ⟨n, active.part isCall enters⟩

theorem Opens.callDepth_part {task : Task} (h : Opens host m task q) (notCall : ¬ task.IsCall) :
    q.machine.callDepth = m.callDepth := by
  cases h with
  | goOn | block | loop => rfl
  | call => exact absurd trivial notCall

theorem Opens.callDepth_body {task : Task} (h : Opens host m task q) (isCall : task.IsCall) :
    q.machine.callDepth = m.callDepth + 1 := by
  cases h with
  | goOn none | loop none => cases task <;> first | exact isCall.elim | exact absurd trivial none
  | block => exact isCall.elim
  | call => rfl

theorem Active.callDepth (h : Active host first n p) :
    p.machine.callDepth = first.machine.callDepth + n := by
  induction h with
  | start => rfl
  | part _ notCall enters ih =>
      obtain ⟨m, returns, opens⟩ := opens_of_enters enters
      rw [opens.callDepth_part notCall, returns.callDepth, ih]
  | body _ isCall enters ih =>
      obtain ⟨m, returns, opens⟩ := opens_of_enters enters
      rw [opens.callDepth_body isCall, returns.callDepth, ih]
      rfl

def Moment.Yields (left right : Host) : Moment → Prop
  | ⟨fuel, .eval e, m⟩ => ∀ v n, eval left fuel e m = .ok v n → eval right fuel e m = .ok v n
  | ⟨fuel, .evalAll es, m⟩ => ∀ vs n, evalAll left fuel es m = .ok vs n →
      evalAll right fuel es m = .ok vs n
  | ⟨fuel, .exec s, m⟩ => ∀ signal n, exec left fuel s m = .ok signal n →
      exec right fuel s m = .ok signal n
  | _ => True

structure Tracks (left right : Host) (p : Moment) : Prop where
  begins : ∀ {s m n}, Begins left s m n → Begins right s m n
  admits : ∀ {fuel closure args line m n}, p = ⟨fuel + 1, .invoke closure args line, m⟩ →
    checkDepth left line m = .ok () n → checkDepth right line m = .ok () n
  parts : ∀ {q}, Enters right p q → q.Yields left right

theorem Tracks.enters (h : Tracks left right p) (enters : Enters left p q) :
    Enters right p q := by
  -- What a task enters depends on the host only through the values of the parts in front.
  cases enters with
  | grouping => exact .grouping
  | var => exact .var
  | assigned => exact .assigned
  | assign run => exact .assign (h.parts .assigned _ _ run)
  | logicalLeft => exact .logicalLeft
  | logicalRight run goesOn => exact .logicalRight (h.parts .logicalLeft _ _ run) goesOn
  | binaryLeft => exact .binaryLeft
  | binaryRight run => exact .binaryRight (h.parts .binaryLeft _ _ run)
  | unary => exact .unary
  | callee => exact .callee
  | arguments run => exact .arguments (h.parts .callee _ _ run)
  | call run more =>
      have run := h.parts .callee _ _ run
      exact .call run (h.parts (.arguments run) _ _ more)
  | get => exact .get
  | setObject => exact .setObject
  | setValue run => exact .setValue (h.parts .setObject _ _ run)
  | this => exact .this
  | super => exact .super
  | firstExpr => exact .firstExpr
  | otherExprs run => exact .otherExprs (h.parts .firstExpr _ _ run)
  | function same => exact .function same
  | bound same => exact .bound same
  | «initializer» same created found bound => exact .initializer same created found bound
  | callBody depth created => exact .callBody (h.admits rfl depth) created
  | expression begins => exact .expression (h.begins begins)
  | print begins => exact .print (h.begins begins)
  | varDecl begins => exact .varDecl (h.begins begins)
  | block begins created => exact .block (h.begins begins) created
  | branchCondition begins => exact .branchCondition (h.begins begins)
  | thenBranch begins condition yes =>
      have begins := h.begins begins
      exact .thenBranch begins (h.parts (.branchCondition begins) _ _ condition) yes
  | elseBranch begins condition no =>
      have begins := h.begins begins
      exact .elseBranch begins (h.parts (.branchCondition begins) _ _ condition) no
  | loop begins => exact .loop (h.begins begins)
  | superclass begins named ne => exact .superclass (h.begins begins) named ne
  | returned begins checked => exact .returned (h.begins begins) checked
  | firstStmt => exact .firstStmt
  | otherStmts run => exact .otherStmts (h.parts .firstStmt _ _ run)
  | loopCondition => exact .loopCondition
  | loopBody condition yes => exact .loopBody (h.parts .loopCondition _ _ condition) yes
  | increment condition yes body goesOn =>
      have condition := h.parts .loopCondition _ _ condition
      exact .increment condition yes (h.parts (.loopBody condition yes) _ _ body) goesOn
  | again condition yes body goesOn =>
      have condition := h.parts .loopCondition _ _ condition
      exact .again condition yes (h.parts (.loopBody condition yes) _ _ body) goesOn
  | incremented condition yes body goesOn increment =>
      have condition := h.parts .loopCondition _ _ condition
      have body := h.parts (.loopBody condition yes) _ _ body
      have increment := h.parts (.increment condition yes body goesOn) _ _ increment
      exact .incremented condition yes body goesOn increment
  | firstOfProgram => exact .firstOfProgram
  | restOfProgram run => exact .restOfProgram (h.parts .firstOfProgram _ _ run)

theorem tracks_of_stricter (stricter : left.Stricter right) (p : Moment) :
    Tracks left right p := by
  have lockstep : Lockstep left right fun _ p q => Shortens (fun _ => True) p q :=
    lockstep_shortens stricter ⟨.inr fun _ => trivial, .inr fun _ => trivial⟩
  have all (fuel : Nat) := lockstep.sameFuel (fun _ => .of_prints fun m => .refl m) fuel
  refine ⟨fun {s m n} begins => ?_, fun _ run => ((lockstep.checkDepth _).ends _).ok run,
    fun {q} _ => ?_⟩
  · exact ((lockstep.bind (lockstep.start s.line) fun _ => lockstep.collectIfDue).ends m).ok begins
  · obtain ⟨fuel, task, m⟩ := q
    cases task with
    | eval e => exact fun _ _ run => (((all fuel).eval e).ends m).ok run
    | evalAll es => exact fun _ _ run => (((all fuel).evalAll es).ends m).ok run
    | exec s => exact fun _ _ run => (((all fuel).exec s).ends m).ok run
    | _ => trivial

theorem moments_of_stricter (stricter : left.Stricter right)
    (run : Relation.ReflTransGen (Enters left) p q) :
    Relation.ReflTransGen (Enters right) p q := by
  induction run with
  | refl => exact .refl
  | tail _ enters ih => exact ih.tail ((tracks_of_stricter stricter _).enters enters)

theorem fails_of_moments {e : Halt} (run : Relation.ReflTransGen (Enters host) p q)
    (h : q.Fails host e printed) : p.Fails host e printed := by
  induction run with
  | refl => exact h
  | tail _ enters ih => exact ih (fails_of_enters enters h)

theorem Moment.Exceeds.fails (h : p.Exceeds host line) :
    p.Fails host (overflow line) p.machine.output := by
  obtain ⟨fuel, closure, args, m, limit, rfl, limited, overrun⟩ := h
  apply fails_discard.mpr
  unfold invoke
  refine Fails.bind ⟨m, ?_, rfl⟩ _
  rw [checkDepth_limited limited, if_pos overrun]

theorem exceeds_invoke {closure : Closure} {args : List Value} {limit : Nat}
    (limited : host.maxDepth = some limit) (overrun : limit ≤ m.callDepth) :
    Moment.Exceeds host line ⟨fuel + 1, .invoke closure args line, m⟩ :=
  ⟨fuel, closure, args, m, limit, rfl, limited, overrun⟩

variable {limit : Nat} {more : Option Nat}

def IsOverflow (e : Halt) : Prop := ∃ line, e = overflow line

def Moment.Overflows (host : Host) (p : Moment) : Prop :=
  ∃ line printed, p.Fails host (overflow line) printed

theorem stricter_limitedTo (host : Host) (le : ∀ limit' ∈ more, limit ≤ limit') :
    (host.limitedTo (some limit)).Stricter (host.limitedTo more) where
  maxDepth limit' h := ⟨limit, rfl, le limit' h⟩
  interrupts _ h := h
  collects := rfl
  time := rfl

theorem stops_limitedTo : Stops IsOverflow (host.limitedTo (some limit)) (host.limitedTo more) where
  overflow := .inr fun line => ⟨line, rfl⟩
  interrupted := .inl rfl

theorem shortenedWith_limitedTo (host : Host) (le : ∀ limit' ∈ more, limit ≤ limit') (fuel : Nat) :
    LockstepWith (host.limitedTo (some limit)) (host.limitedTo more)
      (fun _ p q => Shortens IsOverflow p q) fuel fuel :=
  shortenedWith (stricter_limitedTo host le) stops_limitedTo fuel

theorem tracks_of_less (le : ∀ limit' ∈ more, limit ≤ limit') (p : Moment) :
    Tracks (host.limitedTo (some limit)) (host.limitedTo more) p :=
  tracks_of_stricter (stricter_limitedTo host le) p

theorem tracks_of_more (le : ∀ limit' ∈ more, limit ≤ limit') (p : Moment) :
    Tracks (host.limitedTo more) (host.limitedTo (some limit)) p ∨
      p.Overflows (host.limitedTo (some limit)) := by
  by_cases cut : p.Overflows (host.limitedTo (some limit))
  · exact .inr cut
  refine .inl ⟨fun h => h, fun is run => ?_, fun {q} enters => ?_⟩
  · subst is
    rename_i line m n
    obtain ⟨rfl, -⟩ := checkDepth_ok run
    by_cases overrun : limit ≤ n.callDepth
    · exact absurd ⟨line, _, (exceeds_invoke rfl overrun).fails⟩ cut
    · rw [checkDepth_limited rfl, if_neg overrun]
  · have none : ¬ q.Overflows (host.limitedTo (some limit)) := by
      rintro ⟨_, _, fails⟩
      exact cut ⟨_, _, fails_of_enters enters fails⟩
    have kept {α : Type} {part part' : Run α} {m n : Machine} {a : α}
        (both : Shortened IsOverflow (part m) (part' m)) (run : part' m = .ok a n)
        (none : ∀ line printed, ¬ Fails part m (overflow line) printed) : part m = .ok a n := by
      rcases both.of_ok run with same | ⟨_, o, ⟨line, rfl⟩, failed⟩
      · exact same
      · exact absurd ⟨o, failed, rfl⟩ (none line _)
    obtain ⟨fuel, task, m⟩ := q
    have all := shortenedWith_limitedTo host le fuel
    cases task with
    | eval e =>
        exact fun _ _ run => kept ((all.eval e).ends m) run
          fun line printed fails => none ⟨line, printed, fails_discard.mpr fails⟩
    | evalAll es =>
        exact fun _ _ run => kept ((all.evalAll es).ends m) run
          fun line printed fails => none ⟨line, printed, fails_discard.mpr fails⟩
    | exec s =>
        exact fun _ _ run => kept ((all.exec s).ends m) run
          fun line printed fails => none ⟨line, printed, fails_discard.mpr fails⟩
    | _ => trivial

theorem Active.of_less (h : Active (host.limitedTo (some limit)) first n p)
    (le : ∀ limit' ∈ more, limit ≤ limit') : Active (host.limitedTo more) first n p := by
  induction h with
  | start => exact .start
  | part _ notCall enters ih => exact ih.part notCall ((tracks_of_less le _).enters enters)
  | body _ isCall enters ih => exact ih.body isCall ((tracks_of_less le _).enters enters)

theorem Active.of_more (h : Active (host.limitedTo more) first n p)
    (le : ∀ limit' ∈ more, limit ≤ limit') :
    Active (host.limitedTo (some limit)) first n p ∨
      first.Overflows (host.limitedTo (some limit)) := by
  have next {n : Nat} {p q : Moment} (active : Active (host.limitedTo (some limit)) first n p)
      (enters : Enters (host.limitedTo more) p q) :
      Enters (host.limitedTo (some limit)) p q ∨ first.Overflows (host.limitedTo (some limit)) := by
    rcases tracks_of_more le p with tracks | ⟨line, printed, fails⟩
    · exact .inl (tracks.enters enters)
    · exact .inr ⟨line, printed, fails_of_moments active.moment fails⟩
  induction h with
  | start => exact .inl .start
  | part _ notCall enters ih =>
      rcases ih with active | cut
      · exact (next active enters).imp (active.part notCall) id
      · exact .inr cut
  | body _ isCall enters ih =>
      rcases ih with active | cut
      · exact (next active enters).imp (active.body isCall) id
      · exact .inr cut

end Run

end ClassScript
