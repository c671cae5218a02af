import ClassScript.Proofs.Run.Active
import ClassScript.Proofs.Run.Fuel

/-!
# Interrupted runs

The start of a statement is counted, and nothing else is. So the statements of a run are numbered:
for each number up to the count that the run ends with, exactly one statement is started when the
count is there (`exists_started`, `started_unique`). A hook that interrupts beyond a count leaves
alone a run that ends below it, and ends each other one at the statement that is started then
(`cutsWith`).
-/

namespace ClassScript

def Host.uninterrupted (host : Host) : Host := { host with interrupts := fun _ => false }

def Host.interruptedBeyond (host : Host) (count : Nat) : Host :=
  { host with interrupts := fun started => count < started }

namespace Run

open Machine

variable {α β : Type} {host : Host} {fuel line k : Nat} {m n : Machine} {p q first : Moment}

theorem Primitive.started {plain : Bool} {part : Run α} (h : Primitive plain part) (m : Machine) :
    (leftIn (part m)).started = m.started := by
  cases h with
  | lookup o name =>
      unfold Run.lookup
      dsimp only
      split <;> rfl
  | assign o value =>
      unfold Run.assign
      dsimp only
      split <;> rfl
  | readProperty id object name line =>
      unfold Run.readProperty
      dsimp only
      split <;> rfl
  | _ => rfl

theorem started_start (host : Host) (line : Nat) (m : Machine) :
    (leftIn (start host line m)).started = m.started + 1 := by
  unfold start
  dsimp only
  split <;> rfl

theorem started_collectIfDue (host : Host) (m : Machine) :
    (leftIn (collectIfDue host m)).started = m.started := by
  unfold collectIfDue
  split <;> rfl

theorem started_checkDepth (host : Host) (line : Nat) (m : Machine) :
    (leftIn (checkDepth host line m)).started = m.started := by
  cases limited : host.maxDepth with
  | none =>
      rw [checkDepth_unlimited limited]
      rfl
  | some limit =>
      rw [checkDepth_limited limited]
      split <;> rfl

theorem error_of_discard {part : Run α} {e : Halt}
    (h : (discard part : Run PUnit) m = .error e n) : part m = .error e n := by
  rw [discard_eq] at h
  simp only [bind, EStateM.bind] at h
  generalize part m = x at *
  cases x with
  | ok a o => cases h
  | error e' o =>
      cases h
      rfl

theorem started_inScope (part : Run α) (scope : Address) (m : Machine) :
    (leftIn (inScope scope part m)).started =
      (leftIn (part { m with environment := scope })).started := by
  unfold inScope
  dsimp only
  cases part { m with environment := scope } <;> rfl

theorem started_inLoop (part : Run α) (m : Machine) :
    (leftIn (inLoop part m)).started = (leftIn (part m.insideLoop)).started := by
  cases ends : part m.insideLoop <;>
    simp only [inLoop, insideLoop] at ends ⊢ <;>
    simp only [ends, leftIn]

theorem started_inCall (part : Run α) (kind : FrameKind) (scope : Address) (m : Machine) :
    (leftIn (inCall kind scope part m)).started =
      (leftIn (part { m.insideCall kind with environment := scope })).started := by
  cases ends : part { m.insideCall kind with environment := scope } <;>
    simp only [inCall, insideCall] at ends ⊢ <;>
    simp only [ends, leftIn]

def Crosses (k : Nat) (part : Run α) (m : Machine) : Prop :=
  m.started ≤ k ∧ k < (leftIn (part m)).started

theorem Primitive.not_crosses {plain : Bool} {part : Run α} (h : Primitive plain part) :
    ¬ Crosses k part m := by
  rintro ⟨below, beyond⟩
  rw [h.started] at beyond
  omega

theorem traceable_crosses (host : Host) (k : Nat) :
    Traceable host fun _ part m => Crosses k part m where
  step h := h.not_crosses
  bind {_ _ part rest m} := by
    rintro ⟨below, beyond⟩
    rw [leftIn_bind] at beyond
    unfold Crosses
    cases run : part m with
    | ok a n =>
        rw [run] at beyond
        by_cases already : k < n.started
        · exact .inl ⟨below, already⟩
        · exact .inr ⟨a, n, rfl, Nat.le_of_not_lt already, beyond⟩
    | error e n =>
        rw [run] at beyond
        exact .inl ⟨below, beyond⟩
  discard h := ⟨h.1, (leftIn_discard _ _).symm ▸ h.2⟩
  inScope h := ⟨h.1, started_inScope _ _ _ ▸ h.2⟩
  inLoop h := ⟨h.1, started_inLoop _ _ ▸ h.2⟩
  inCall h := ⟨h.1, started_inCall _ _ _ _ ▸ h.2⟩
  collectIfDue h := by
    have beyond := h.2
    rw [started_collectIfDue] at beyond
    exact absurd h.1 (Nat.not_le.mpr beyond)
  readClock h := absurd h.1 (Nat.not_le.mpr h.2)
  exhausted h := absurd h.1 (Nat.not_le.mpr h.2)

structure Started (host : Host) (first : Moment) (k : Nat) (s : Stmt) (p : Moment) : Prop where
  moment : Relation.ReflTransGen (Enters host) first p
  statement : ∃ fuel, p = ⟨fuel + 1, .exec s, p.machine⟩
  count : p.machine.started = k

theorem exists_started (h : Crosses k (first.part host) first.machine) :
    ∃ s p, Started host first k s p := by
  obtain ⟨p, run, origin⟩ := exists_origin (traceable_crosses host k)
    (fun step => step.not_crosses) h
  cases origin with
  | call is crosses =>
      have beyond := crosses.2
      rw [started_checkDepth] at beyond
      exact absurd crosses.1 (Nat.not_le.mpr beyond)
  | @statement fuel s is crosses =>
      have beyond := crosses.2
      rw [started_start] at beyond
      exact ⟨s, p, run, ⟨fuel, is⟩, Nat.le_antisymm crosses.1 (Nat.le_of_lt_succ beyond)⟩

theorem started_of_begins {s : Stmt} (begins : Begins host s m n) :
    n.started = m.started + 1 := by
  have ends : Ends (do start host s.line; collectIfDue host) m
      (fun _ n => n.started = m.started + 1) fun _ _ => True := by
    apply ends_bind.mpr
    apply ends_start.mpr
    split
    · trivial
    · apply ends_collectIfDue.mpr
      split <;> rfl
  exact (ends_ok_iff begins).mp ends

theorem started_of_part {s : Stmt} (is : p.task = .exec s) (enters : Enters host p q) :
    p.machine.started < q.machine.started := by
  have next {s : Stmt} {m n : Machine} (begins : Begins host s m n) : m.started < n.started :=
    (started_of_begins begins).symm ▸ Nat.lt_succ_self _
  cases enters with
  | expression begins | print begins | varDecl begins | branchCondition begins | superclass begins
  | loop begins => exact (next begins :)
  | block begins created =>
      cases created
      exact (next begins :)
  | thenBranch begins condition | elseBranch begins condition =>
      exact (next begins).trans_le (returns_eval condition).advances.2
  | returned begins checked =>
      exact (next begins).trans_le ((restores_checkReturn _ _).returns checked).advances.2
  | _ => cases is

inductive Cut (k : Nat) : EStateM.Result Halt Machine α → EStateM.Result Halt Machine α → Prop
  | same {x} : (leftIn x).started ≤ k → Cut k x x
  | stopped {e n y} : n.started = k + 1 → k < (leftIn y).started → Cut k (.error e n) y

theorem Cut.eq {x y : EStateM.Result Halt Machine α} (h : Cut k x y)
    (within : (leftIn y).started ≤ k) : x = y := by
  cases h with
  | same => rfl
  | stopped _ beyond => exact absurd within (Nat.not_le.mpr beyond)

theorem Cut.exists_error {x y : EStateM.Result Halt Machine α} (h : Cut k x y)
    (beyond : k < (leftIn y).started) : ∃ e n, x = .error e n ∧ n.started = k + 1 := by
  cases h with
  | same within => exact absurd within (Nat.not_le.mpr beyond)
  | stopped count => exact ⟨_, _, rfl, count⟩

structure Cuts (k : Nat) (part part' : Run α) : Prop where
  counts : ∀ m, m.started ≤ (leftIn (part' m)).started
  ends : ∀ m, m.started ≤ k → Cut k (part m) (part' m)

namespace Cuts

variable {part part' : Run α}

theorem of_started (h : ∀ m, (leftIn (part m)).started = m.started) : Cuts k part part :=
  ⟨fun m => (h m).ge, fun m within => .same ((h m).trans_le within)⟩

theorem bind {rest rest' : α → Run β} (h : Cuts k part part')
    (next : ∀ a, Cuts k (rest a) (rest' a)) : Cuts k (part >>= rest) (part' >>= rest') := by
  refine ⟨fun m => ?_, fun m within => ?_⟩
  · have counts := h.counts m
    rw [leftIn_bind]
    generalize part' m = y at *
    cases y with
    | ok a n => exact counts.trans ((next a).counts n)
    | error e n => exact counts
  · have first := h.ends m within
    have left := leftIn_bind part' rest' m
    simp only [Bind.bind, EStateM.bind] at left ⊢
    generalize part m = x at *
    generalize part' m = y at *
    cases first with
    | same within =>
        cases x with
        | ok a n => exact (next a).ends n within
        | error e n => exact .same within
    | stopped count beyond =>
        refine .stopped count ?_
        rw [left]
        cases y with
        | ok a n => exact beyond.trans_le ((next a).counts n)
        | error e n => exact beyond

theorem inScope (h : Cuts k part part') (scope : Address) :
    Cuts k (inScope scope part) (inScope scope part') := by
  refine ⟨fun m => ?_, fun m within => ?_⟩
  · exact started_inScope part' scope m ▸ h.counts { m with environment := scope }
  · have inner := h.ends { m with environment := scope } within
    simp only [Run.inScope]
    generalize part _ = x at *
    generalize part' _ = y at *
    cases inner with
    | same within => cases x <;> exact .same within
    | stopped count beyond => cases y <;> exact .stopped count beyond

theorem inLoop (h : Cuts k part part') : Cuts k (inLoop part) (inLoop part') := by
  refine ⟨fun m => ?_, fun m within => ?_⟩
  · exact started_inLoop part' m ▸ h.counts m.insideLoop
  · have inner := h.ends m.insideLoop within
    simp only [Run.inLoop, insideLoop] at *
    generalize part _ = x at *
    generalize part' _ = y at *
    cases inner with
    | same within => cases x <;> exact .same within
    | stopped count beyond => cases y <;> exact .stopped count beyond

theorem inCall (h : Cuts k part part') (kind : FrameKind) (scope : Address) :
    Cuts k (inCall kind scope part) (inCall kind scope part') := by
  refine ⟨fun m => ?_, fun m within => ?_⟩
  · exact started_inCall part' kind scope m ▸
      h.counts { m.insideCall kind with environment := scope }
  · have inner := h.ends { m.insideCall kind with environment := scope } within
    simp only [Run.inCall, insideCall] at *
    generalize part _ = x at *
    generalize part' _ = y at *
    cases inner with
    | same within => cases x <;> exact .same within
    | stopped count beyond => cases y <;> exact .stopped count beyond

end Cuts

theorem cuts_start (host : Host) (k line : Nat) :
    Cuts k (start (host.interruptedBeyond k) line) (start host.uninterrupted line) := by
  refine ⟨fun m => (started_start _ line m).symm ▸ Nat.le_succ _, fun m within => ?_⟩
  have free : start host.uninterrupted line m = .ok () { m with started := m.started + 1 } := rfl
  rw [free]
  unfold start Host.interruptedBeyond
  by_cases beyond : k < m.started + 1
  · simp only [beyond, decide_true, if_true]
    exact .stopped (by simp only; omega) beyond
  · simp only [beyond, decide_false, Bool.false_eq_true, if_false]
    exact .same (Nat.le_of_not_lt beyond)

theorem lockstep_cuts (host : Host) (k : Nat) :
    Lockstep (host.interruptedBeyond k) host.uninterrupted fun _ p q => Cuts k p q where
  step h := .of_started h.started
  bind h next := h.bind next
  inScope scope h := h.inScope scope
  inLoop h := h.inLoop
  inCall kind scope h := h.inCall kind scope
  start := cuts_start host k
  collectIfDue := .of_started (started_collectIfDue host.uninterrupted)
  checkDepth line := .of_started (started_checkDepth host.uninterrupted line)
  readClock := .of_started fun _ => rfl

theorem cutsWith (host : Host) (k fuel : Nat) :
    LockstepWith (host.interruptedBeyond k) host.uninterrupted (fun _ p q => Cuts k p q) fuel
      fuel :=
  (lockstep_cuts host k).sameFuel (fun _ => .of_started fun _ => rfl) fuel

theorem stricter_interruptedBeyond (host : Host) (k : Nat) :
    (host.interruptedBeyond k).Stricter host.uninterrupted where
  maxDepth limit limited := ⟨limit, limited, Nat.le_refl limit⟩
  interrupts _ h := nomatch h
  collects := rfl
  time := rfl

abbrev interruption (s : Stmt) : Halt := .fault ⟨.interrupted, s.line⟩

theorem exec_interrupted {s : Stmt} (h : host.interrupts (m.started + 1) = true) :
    exec host (fuel + 1) s m = .error (interruption s) { m with started := m.started + 1 } := by
  have stops : start host s.line m =
      .error (interruption s) { m with started := m.started + 1 } := by
    unfold start
    simp only [h, if_true]
  unfold exec
  simp only [bind, EStateM.bind, stops]

theorem interrupts_interruptedBeyond (host : Host) (k : Nat) :
    (host.interruptedBeyond k).interrupts (k + 1) = true := decide_eq_true (Nat.lt_succ_self k)

theorem started_finish (host : Host) (fuel : Nat) (s : Stmt) (m : Machine) :
    m.started < (Moment.finish host.uninterrupted ⟨fuel + 1, .exec s, m⟩).started := by
  have cut := ((cutsWith host m.started (fuel + 1)).exec s).ends m (Nat.le_refl _)
  rw [exec_interrupted (interrupts_interruptedBeyond host m.started)] at cut
  unfold Moment.finish
  rw [Moment.part, leftIn_discard]
  generalize exec host.uninterrupted (fuel + 1) s m = y at *
  cases cut with
  | same => exact Nat.lt_succ_self _
  | stopped _ beyond => exact beyond

namespace Started

variable {s s' : Stmt}

theorem crosses (h : Started host.uninterrupted first k s p) :
    Crosses k (first.part host.uninterrupted) first.machine := by
  obtain ⟨run, ⟨fuel, is⟩, rfl⟩ := h
  refine ⟨(advances_of_moments run).2, ?_⟩
  have inside := started_finish host fuel s p.machine
  rw [← is] at inside
  exact inside.trans_le (finish_of_moments run).2

theorem not_precedes (h : Started host.uninterrupted first k s p)
    (h' : Started host.uninterrupted first k s' q) : ¬ Precedes host.uninterrupted p q := by
  obtain ⟨run, ⟨fuel, is⟩, count⟩ := h
  intro precedes
  refine Nat.lt_irrefl k ?_
  have same := count.trans h'.count.symm
  cases precedes with
  | inside inner =>
      obtain ⟨b, enters, rest⟩ := Relation.TransGen.head'_iff.mp inner
      have behind := started_of_part (congrArg Moment.task is) enters
      have later := (advances_of_moments rest).2
      omega
  | past past =>
      have inside := started_finish host fuel s p.machine
      rw [← is] at inside
      have later := past.2
      omega

theorem unique (h : Started host.uninterrupted first k s p)
    (h' : Started host.uninterrupted first k s' q) : s' = s ∧ q = p := by
  have same : p = q := by
    rcases comparable h.moment h'.moment with same | before | after
    · exact same
    · exact absurd before (h.not_precedes h')
    · exact absurd after (h'.not_precedes h)
  subst same
  obtain ⟨fuel, is⟩ := h.statement
  obtain ⟨fuel', is'⟩ := h'.statement
  cases is.symm.trans is'
  exact ⟨rfl, rfl⟩

end Started

theorem Started.of_stricter {left right : Host} (stricter : left.Stricter right) {s : Stmt}
    (h : Started left first k s p) : Started right first k s p :=
  ⟨moments_of_stricter stricter h.moment, h.statement, h.count⟩

theorem exists_interruption (within : first.machine.started ≤ k)
    (beyond : k < (leftIn (first.part host.uninterrupted first.machine)).started) :
    ∃ s p n, Started host.uninterrupted first k s p ∧
      first.part (host.interruptedBeyond k) first.machine = .error (interruption s) n ∧
      n.started = k + 1 ∧ n.output = p.machine.output := by
  have cut := ((lockstep_cuts host k).part (cutsWith host k) first).ends first.machine within
  obtain ⟨e, n, failed, count⟩ := cut.exists_error beyond
  have crosses : Crosses k (first.part (host.interruptedBeyond k)) first.machine := by
    refine ⟨within, ?_⟩
    rw [failed]
    exact count.ge
  obtain ⟨s, p, started⟩ := exists_started crosses
  obtain ⟨fuel, is⟩ := started.statement
  have fails : p.Fails (host.interruptedBeyond k) (interruption s) p.machine.output := by
    rw [is]
    apply fails_discard.mpr
    refine ⟨_, exec_interrupted ?_, rfl⟩
    rw [started.count]
    exact interrupts_interruptedBeyond host k
  obtain ⟨n', failed', output⟩ := fails_of_moments started.moment fails
  cases failed.symm.trans failed'
  exact ⟨s, p, n, started.of_stricter (stricter_interruptedBeyond host k), failed, count, output⟩

end Run

end ClassScript
