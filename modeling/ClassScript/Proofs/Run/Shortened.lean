import ClassScript.Proofs.Run.Lockstep
import ClassScript.Proofs.Run.Order

namespace ClassScript

/-- The left host limits calls and interrupts at least as much as the right one. -/
structure Host.Stricter (left right : Host) : Prop where
  maxDepth : ∀ limit, right.maxDepth = some limit → ∃ less, left.maxDepth = some less ∧ less ≤ limit
  interrupts : ∀ started, right.interrupts started = true → left.interrupts started = true
  collects : left.collects = right.collects
  time : left.time = right.time

namespace Run

variable {α β : Type} {host left right : Host} {fuel fuel' line : Nat} {m n : Machine}

def Printed (m n : Machine) : Prop := m.output.toList <+: n.output.toList

theorem Printed.refl (m : Machine) : Printed m m := List.prefix_rfl

theorem Printed.trans {o : Machine} (h : Printed m n) (h' : Printed n o) : Printed m o :=
  List.IsPrefix.trans h h'

def Prints (part : Run α) : Prop := ∀ m, Printed m (leftIn (part m))

theorem leftIn_bind (part : Run α) (rest : α → Run β) (m : Machine) :
    leftIn ((part >>= rest) m) =
      match part m with
      | .ok a n => leftIn (rest a n)
      | .error _ n => n := by
  simp only [bind, EStateM.bind]
  cases part m <;> rfl

theorem Prints.bind {part : Run α} {rest : α → Run β} (h : Prints part)
    (next : ∀ a, Prints (rest a)) : Prints (part >>= rest) := by
  intro m
  have first := h m
  rw [leftIn_bind]
  cases run : part m with
  | ok a n =>
      rw [run] at first
      exact first.trans (next a n)
  | error e n =>
      rw [run] at first
      exact first

theorem Prints.inScope {part : Run α} (h : Prints part) (scope : Address) :
    Prints (inScope scope part) := by
  intro m
  have inner := h { m with environment := scope }
  unfold Run.inScope
  dsimp only
  cases run : part { m with environment := scope } <;> rw [run] at inner <;> exact inner

theorem Prints.inLoop {part : Run α} (h : Prints part) : Prints (inLoop part) := by
  intro m
  have inner := h m.insideLoop
  unfold Run.inLoop
  change Printed m (leftIn (match part m.insideLoop with | .ok a n => _ | .error e n => _))
  cases run : part m.insideLoop <;> rw [run] at inner <;> exact inner

theorem Prints.inCall {part : Run α} (h : Prints part) (kind : FrameKind) (scope : Address) :
    Prints (inCall kind scope part) := by
  intro m
  have inner := h { m.insideCall kind with environment := scope }
  unfold Run.inCall
  change Printed m
    (leftIn (match part { m.insideCall kind with environment := scope } with
      | .ok a n => _
      | .error e n => _))
  cases run : part { m.insideCall kind with environment := scope } <;> rw [run] at inner <;>
    exact inner

theorem Primitive.prints {plain : Bool} {part : Run α} (h : Primitive plain part) :
    Prints part := by
  intro m
  cases h with
  | print value => exact ⟨[value.display], by simp [leftIn, Run.print]⟩
  | lookup o name =>
      unfold Run.lookup
      dsimp only
      split <;> exact .refl m
  | assign o value =>
      unfold Run.assign
      dsimp only
      split <;> exact .refl m
  | readProperty id object name line =>
      unfold Run.readProperty
      dsimp only
      split <;> exact .refl m
  | _ => exact .refl m

theorem prints_start (host : Host) (line : Nat) : Prints (start host line) := by
  intro m
  unfold start
  dsimp only
  split <;> exact .refl m

theorem prints_collectIfDue (host : Host) : Prints (collectIfDue host) := by
  intro m
  unfold collectIfDue
  split <;> exact .refl m

theorem prints_checkDepth (host : Host) (line : Nat) : Prints (checkDepth host line) := by
  unfold checkDepth
  cases host.maxDepth with
  | none => exact (Primitive.pure ()).prints
  | some limit =>
      apply Primitive.get.prints.bind
      intro m
      split
      · exact fun m => .refl m
      · exact (Primitive.pure ()).prints

theorem lockstep_prints (host : Host) : Lockstep host host fun _ p _ => Prints p where
  step h := h.prints
  bind h next := h.bind next
  inScope scope h := h.inScope scope
  inLoop h := h.inLoop
  inCall kind scope h := h.inCall kind scope
  start := prints_start host
  collectIfDue := prints_collectIfDue host
  checkDepth := prints_checkDepth host
  readClock := fun m => .refl m

theorem printsWith (host : Host) (fuel : Nat) :
    LockstepWith host host (fun _ p _ => Prints p) fuel fuel :=
  (lockstep_prints host).sameFuel (fun _ m => .refl m) fuel

/-- The left run ends as the right one, or it stops first and has printed no more. -/
inductive Shortened (stops : Halt → Prop) :
    EStateM.Result Halt Machine α → EStateM.Result Halt Machine α → Prop
  | same {x} : Shortened stops x x
  | stopped {e m y} : stops e → Printed m (leftIn y) → Shortened stops (.error e m) y

variable {stops : Halt → Prop} {x y : EStateM.Result Halt Machine α} {a : α}

theorem Shortened.ok (h : Shortened stops x y) (run : x = .ok a n) : y = .ok a n := by
  cases h with
  | same => exact run
  | stopped => cases run

theorem Shortened.of_ok (h : Shortened stops x y) (run : y = .ok a n) :
    x = .ok a n ∨ ∃ e m, stops e ∧ x = .error e m := by
  cases h with
  | same => exact .inl run
  | stopped stop _ => exact .inr ⟨_, _, stop, rfl⟩

structure Shortens (stops : Halt → Prop) (p q : Run α) : Prop where
  prints : Prints q
  ends : ∀ m, Shortened stops (p m) (q m)

theorem Shortens.of_prints {p : Run α} (h : Prints p) : Shortens stops p p := ⟨h, fun _ => .same⟩

theorem Shortens.bind {p q : Run α} {f g : α → Run β} (h : Shortens stops p q)
    (next : ∀ a, Shortens stops (f a) (g a)) : Shortens stops (p >>= f) (q >>= g) := by
  refine ⟨h.prints.bind fun a => (next a).prints, fun m => ?_⟩
  have first := h.ends m
  have printed := leftIn_bind q g m
  simp only [Bind.bind, EStateM.bind] at printed ⊢
  generalize p m = x at *
  generalize q m = y at *
  cases first with
  | same =>
      cases x with
      | ok a n => exact (next a).ends n
      | error e n => exact .same
  | stopped stop before =>
      refine .stopped stop ?_
      rw [printed]
      cases y with
      | ok a n => exact before.trans ((next a).prints n)
      | error e n => exact before

theorem Shortens.inScope {p q : Run α} (h : Shortens stops p q) (scope : Address) :
    Shortens stops (inScope scope p) (inScope scope q) := by
  refine ⟨h.prints.inScope scope, fun m => ?_⟩
  have inner := h.ends { m with environment := scope }
  simp only [Run.inScope]
  generalize p _ = x at *
  generalize q _ = y at *
  cases inner with
  | same => exact .same
  | stopped stop before => cases y <;> exact .stopped stop before

theorem Shortens.inLoop {p q : Run α} (h : Shortens stops p q) :
    Shortens stops (inLoop p) (inLoop q) := by
  refine ⟨h.prints.inLoop, fun m => ?_⟩
  have inner := h.ends m.insideLoop
  simp only [Run.inLoop, Machine.insideLoop] at *
  generalize p _ = x at *
  generalize q _ = y at *
  cases inner with
  | same => exact .same
  | stopped stop before => cases y <;> exact .stopped stop before

theorem Shortens.inCall {p q : Run α} (h : Shortens stops p q) (kind : FrameKind)
    (scope : Address) : Shortens stops (inCall kind scope p) (inCall kind scope q) := by
  refine ⟨h.prints.inCall kind scope, fun m => ?_⟩
  have inner := h.ends { m.insideCall kind with environment := scope }
  simp only [Run.inCall, Machine.insideCall] at *
  generalize p _ = x at *
  generalize q _ = y at *
  cases inner with
  | same => exact .same
  | stopped stop before => cases y <;> exact .stopped stop before

structure Stops (stops : Halt → Prop) (left right : Host) : Prop where
  overflow : left.maxDepth = right.maxDepth ∨ ∀ line, stops (.fault ⟨.stackOverflow, line⟩)
  interrupted : left.interrupts = right.interrupts ∨ ∀ line, stops (.fault ⟨.interrupted, line⟩)

theorem checkDepth_unlimited (unlimited : host.maxDepth = none) (line : Nat) (m : Machine) :
    checkDepth host line m = .ok () m := by
  unfold checkDepth
  rw [unlimited]
  rfl

theorem checkDepth_limited {limit : Nat} (limited : host.maxDepth = some limit) (line : Nat)
    (m : Machine) :
    checkDepth host line m =
      if limit ≤ m.callDepth then .error (.fault ⟨.stackOverflow, line⟩) m else .ok () m := by
  unfold checkDepth
  rw [limited]
  change (if limit ≤ m.callDepth then fail .stackOverflow line else pure () : Run Unit) m = _
  by_cases overrun : limit ≤ m.callDepth
  · rw [if_pos overrun, if_pos overrun]
    rfl
  · rw [if_neg overrun, if_neg overrun]
    rfl

theorem shortens_checkDepth (stricter : left.Stricter right) (all : Stops stops left right)
    (line : Nat) : Shortens stops (checkDepth left line) (checkDepth right line) := by
  refine ⟨prints_checkDepth right line, fun m => ?_⟩
  rcases all.overflow with same | stop
  · simp only [checkDepth, same]
    exact .same
  cases less : left.maxDepth with
  | none =>
      cases more : right.maxDepth with
      | none =>
          rw [checkDepth_unlimited less, checkDepth_unlimited more]
          exact .same
      | some limit =>
          obtain ⟨_, limited, -⟩ := stricter.maxDepth limit more
          rw [less] at limited
          cases limited
  | some limit =>
      by_cases overrun : limit ≤ m.callDepth
      · rw [checkDepth_limited less, if_pos overrun]
        exact .stopped (stop line) (prints_checkDepth right line m)
      rw [checkDepth_limited less, if_neg overrun]
      cases more : right.maxDepth with
      | none =>
          rw [checkDepth_unlimited more]
          exact .same
      | some limit' =>
          obtain ⟨_, limited, le⟩ := stricter.maxDepth limit' more
          rw [less] at limited
          cases limited
          have below : ¬ limit' ≤ m.callDepth := by omega
          rw [checkDepth_limited more, if_neg below]
          exact .same

theorem shortens_start (stricter : left.Stricter right) (all : Stops stops left right)
    (line : Nat) : Shortens stops (start left line) (start right line) := by
  refine ⟨prints_start right line, fun m => ?_⟩
  unfold start
  rcases all.interrupted with same | stop
  · rw [same]
    exact .same
  dsimp only
  cases less : left.interrupts (m.started + 1) with
  | false =>
      cases more : right.interrupts (m.started + 1) with
      | false => exact .same
      | true =>
          rw [stricter.interrupts _ more] at less
          cases less
  | true =>
      refine .stopped (stop line) ?_
      split <;> exact .refl m

theorem lockstep_shortens (stricter : left.Stricter right) (all : Stops stops left right) :
    Lockstep left right fun _ p q => Shortens stops p q where
  step h := .of_prints h.prints
  bind h next := h.bind next
  inScope scope h := h.inScope scope
  inLoop h := h.inLoop
  inCall kind scope h := h.inCall kind scope
  start := shortens_start stricter all
  collectIfDue := by
    have same : collectIfDue left = collectIfDue right := by
      unfold collectIfDue
      rw [stricter.collects]
    rw [same]
    exact .of_prints (prints_collectIfDue right)
  checkDepth := shortens_checkDepth stricter all
  readClock := by
    have same : readClock left = readClock right := by
      unfold readClock
      rw [stricter.time]
    rw [same]
    exact .of_prints fun m => .refl m

theorem shortenedWith (stricter : left.Stricter right) (all : Stops stops left right)
    (fuel : Nat) : LockstepWith left right (fun _ p q => Shortens stops p q) fuel fuel :=
  (lockstep_shortens stricter all).sameFuel (fun _ => .of_prints fun m => .refl m) fuel

end Run

end ClassScript
