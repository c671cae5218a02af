import ClassScript.Proofs.Run.Lockstep
import ClassScript.Proofs.Run.Restored

namespace ClassScript.Run

open Machine

variable {α β : Type} {host : Host} {fuel fuel' : Nat} {m : Machine}

def Continues (p q : Run α) : Prop := ∀ m, (∃ n, p m = .error .outOfFuel n) ∨ p m = q m

theorem Continues.refl (p : Run α) : Continues p p := fun _ => .inr rfl

theorem Continues.fault {p q : Run α} {e : RuntimeError} {n : Machine} (h : Continues p q)
    (failed : p m = .error (.fault e) n) : q m = .error (.fault e) n := by
  rcases h m with ⟨o, exhausted⟩ | same
  · cases exhausted.symm.trans failed
  · exact same.symm.trans failed

theorem Continues.bind {p q : Run α} {f g : α → Run β} (h : Continues p q)
    (next : ∀ a, Continues (f a) (g a)) : Continues (p >>= f) (q >>= g) := by
  intro m
  simp only [Bind.bind, EStateM.bind]
  rcases h m with ⟨n, exhausted⟩ | same
  · rw [exhausted]
    exact .inl ⟨n, rfl⟩
  · rw [← same]
    cases p m with
    | ok a n => exact next a n
    | error e n => exact .inr rfl

theorem Continues.inScope {p q : Run α} (h : Continues p q) (scope : Address) :
    Continues (inScope scope p) (inScope scope q) := by
  intro m
  simp only [Run.inScope]
  rcases h { m with environment := scope } with ⟨n, exhausted⟩ | same
  · rw [exhausted]
    exact .inl ⟨_, rfl⟩
  · rw [same]
    exact .inr rfl

theorem Continues.inLoop {p q : Run α} (h : Continues p q) :
    Continues (inLoop p) (inLoop q) := by
  intro m
  simp only [Run.inLoop]
  rcases h m.insideLoop with ⟨n, exhausted⟩ | same
  · unfold insideLoop at exhausted
    rw [exhausted]
    exact .inl ⟨_, rfl⟩
  · unfold insideLoop at same
    rw [same]
    exact .inr rfl

theorem Continues.inCall {p q : Run α} (h : Continues p q) (kind : FrameKind) (scope : Address) :
    Continues (inCall kind scope p) (inCall kind scope q) := by
  intro m
  simp only [Run.inCall]
  rcases h { m.insideCall kind with environment := scope } with ⟨n, exhausted⟩ | same
  · unfold insideCall at exhausted
    rw [exhausted]
    exact .inl ⟨_, rfl⟩
  · unfold insideCall at same
    rw [same]
    exact .inr rfl

theorem lockstep_continues (host : Host) : Lockstep host host fun _ p q => Continues p q where
  step _ := .refl _
  bind h next := h.bind next
  inScope scope h := h.inScope scope
  inLoop h := h.inLoop
  inCall kind scope h := h.inCall kind scope
  start _ := .refl _
  collectIfDue := .refl _
  checkDepth _ := .refl _
  readClock := .refl _

theorem continuesWith (host : Host) (le : fuel ≤ fuel') :
    LockstepWith host host (fun _ p q => Continues p q) fuel fuel' := by
  induction fuel generalizing fuel' with
  | zero => constructor <;> intros <;> exact fun m => .inl ⟨m, rfl⟩
  | succ fuel ih =>
      cases fuel' with
      | zero => exact absurd le (Nat.not_succ_le_zero fuel)
      | succ fuel' => exact (lockstep_continues host).next (ih (Nat.le_of_succ_le_succ le))

theorem continues_program (host : Host) (le : fuel ≤ fuel') (ss : List Stmt) :
    Continues (program host fuel ss) (program host fuel' ss) :=
  (lockstep_continues host).program (continuesWith host le) ss

end ClassScript.Run
