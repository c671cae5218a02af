import ClassScript.Proofs.Ends
import ClassScript.Machine.Eval

namespace ClassScript.Run

variable {α β : Type} {m : Machine} {Q R : α → Machine → Prop} {E F : Halt → Machine → Prop}

theorem discard_eq (part : Run α) :
    (discard part : Run PUnit) = part >>= fun _ => pure ⟨⟩ := by
  funext m
  simp only [Functor.discard, Functor.mapConst, Function.comp, EStateM.map, Bind.bind,
    EStateM.bind]
  cases part m <;> rfl

theorem ends_ofExcept {r : Except RuntimeError α} :
    Ends (ofExcept r) m Q E ↔ (∀ a, r = .ok a → Q a m) ∧ ∀ e, r = .error e → E (.fault e) m := by
  cases r <;> simp [ofExcept, ends_pure, ends_throw]

theorem ends_inScope {scope : Address} {part : Run α} :
    Ends (inScope scope part) m Q E ↔
      Ends part { m with environment := scope }
        (fun a n => Q a { n with environment := m.environment })
        (fun e n => E e { n with environment := m.environment }) := by
  simp only [Ends, inScope]
  cases part { m with environment := scope } <;> rfl

theorem ends_inLoop {part : Run α} :
    Ends (inLoop part) m Q E ↔
      Ends part { m with frame := { m.frame with loopDepth := m.frame.loopDepth + 1 } }
        (fun a n => Q a { n with frame := m.frame })
          (fun e n => E e { n with frame := m.frame }) := by
  simp only [Ends, inLoop]
  cases part { m with frame := { m.frame with loopDepth := m.frame.loopDepth + 1 } } <;> rfl

theorem ends_inCall {kind : FrameKind} {scope : Address} {part : Run α} :
    Ends (inCall kind scope part) m Q E ↔
      Ends part { m with environment := scope, frame := ⟨kind, 0⟩, callDepth := m.callDepth + 1 }
        (fun a n => Q a
          { n with environment := m.environment, frame := m.frame, callDepth := m.callDepth })
        (fun e n => E e
          { n with environment := m.environment, frame := m.frame, callDepth := m.callDepth }) := by
  simp only [Ends, inCall]
  cases part { m with environment := scope, frame := ⟨kind, 0⟩, callDepth :=
    m.callDepth + 1 } <;> rfl

theorem ends_newScope {parent : Address} {Q : Address → Machine → Prop} :
    Ends (newScope parent) m Q E ↔
      Q (m.store.newScope parent).1 { m with store := (m.store.newScope parent).2 } := Iff.rfl

theorem ends_start {host : Host} {line : Nat} {Q : Unit → Machine → Prop} :
    Ends (start host line) m Q E ↔
      if host.interrupts (m.started + 1) then
        E (.fault ⟨.interrupted, line⟩) { m with started := m.started + 1 }
      else Q () { m with started := m.started + 1 } := by
  unfold Ends start
  dsimp only
  cases host.interrupts (m.started + 1) <;> rfl

theorem ends_collectIfDue {host : Host} {Q : Unit → Machine → Prop} :
    Ends (collectIfDue host) m Q E ↔
      if m.callDepth == 0 && host.collects m.started m.store then
        Q () { m with store := m.store.collect m.environment }
      else Q () m := by
  unfold Ends collectIfDue
  cases m.callDepth == 0 && host.collects m.started m.store <;> rfl

end ClassScript.Run
