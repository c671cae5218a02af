import ClassScript.Proofs.Run.Entered

namespace ClassScript

/-- There is a loop in the body for an exit from it, and there is a body for a return. -/
def Frame.Admits (frame : Frame) : Signal → Prop
  | .normal => True
  | .break _ | .continue _ => frame.loopDepth ≠ 0
  | .return _ _ => frame.kind ≠ .script

/-- What can come out of a loop. -/
def Frame.LoopAdmits (frame : Frame) : Signal → Prop
  | .normal => True
  | .break _ | .continue _ => False
  | .return _ _ => frame.kind ≠ .script

namespace Frame

variable {frame : Frame} {signal : Signal}

theorem LoopAdmits.admits (h : frame.LoopAdmits signal) : frame.Admits signal := by
  cases signal with
  | normal => trivial
  | «break» line | «continue» line => exact h.elim
  | «return» value line => exact h

theorem Admits.loopAdmits (h : frame.Admits signal) (outside : frame.loopDepth = 0) :
    frame.LoopAdmits signal := by
  cases signal with
  | normal => trivial
  | «break» line | «continue» line => exact h outside
  | «return» value line => exact h

theorem Admits.eq_normal (h : frame.Admits signal) (outside : frame = ⟨.script, 0⟩) :
    signal = .normal := by
  subst outside
  cases signal with
  | normal => rfl
  | «break» line | «continue» line | «return» value line => exact absurd rfl h

end Frame

namespace Run

variable {α : Type} {host : Host} {fuel line : Nat} {m : Machine}
  {admits : Frame → Signal → Prop} {signal : Signal}

def Emits (admits : Frame → Signal → Prop) (part : Run Signal) : Prop :=
  ∀ m, Ends part m (fun signal _ => admits m.frame signal) fun _ _ => True

theorem emits_pure (h : ∀ frame, admits frame signal) : Emits admits (pure signal) :=
  fun m => h m.frame

theorem emits_throw (e : Halt) : Emits admits (throw e) := fun _ => trivial

theorem emits_normal : Emits Frame.Admits (pure .normal) := emits_pure fun _ => trivial

theorem Restores.emits {part : Run α} {rest : α → Run Signal} (h : Restores part)
    (next : ∀ a, Emits admits (rest a)) : Emits admits (part >>= rest) := by
  intro m
  apply ends_bind.mpr
  apply (h m).imp
  · intro a n returns
    rw [← returns.frame]
    exact next a n
  · exact fun _ _ _ => trivial

theorem Emits.bind {admits' : Frame → Signal → Prop} {part : Run Signal}
    {rest : Signal → Run Signal} (h : Emits admits part) (restores : Restores part)
    (next : ∀ signal n, admits n.frame signal →
      Ends (rest signal) n (fun signal _ => admits' n.frame signal) fun _ _ => True) :
    Emits admits' (part >>= rest) := by
  intro m
  apply ends_bind.mpr
  apply ((h m).and (restores m)).imp
  · intro signal n hn
    rw [← hn.2.frame] at hn ⊢
    exact next signal n hn.1
  · exact fun _ _ _ => trivial

theorem Emits.inScope {part : Run Signal} (h : Emits admits part) (scope : Address) :
    Emits admits (inScope scope part) :=
  fun m => ends_inScope.mpr (h { m with environment := scope })

theorem Emits.inLoop {part : Run Signal} (h : Emits Frame.LoopAdmits part) :
    Emits Frame.LoopAdmits (inLoop part) := by
  intro m
  apply ends_inLoop.mpr
  apply (h m.insideLoop).imp
  · intro signal n admitted
    cases signal <;> exact admitted
  · exact fun _ _ _ => trivial

theorem emits_leaveLoop {exit : LoopExit} (h : ∀ frame, frame.loopDepth ≠ 0 →
    Frame.Admits frame signal) : Emits Frame.Admits (leaveLoop exit line signal) := by
  intro m
  apply ends_bind.mpr
  apply ends_get.mpr
  split
  · exact emits_throw _ m
  · rename_i inLoop
    exact h m.frame (by simpa using inLoop)

theorem ends_checkReturn (keyword : Token) (value : Option Expr) :
    Ends (checkReturn keyword value) m (fun _ n => n = m ∧ m.frame.kind ≠ .script)
      fun _ _ => True := by
  apply ends_bind.mpr
  apply ends_get.mpr
  split
  · trivial
  · rename_i isInitializer
    split
    · trivial
    · exact ⟨rfl, by simp [isInitializer]⟩
  · rename_i isFunction
    exact ⟨rfl, by simp [isFunction]⟩

theorem emits_return (keyword : Token) {value : Option Expr} {part : Run Value}
    (restores : Restores part) :
    Emits Frame.Admits (do
      checkReturn keyword value
      let v ← part
      return .return v keyword.line) := by
  intro m
  apply ends_bind.mpr
  apply (ends_checkReturn keyword value).imp
  · intro _ n hn
    obtain ⟨rfl, inBody⟩ := hn
    apply ends_bind.mpr
    exact (restores n).imp (fun _ _ _ => inBody) fun _ _ _ => trivial
  · exact fun _ _ _ => trivial

structure EmitsWith (host : Host) (fuel : Nat) : Prop where
  exec : ∀ s, Emits Frame.Admits (exec host fuel s)
  execAll : ∀ ss, Emits Frame.Admits (execAll host fuel ss)
  execLoop : ∀ condition body increment,
    Emits Frame.LoopAdmits (execLoop host fuel condition body increment)

theorem emits_exec (ih : EmitsWith host fuel) (s : Stmt) :
    Emits Frame.Admits (exec host (fuel + 1) s) := by
  have restores := restoresWith host fuel
  apply (restores_start host s.line).emits
  intro _
  apply (restores_collectIfDue host).emits
  intro _
  cases s with
  | expression e => exact (restores.eval e).discard.emits fun _ => emits_normal
  | print e =>
      apply (restores.eval e).emits
      intro v
      exact (restores_print v).emits fun _ => emits_normal
  | varDecl name initializer =>
      cases initializer with
      | none => exact (restores_define _ _).emits fun _ => emits_normal
      | some e =>
          apply (restores.eval e).emits
          intro v
          exact (restores_define _ v).emits fun _ => emits_normal
  | block body line =>
      apply restores_get.emits
      intro m
      apply (restores_newScope _).emits
      intro scope
      exact (ih.execAll body).inScope scope
  | branch condition thenBranch elseBranch =>
      apply (restores.eval condition).emits
      intro v
      split
      · exact ih.exec thenBranch
      · cases elseBranch with
        | none => exact emits_normal
        | some other => exact ih.exec other
  | loop condition body increment =>
      intro m
      apply ((ih.execLoop condition body increment).inLoop m).imp
      · exact fun _ _ admitted => Frame.LoopAdmits.admits admitted
      · exact fun _ _ _ => trivial
  | funDecl decl => exact (restores_declareFunction decl).emits fun _ => emits_normal
  | classDecl decl => exact (restores_declareClass decl).emits fun _ => emits_normal
  | «return» keyword value =>
      cases value with
      | none => exact emits_return keyword (restores_pure .nil)
      | some e => exact emits_return keyword (restores.eval e)
  | «break» keyword => exact emits_leaveLoop fun _ inLoop => inLoop
  | «continue» keyword => exact emits_leaveLoop fun _ inLoop => inLoop

theorem emits_execAll (ih : EmitsWith host fuel) (ss : List Stmt) :
    Emits Frame.Admits (execAll host (fuel + 1) ss) := by
  cases ss with
  | nil => exact emits_normal
  | cons s rest =>
      apply (ih.exec s).bind ((restoresWith host fuel).exec s)
      intro signal n admitted
      split
      · exact ih.execAll rest n
      · exact admitted

theorem emits_execLoop (ih : EmitsWith host fuel) (condition : Expr) (body : Stmt)
    (increment : Option Expr) :
    Emits Frame.LoopAdmits (execLoop host (fuel + 1) condition body increment) := by
  have restores := restoresWith host fuel
  apply (restores.eval condition).emits
  intro v
  split
  · apply (ih.exec body).bind (restores.exec body)
    intro signal n admitted
    split
    · trivial
    · exact admitted
    · cases increment with
      | none => exact ih.execLoop condition body none n
      | some e =>
          exact (restores.eval e).discard.emits (fun _ => ih.execLoop condition body (some e)) n
  · exact emits_pure fun _ => trivial

theorem emitsWith (host : Host) (fuel : Nat) : EmitsWith host fuel := by
  induction fuel with
  | zero => constructor <;> intros <;> exact emits_throw _
  | succ fuel ih =>
      exact {
        exec := emits_exec ih
        execAll := emits_execAll ih
        execLoop := emits_execLoop ih }

theorem emits_loop (host : Host) (fuel : Nat) (condition : Expr) (body : Stmt)
    (increment : Option Expr) :
    Emits Frame.LoopAdmits (exec host fuel (.loop condition body increment)) := by
  cases fuel with
  | zero => exact emits_throw _
  | succ fuel =>
      apply (restores_start host _).emits
      intro _
      apply (restores_collectIfDue host).emits
      intro _
      exact ((emitsWith host fuel).execLoop condition body increment).inLoop

theorem emits_body (host : Host) (fuel : Nat) (kind : FrameKind) (scope : Address)
    (body : List Stmt) :
    Ends (inCall kind scope (execAll host fuel body)) m
      (fun signal _ => Frame.LoopAdmits ⟨kind, 0⟩ signal) fun _ _ => True := by
  apply ends_inCall.mpr
  apply ((emitsWith host fuel).execAll body { m.insideCall kind with environment := scope }).imp
  · exact fun _ _ admitted => admitted.loopAdmits rfl
  · exact fun _ _ _ => trivial

end Run

end ClassScript
