import ClassScript.Proofs.Grammar.Unnumbered
import ClassScript.Proofs.Run.Signals

namespace ClassScript

mutual

/-- There is a `continue` for the loop around the statement. -/
def Stmt.continues : Stmt → Bool
  | .block body _ => stmtsContinue body
  | .branch _ thenBranch elseBranch => thenBranch.continues || optionalStmtContinues elseBranch
  | .continue _ => true
  | _ => false

def stmtsContinue : List Stmt → Bool
  | [] => false
  | s :: ss => s.continues || stmtsContinue ss

def optionalStmtContinues : Option Stmt → Bool
  | none => false
  | some s => s.continues

end

mutual

theorem continues_unnumbered : (s : Stmt) → s.unnumbered.continues = s.continues
  | .block body _ => stmtsContinue_unnumbered body
  | .branch _ thenBranch elseBranch => by
      rw [Stmt.unnumbered, Stmt.continues, Stmt.continues, continues_unnumbered thenBranch,
        optionalStmtContinues_unnumbered elseBranch]
  | .expression _ | .print _ | .varDecl _ _ | .loop _ _ _ | .funDecl _ | .classDecl _
  | .return _ _ | .break _ | .continue _ => rfl

theorem stmtsContinue_unnumbered :
    (ss : List Stmt) → stmtsContinue (stmtsUnnumbered ss) = stmtsContinue ss
  | [] => rfl
  | s :: ss => by
      rw [stmtsUnnumbered, stmtsContinue, stmtsContinue, continues_unnumbered s,
        stmtsContinue_unnumbered ss]

theorem optionalStmtContinues_unnumbered :
    (s : Option Stmt) → optionalStmtContinues (optionalStmtUnnumbered s) = optionalStmtContinues s
  | none => rfl
  | some s => continues_unnumbered s

end

def MayContinue (continues : Bool) (_ : Frame) (signal : Signal) : Prop :=
  ∀ line, signal = .continue line → continues = true

namespace Run

variable {α : Type} {host : Host} {fuel line : Nat} {m n : Machine} {continues : Bool}
  {part : Run Signal} {signal : Signal}

theorem emits_other (other : ∀ line, signal ≠ .continue line) :
    Emits (MayContinue continues) (pure signal) :=
  emits_pure fun _ line eq => absurd eq (other line)

theorem Emits.mayContinue {other : Bool} (h : Emits (MayContinue continues) part)
    (imp : continues = true → other = true) : Emits (MayContinue other) part :=
  fun m => (h m).imp (fun _ _ may line eq => imp (may line eq)) fun _ _ _ => trivial

theorem emits_leave {exit : LoopExit} (h : Emits (MayContinue continues) (pure signal)) :
    Emits (MayContinue continues) (leaveLoop exit line signal) := by
  apply restores_get.emits
  intro m
  split
  · exact emits_throw _
  · exact h

structure MayContinueWith (host : Host) (fuel : Nat) : Prop where
  exec : ∀ s, Emits (MayContinue s.continues) (exec host fuel s)
  execAll : ∀ ss, Emits (MayContinue (stmtsContinue ss)) (execAll host fuel ss)

theorem mayContinue_exec (ih : MayContinueWith host fuel) (s : Stmt) :
    Emits (MayContinue s.continues) (exec host (fuel + 1) s) := by
  have restores := restoresWith host fuel
  have finished {continues : Bool} : Emits (MayContinue continues) (pure .normal) :=
    emits_other nofun
  apply (restores_start host s.line).emits
  intro _
  apply (restores_collectIfDue host).emits
  intro _
  cases s with
  | expression e => exact (restores.eval e).discard.emits fun _ => finished
  | print e =>
      apply (restores.eval e).emits
      intro v
      exact (restores_print v).emits fun _ => finished
  | varDecl name initializer =>
      cases initializer with
      | none => exact (restores_define _ _).emits fun _ => finished
      | some e =>
          apply (restores.eval e).emits
          intro v
          exact (restores_define _ v).emits fun _ => finished
  | block body line =>
      apply restores_get.emits
      intro m
      apply (restores_newScope _).emits
      intro scope
      exact (ih.execAll body).inScope scope
  | branch condition thenBranch elseBranch =>
      apply (restores.eval condition).emits
      intro v
      split
      · exact (ih.exec thenBranch).mayContinue fun own => Bool.or_eq_true_iff.mpr (.inl own)
      · cases elseBranch with
        | none => exact finished
        | some other =>
            exact (ih.exec other).mayContinue fun own => Bool.or_eq_true_iff.mpr (.inr own)
  | loop condition body increment =>
      intro m
      apply ((emitsWith host fuel).execLoop condition body increment).inLoop m |>.imp
      · rintro _ _ admitted line rfl
        exact admitted.elim
      · exact fun _ _ _ => trivial
  | funDecl decl => exact (restores_declareFunction decl).emits fun _ => finished
  | classDecl decl => exact (restores_declareClass decl).emits fun _ => finished
  | «return» keyword value =>
      apply (restores_checkReturn keyword value).emits
      intro _
      cases value with
      | none => exact emits_other nofun
      | some e => exact (restores.eval e).emits fun v => emits_other nofun
  | «break» keyword => exact emits_leave (emits_other nofun)
  | «continue» keyword => exact emits_leave (emits_pure fun _ _ _ => rfl)

theorem mayContinue_execAll (ih : MayContinueWith host fuel) (ss : List Stmt) :
    Emits (MayContinue (stmtsContinue ss)) (execAll host (fuel + 1) ss) := by
  cases ss with
  | nil => exact emits_other nofun
  | cons s rest =>
      apply (ih.exec s).bind ((restoresWith host fuel).exec s)
      intro signal n may
      split
      · exact (ih.execAll rest).mayContinue (fun own => Bool.or_eq_true_iff.mpr (.inr own)) n
      · exact fun line eq => Bool.or_eq_true_iff.mpr (.inl (may line eq))

theorem mayContinueWith (host : Host) (fuel : Nat) : MayContinueWith host fuel := by
  induction fuel with
  | zero => constructor <;> intros <;> exact emits_throw _
  | succ fuel ih => exact ⟨mayContinue_exec ih, mayContinue_execAll ih⟩

theorem exec_continue {s : Stmt} (absent : s.continues = false)
    (run : exec host fuel s m = .ok signal n) : signal ≠ .continue line := by
  rintro rfl
  have may := (ends_ok_iff run).mp ((mayContinueWith host fuel).exec s m)
  rw [may line rfl] at absent
  cases absent

end Run

end ClassScript
