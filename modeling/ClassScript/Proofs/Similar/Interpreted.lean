import ClassScript.Proofs.Collection.Invisible
import ClassScript.Proofs.Session.Composition
import ClassScript.Proofs.Similar.Blocks
import ClassScript.Proofs.Similar.Symmetry

namespace ClassScript

open Binding Store World

/-- The second run goes at least as far as the first one: it ends in the same way, or the first one
ran out of fuel and printed the beginning of what the second one prints. -/
structure GoesAsFar (one other : Except Diagnostic Unit × Machine) : Prop where
  ends : one.1 ≠ .error .outOfFuel → other.1 = one.1 ∧ other.2.output = one.2.output
  prints : one.2.output.toList <+: other.2.output.toList

theorem GoesAsFar.congr {one other one' other' : Except Diagnostic Unit × Machine}
    (h : GoesAsFar one other) (same : one'.1 = one.1 ∧ one'.2.output = one.2.output)
    (same' : other'.1 = other.1 ∧ other'.2.output = other.2.output) : GoesAsFar one' other' where
  ends := by
    rw [same.1, same.2, same'.1, same'.2]
    exact h.ends
  prints := by
    rw [same.2, same'.2]
    exact h.prints

theorem GoesAsFar.antisymm {one other : Except Diagnostic Unit × Machine}
    (h : GoesAsFar one other) (h' : GoesAsFar other one) :
    other.1 = one.1 ∧ other.2.output = one.2.output := by
  by_cases ended : one.1 = .error .outOfFuel
  · have same : other.1 = one.1 := by
      by_contra differ
      exact differ (h'.ends (ended ▸ differ)).1.symm
    exact ⟨same, Array.toList_inj.mp (h'.prints.eq_of_length_le h.prints.length_le)⟩
  · exact h.ends ended

namespace Run

variable {T : Twins} {w : World} {a b : Address} {Γ : ScopePairs} {host : Host} {k fuel fuel' : Nat}

theorem parallel_program (suits : host.Suits T) (one : 1 ≤ k) (three : T.wraps → 3 ≤ k)
    (enough : k * fuel ≤ fuel') (chain : w.Chain Γ a b) {ss ss' : List Stmt}
    (similar : T.Stmts Γ ss ss') :
    Parallel T w a b (fun _ _ _ => True) (program host fuel ss) (program host fuel' ss') := by
  induction ss generalizing w Γ ss' with
  | nil =>
      cases similar
      exact (steps_pure trivial).parallel
  | cons s rest ih =>
      cases similar with
      | @cons _ _ s' _ rest' first others =>
          apply ((parallelWith suits one three fuel).exec enough chain first).bind
          · intro signal
            cases signal with
            | normal => exact (lockstep_prints host).program (printsWith host fuel') rest'
            | «break» | «continue» | «return» => exact Primitive.prints (.fail _ nofun)
          intro w₁ x y _ ⟨signals, inner⟩
          cases signals with
          | normal => exact ih inner others
          | «break» | «continue» | «return» => exact (steps_fail _ _).parallel

end Run

def World.fresh : World where
  left := Machine.initial.store
  right := Machine.initial.store
  linked a b ρ := a = globals ∧ b = globals ∧ ρ = .refl String

theorem consistent_fresh (T : Twins) : World.fresh.Consistent T where
  unique := by
    rintro a b ρ a' b' ρ' ⟨rfl, rfl, rfl⟩ ⟨rfl, rfl, rfl⟩
    exact ⟨Iff.rfl, fun _ => rfl⟩
  cells := by
    rintro a b ρ ⟨rfl, rfl, rfl⟩
    refine ⟨_, _, rfl, rfl, .scope fun name => ?_⟩
    rw [Bindings.get?_set, Equiv.refl_apply, Bindings.get?_set]
    split
    · exact .some .clock
    · exact .none
  globals := ⟨rfl, rfl, rfl⟩
  globalScope := ⟨_, _, rfl⟩

theorem agree_fresh (d d' : Distances) (wraps : Prop) :
    Agree ⟨d, d', wraps⟩ World.fresh globals globals (Machine.initial.knowing d)
      (Machine.initial.knowing d') where
  consistent := consistent_fresh _
  left := rfl
  right := rfl
  environment := rfl
  environment' := rfl
  distances := rfl
  distances' := rfl
  frame := rfl
  callDepth := rfl
  output := rfl
  readings := rfl
  started := .inr rfl

namespace Machine

variable {host : Host} {k fuel fuel' : Nat} {wraps : Prop} {program program' : List Stmt}
  {d d' : Distances}

theorem goesAsFar_concluded {T : Twins} {w : World} {a b : Address}
    {x y : EStateM.Result Halt Machine Unit}
    (ends : Run.EndsAlike T w a b (fun _ _ _ => True) x y) :
    GoesAsFar (concluded x) (concluded y) := by
  cases ends with
  | step ends =>
      cases ends with
      | ok _ agree _ =>
          refine ⟨fun _ => ⟨rfl, agree.output⟩, ?_⟩
          rw [concluded, concluded, agree.output]
      | fault same =>
          refine ⟨fun _ => ⟨rfl, same⟩, ?_⟩
          rw [concluded, concluded, same]
  | exhausted printed =>
      refine ⟨fun ended => absurd rfl ended, ?_⟩
      cases y <;> exact printed

theorem interpret_never (host : Host) (fuel : Nat) (program : List Stmt) :
    let never := { host with collects := fun _ _ => false }
    (initial.interpret host fuel program).1 = (initial.interpret never fuel program).1 ∧
      (initial.interpret host fuel program).2.output =
        (initial.interpret never fuel program).2.output := by
  intro never
  have agree : host.AgreesWith never := ⟨rfl, rfl, rfl⟩
  obtain ⟨result, alike⟩ :=
    alike_interpret agree atRest_initial.sound.alike_self fuel program
  exact ⟨result, alike.output⟩

theorem goesAsFar_recorded (host : Host) (quiet : wraps → ∀ n, host.interrupts n = false)
    (one : 1 ≤ k) (three : wraps → 3 ≤ k) (enough : k * fuel ≤ fuel')
    (similar : SimilarStmts (RecordedAlike d d') wraps [] program program')
    (walked : walkProgram program ∅ = .ok () d) (walked' : walkProgram program' ∅ = .ok () d') :
    GoesAsFar (initial.interpret host fuel program) (initial.interpret host fuel' program') := by
  -- Collections come at different moments of the two runs, and would take away the counterparts of
  -- cells that are still there in the other store.
  let never : Host := { host with collects := fun _ _ => false }
  have analysed : initial.analyse program = (.ok (), initial.knowing d) := analyse_of_walk walked
  have analysed' : initial.analyse program' = (.ok (), initial.knowing d') :=
    analyse_of_walk walked'
  have suits : never.Suits ⟨d, d', wraps⟩ := ⟨fun _ _ => rfl, quiet⟩
  have ends := goesAsFar_concluded <|
    Run.parallel_program suits one three enough .globals similar _ _ (agree_fresh d d' wraps)
  have run : initial.interpret never fuel program =
      concluded (Run.program never fuel program (initial.knowing d)) := by
    rw [interpret_eq_concluded (by rw [analysed]), analysed]
  have run' : initial.interpret never fuel' program' =
      concluded (Run.program never fuel' program' (initial.knowing d')) := by
    rw [interpret_eq_concluded (by rw [analysed']), analysed']
  rw [← run, ← run'] at ends
  exact ends.congr (interpret_never host fuel program) (interpret_never host fuel' program')

theorem interpret_seen {R : OccurrencePairs} (host : Host)
    (quiet : wraps → ∀ n, host.interrupts n = false) (one : 1 ≤ k) (three : wraps → 3 ≤ k)
    (seen : Sees R) (similar : SimilarStmts R wraps [] program program')
    (nodup : (stmtsIds program).Nodup) (nodup' : (stmtsIds program').Nodup)
    (accepted : (initial.analyse program).1 = .ok ()) :
    (initial.analyse program').1 = .ok () ∧ ∀ fuel fuel', k * fuel ≤ fuel' →
      GoesAsFar (initial.interpret host fuel program) (initial.interpret host fuel' program') ∧
      GoesAsFar (initial.interpret host fuel program') (initial.interpret host fuel' program) := by
  obtain ⟨d, walked⟩ := walk_of_analyse accepted
  obtain ⟨d', walked', recorded⟩ := similar.analysed seen nodup nodup' walked
  refine ⟨by rw [analyse_of_walk walked'], fun fuel fuel' enough => ⟨?_, ?_⟩⟩
  · exact goesAsFar_recorded host quiet one three enough recorded walked walked'
  · refine goesAsFar_recorded host quiet one three enough (recorded.swap ?_) walked' walked
    exact fun h => ⟨h.line.symm, h.meets.swap⟩

theorem interpret_similar (host : Host) (quiet : wraps → ∀ n, host.interrupts n = false)
    (one : 1 ≤ k) (three : wraps → 3 ≤ k)
    (similar : SimilarStmts PlacedAlike wraps [] program program')
    (nodup : (stmtsIds program).Nodup) (accepted : (initial.analyse program).1 = .ok ()) :
    (initial.analyse program').1 = .ok () ∧ ∀ fuel fuel', k * fuel ≤ fuel' →
      GoesAsFar (initial.interpret host fuel program) (initial.interpret host fuel' program') ∧
      GoesAsFar (initial.interpret host fuel program') (initial.interpret host fuel' program) :=
  have nodup' : (stmtsIds program').Nodup := by
    rwa [similar.ids fun h => h.id]
  interpret_seen host quiet one three PlacedAlike.seen similar nodup nodup' accepted

end Machine

end ClassScript
