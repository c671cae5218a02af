import ClassScript.Proofs.Dispatch.Sessions
import ClassScript.Proofs.Dispatch.Vetted

namespace ClassScript

open Binding Store

theorem Binding.Charted.mono {used larger : Set (Setting × Mention)} {d : Distances}
    (h : Charted larger d) (sub : used ⊆ larger) : Charted used d := fun x mem => h x (sub mem)

theorem places_mono {programs others : List (List Stmt)} (sub : programs ⊆ others) :
    places programs ⊆ places others := by
  rintro x ⟨program, mem, h⟩
  exact ⟨program, sub mem, h⟩

namespace Session

/-- The sessions that come about by running sources, one after the other. -/
inductive Ran : Session → Prop
  | initial : Ran .initial
  | nextStep {s} : Ran s → Ran s.nextStep
  | run {s} (host : Host) (source : String) : Ran s → Ran (s.run host source).2

structure Accepts (programs accepted : List (List Stmt)) (s : Session) : Prop where
  reached : Reached programs s
  sub : accepted ⊆ programs
  home : AtHome accepted s
  resolved : ∀ program ∈ accepted, s.machine.Resolved program
  formed : ∀ visit ∈ visits programs, visit.2.Formed fun _ => True

def Accepting (s : Session) : Prop := ∃ programs accepted, Accepts programs accepted s

variable {programs accepted later : List (List Stmt)} {program : List Stmt} {s : Session}
  {host : Host} {fuel : Nat}

theorem accepts_initial : Accepts [] [] .initial where
  reached := .initial
  sub := List.Subset.refl _
  home := atHome_initial
  resolved program mem := by cases mem
  formed visit mem := by
    obtain ⟨program, mem, -⟩ := mem
    cases mem

theorem Accepts.nextStep (h : Accepts programs accepted s) :
    Accepts programs accepted s.nextStep where
  reached := .counters h.reached
  sub := h.sub
  home := ⟨h.home.homed, h.home.charted, h.home.names⟩
  resolved := h.resolved
  formed := h.formed

theorem Accepts.unread (h : Accepts programs accepted s) {tokens : List Token}
    (spelled : ∀ t ∈ tokens, t.Spelled) :
    Accepts programs accepted { s with nextId := (parseProgram s.nextId tokens).nextId } where
  reached := .unread tokens h.reached spelled
  sub := h.sub
  home := ⟨h.home.homed, h.home.charted, h.home.names⟩
  resolved := h.resolved
  formed := h.formed

theorem Accepts.read (h : Accepts programs accepted s) {tokens : List Token}
    (spelled : ∀ t ∈ tokens, t.Spelled)
    (parsed : (parseProgram s.nextId tokens).result = .ok program) :
    Accepts (program :: programs) accepted
      { s with nextId := (parseProgram s.nextId tokens).nextId } where
  reached := .read tokens h.reached spelled parsed
  sub := fun _ mem => List.mem_cons_of_mem _ (h.sub mem)
  home := ⟨h.home.homed, h.home.charted, h.home.names⟩
  resolved := h.resolved
  formed := by
    rintro visit ⟨other, mem, inOther⟩
    rcases List.mem_cons.mp mem with rfl | mem
    · exact formed_of_parseProgram parsed (fun _ _ => trivial) [] visit inOther
    · exact h.formed visit ⟨other, mem, inOther⟩

theorem Accepts.charted_analyse (h : Accepts programs accepted s) (mem : program ∈ programs) :
    Charted (places programs) (s.machine.analyse program).2.distances ∧
      Remembers s.machine.distances (s.machine.analyse program).2.distances ∧
      ((s.machine.analyse program).1 = .ok () →
        (s.machine.analyse program).2.Resolved program) :=
  have home := h.reached.atHome
  Machine.charted_analyse (home.charts h.reached.lexical mem) home.charted

theorem Accepts.atHome_analyse (h : Accepts programs accepted s) (mem : program ∈ programs)
    (grown : accepted ⊆ later) (sub : later ⊆ programs) :
    AtHome later { s with machine := (s.machine.analyse program).2 } where
  homed := by
    obtain ⟨distances, eq⟩ := Machine.analyse_eq s.machine program
    rw [eq]
    exact h.home.homed.widen_homed ⟨places_mono grown, fun _ _ => trivial⟩
  charted := (h.charted_analyse mem).1.mono (places_mono sub)
  names := (places_mono sub).trans h.reached.atHome.names

theorem Accepts.resolved_analyse (h : Accepts programs accepted s) (mem : program ∈ programs)
    {other : List Stmt} (old : other ∈ accepted) :
    (s.machine.analyse program).2.Resolved other :=
  fun x inside => (h.charted_analyse mem).2.1.known (h.resolved other old x inside)

theorem Accepts.resolved_cons (h : Accepts programs accepted s) (mem : program ∈ programs)
    (ok : (s.machine.analyse program).1 = .ok ()) :
    ∀ other ∈ program :: accepted, (s.machine.analyse program).2.Resolved other := by
  intro other inOthers
  rcases List.mem_cons.mp inOthers with rfl | old
  · exact (h.charted_analyse mem).2.2 ok
  · exact h.resolved_analyse mem old

theorem Accepts.interpret (h : Accepts programs accepted s) (mem : program ∈ programs)
    (host : Host) (fuel : Nat) : ∃ later,
      Accepts programs later { s with machine := (s.machine.interpret host fuel program).2 } := by
  have reached := h.reached.interpreted host fuel mem
  have rest := h.reached.atRest
  cases ok : (s.machine.analyse program).1 with
  | error e =>
      have home := h.atHome_analyse mem (List.Subset.refl _) h.sub
      have same : (s.machine.interpret host fuel program).2 = _ := Machine.interpret_rejected ok
      rw [← same] at home
      exact ⟨accepted, reached, h.sub, home,
        fun other old => (h.resolved_analyse mem old).interpreted rest, h.formed⟩
  | ok =>
      have sub : program :: accepted ⊆ programs := List.cons_subset.mpr ⟨mem, h.sub⟩
      have home := h.atHome_analyse mem (List.subset_cons_self program accepted) sub
      exact ⟨program :: accepted, reached, sub, home.accepted rest ok List.mem_cons_self,
        fun other old => (h.resolved_cons mem ok other old).interpreted rest, h.formed⟩

theorem Accepts.run (h : Accepts programs accepted s) (host : Host) (source : String) :
    (s.run host source).2.Accepting := by
  apply run_cases host source
  · exact ⟨programs, accepted, h⟩
  · exact fun tokens spelled => ⟨programs, accepted, h.unread spelled⟩
  · intro tokens program spelled parsed
    have read := h.read spelled parsed
    exact ⟨program :: programs, read.interpret List.mem_cons_self host ampleFuel⟩

theorem Ran.accepting (h : Ran s) : s.Accepting := by
  induction h with
  | initial => exact ⟨[], [], accepts_initial⟩
  | nextStep _ ih =>
      obtain ⟨programs, accepted, h⟩ := ih
      exact ⟨programs, accepted, h.nextStep⟩
  | run host source _ ih =>
      obtain ⟨programs, accepted, h⟩ := ih
      exact h.run host source

theorem Accepts.vetted (h : Accepts programs accepted s) (mem : program ∈ programs)
    (ok : (s.machine.analyse program).1 = .ok ()) (host : Host) (fuel : Nat) :
    let first : Run.Moment := ⟨fuel, .program program, (s.machine.analyse program).2⟩
    Run.Vetted host first (first.sources host (places (program :: accepted))) := by
  intro first
  have sub : program :: accepted ⊆ programs := List.cons_subset.mpr ⟨mem, h.sub⟩
  have home := h.atHome_analyse mem (List.subset_cons_self program accepted) sub
  have rest := h.reached.atRest.analyse program
  refine ⟨Run.follows_sources home.names host first,
    ⟨home.inside rest host first rfl, within_places List.mem_cons_self⟩, ?_, ?_⟩
  · rintro x ⟨other, inOthers, inside⟩
    exact h.resolved_cons mem ok other inOthers x inside
  · intro p e run is
    have ready := h.reached.lexical.ready h.reached.atRest mem ⟨ok, run⟩
    rw [is] at ready
    obtain ⟨scopes, -, within⟩ := ready
    exact h.formed _ (within _ (mem_exprVisits_self scopes e))

end Session

end ClassScript
