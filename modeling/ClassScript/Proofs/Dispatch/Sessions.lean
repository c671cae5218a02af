import ClassScript.Proofs.Dispatch.Moments
import ClassScript.Proofs.Lexical.Occurrences

namespace ClassScript

open Binding Store

def places (programs : List (List Stmt)) : Set (Setting × Mention) :=
  {x | ∃ program ∈ programs, x ∈ stmtsMentions .outside program}

variable {programs : List (List Stmt)} {program : List Stmt} {m n : Machine} {host : Host}
  {fuel : Nat} {used : Set (Setting × Mention)} {src : Sources}

theorem within_places (mem : program ∈ programs) :
    Within (places programs) (stmtsMentions .outside program) := fun _ h => ⟨program, mem, h⟩

theorem places_cons (programs : List (List Stmt)) (program : List Stmt) :
    places programs ⊆ places (program :: programs) := by
  rintro x ⟨other, mem, h⟩
  exact ⟨other, List.mem_cons_of_mem _ mem, h⟩

theorem within_stmtsMentions {setting : Setting} {statement : Stmt}
    (h : Within used (stmtsMentions setting program)) (mem : statement ∈ program) :
    Within used (stmtMentions setting statement) := by
  induction program with
  | nil => cases mem
  | cons first rest ih =>
      have both := within_append.mp h
      rcases List.mem_cons.mp mem with rfl | mem
      · exact both.1
      · exact ih both.2 mem

namespace Machine

/-- All that `this` and `super` stand for in the program is known. -/
def Resolved (m : Machine) (program : List Stmt) : Prop :=
  ∀ x ∈ stmtsMentions .outside program, Known m.distances x

theorem charted_analyse (charts : Charts used (stmtsMentions .outside program)
    (walkProgram program)) (h : Charted used m.distances) :
    Charted used (m.analyse program).2.distances ∧
      Remembers m.distances (m.analyse program).2.distances ∧
      ((m.analyse program).1 = .ok () → (m.analyse program).2.Resolved program) := by
  have walked := charts m.distances h
  unfold Ends at walked
  unfold Machine.analyse
  generalize walkProgram program m.distances = result at *
  cases result with
  | ok _ d => exact ⟨walked.1, walked.2.1, fun _ => walked.2.2⟩
  | error e d => exact ⟨walked.1, walked.2, fun accepted => by cases accepted⟩

theorem Resolved.interpreted {other : List Stmt} (h : (m.analyse program).2.Resolved other)
    (rest : m.AtRest) : (m.interpret host fuel program).2.Resolved other := by
  have atRest := rest.analyse program
  cases accepted : (m.analyse program).1 with
  | error e =>
      rw [interpret_rejected accepted]
      exact h
  | ok =>
      have passes := passes_perform (Run.passes_program host fuel program atRest.sound)
      rw [interpret_accepted accepted]
      intro x inside
      have known := h x inside
      rw [← passes.distances] at known
      exact known

theorem AtRest.inside (h : m.AtRest) (homed : m.Homed src)
    (charted : Charted src.mentions m.distances) : m.Inside src .outside :=
  ⟨⟨h.sound, homed, charted⟩, trivial⟩

end Machine

namespace Run

variable {first p : Moment}

def Moment.declared (host : Host) (first : Moment) (decl : ClassDecl Stmt) (layer : ClassLayer)
    (above : List ClassLayer) : Prop :=
  first.machine.store.Holds layer above ∨
    ∃ q object, Relation.ReflTransGen (Enters host) first q ∧ q.Declares host decl object ∧
      object.layer = layer ∧ object.ancestors = above

def Moment.sources (host : Host) (first : Moment) (used : Set (Setting × Mention)) : Sources :=
  ⟨used, first.declared host⟩

theorem follows_sources (names : used ⊆ ordinary) (host : Host) (first : Moment) :
    Follows host first (first.sources host used) where
  names := names
  declares reach declares := .inr ⟨_, _, reach, declares, rfl, rfl⟩

end Run

abbrev timeless (used : Set (Setting × Mention)) : Sources := ⟨used, fun _ _ _ => True⟩

theorem Machine.Homed.run {first : Run.Moment} (h : first.machine.Homed (timeless used))
    (host : Host) : first.machine.Homed (first.sources host used) :=
  h.widen_homed ⟨subset_rfl, fun held _ => .inl held⟩

theorem Machine.Homed.ran (h : m.Homed src) : m.Homed (timeless src.mentions) :=
  h.widen_homed ⟨subset_rfl, fun _ _ => trivial⟩

namespace Session

structure AtHome (programs : List (List Stmt)) (s : Session) : Prop where
  homed : s.machine.Homed (timeless (places programs))
  charted : Charted (places programs) s.machine.distances
  names : places programs ⊆ ordinary

variable {s : Session} {first : Run.Moment}

theorem Lexical.unique_places (h : Lexical programs s) : Distinct (places programs) := by
  rintro x ⟨p, hp, hx⟩ y ⟨q, hq, hy⟩ i ownX ownY
  have memX := List.mem_filterMap.mpr ⟨x, hx, ownX⟩
  have memY := List.mem_filterMap.mpr ⟨y, hy, ownY⟩
  rw [mentionIds_stmts] at memX memY
  rcases h.disjoint p hp q hq with rfl | apart
  · have nodup := (h.ids p hp).nodup
    rw [← mentionIds_stmts .outside] at nodup
    exact eq_of_nodup_filterMap nodup hx hy ownX ownY
  · exact (apart memX memY).elim

theorem AtHome.charts (h : AtHome programs s) (lexical : Lexical programs s)
    (mem : program ∈ programs) : Charts (places programs) (stmtsMentions .outside program)
      (walkProgram program) :=
  charts_program lexical.unique_places h.names program (within_places mem)

theorem atHome_initial : AtHome [] .initial where
  homed := by
    have empty : Stored (ValueHomed (timeless (places []))) Store.initial := stored_initial
    exact empty.define_homed (steady_define ⟨by decide, by decide⟩ _ _ _) trivial
  charted := charted_empty
  names := by
    rintro x ⟨program, mem, -⟩
    cases mem

theorem AtHome.read (h : AtHome programs s) (lexical : Lexical programs s) {nextId : Nat}
    (ids : Parser.IdsIn s.nextId nextId (stmtsIds program))
    (ordinary : ∀ statement ∈ program, OrdinaryStmt statement) :
    AtHome (program :: programs) { s with nextId } where
  homed := h.homed.widen_homed ⟨places_cons programs program, fun _ _ => trivial⟩
  charted := by
    rintro x ⟨p, hp, hx⟩ i d own known
    rcases List.mem_cons.mp hp with rfl | hp
    · -- No distance is known for what was read only now.
      obtain ⟨visit, ⟨q, hq, hv⟩, o, name, is, id, -⟩ := lexical.recorded _ _ known
      have old : i ∈ stmtsIds q := by
        rw [← ownIds_stmtsVisits []]
        exact List.mem_filterMap.mpr ⟨visit, hv, by simp [ownId, is, id]⟩
      have new : i ∈ stmtsIds p := by
        rw [← mentionIds_stmts .outside]
        exact List.mem_filterMap.mpr ⟨x, hx, own⟩
      have below := ((lexical.ids q hq).range i old).2
      have above := (ids.range i new).1
      omega
    · exact h.charted x ⟨p, hp, hx⟩ i d own known
  names := by
    rintro x ⟨p, hp, hx⟩
    rcases List.mem_cons.mp hp with rfl | hp
    · exact ordinary_stmts ordinary .outside x hx
    · exact h.names ⟨p, hp, hx⟩

theorem AtHome.perform (h : AtHome programs s) {α : Type} {part : Run α} {quiet : Prop}
    {listed homed : Store → α → Prop}
    (passes : Run.PassesWith part s.machine listed)
    (parts : Run.HomedWith quiet (first.sources host (places programs)) part s.machine homed) :
    AtHome programs { s with machine := (s.machine.perform part).2 } where
  homed := (Machine.of_perform (P := fun n => n.Homed (first.sources host (places programs)))
    (parts.imp (fun _ _ hn => hn.2.1) fun _ _ hn => hn)).ran
  charted := by
    rw [(Machine.passes_perform passes).distances]
    exact h.charted
  names := h.names

theorem AtHome.inside (h : AtHome programs s) (rest : s.machine.AtRest) (host : Host)
    (first : Run.Moment) (same : first.machine = s.machine) :
    s.machine.Inside (first.sources host (places programs)) .outside := by
  refine rest.inside ?_ h.charted
  have homed := h.homed
  rw [← same] at homed ⊢
  exact homed.run host

theorem AtHome.analyse (h : AtHome programs s) (lexical : Lexical programs s)
    (mem : program ∈ programs) :
    AtHome programs { s with machine := (s.machine.analyse program).2 } where
  homed := by
    obtain ⟨distances, eq⟩ := Machine.analyse_eq s.machine program
    rw [eq]
    exact h.homed
  charted := (Machine.charted_analyse (h.charts lexical mem) h.charted).1
  names := h.names

theorem AtHome.accepted
    (h : AtHome programs { s with machine := (s.machine.analyse program).2 })
    (rest : s.machine.AtRest) (accepted : (s.machine.analyse program).1 = .ok ())
    (mem : program ∈ programs) :
    AtHome programs { s with machine := (s.machine.interpret host fuel program).2 } := by
  have atRest := rest.analyse program
  let first : Run.Moment := ⟨fuel, .program program, (s.machine.analyse program).2⟩
  have inside : first.machine.Inside _ _ := h.inside atRest host first rfl
  have ran := h.perform (Run.passes_program host fuel program atRest.sound)
    (Run.homed_program (Run.follows_sources h.names host first) program .refl inside
      (within_places mem))
  have after := atRest.afterProgram host fuel program
  rw [Machine.interpret_accepted accepted]
  exact ⟨ran.homed.collect_homed after.sound.store after.sound.environment, ran.charted,
    ran.names⟩

theorem AtHome.interpret (h : AtHome programs s) (lexical : Lexical programs s)
    (rest : s.machine.AtRest) (mem : program ∈ programs) :
    AtHome programs { s with machine := (s.machine.interpret host fuel program).2 } := by
  have analysed := h.analyse lexical mem
  cases accepted : (s.machine.analyse program).1 with
  | error e =>
      rw [Machine.interpret_rejected accepted]
      exact analysed
  | ok => exact analysed.accepted rest accepted mem

theorem Reached.atHome (h : Reached programs s) : AtHome programs s := by
  induction h with
  | initial => exact atHome_initial
  | counters _ ih => exact ⟨ih.homed, ih.charted, ih.names⟩
  | unread tokens _ spelled ih => exact ⟨ih.homed, ih.charted, ih.names⟩
  | unreadExpr tokens _ spelled ih => exact ⟨ih.homed, ih.charted, ih.names⟩
  | @read _ s _ tokens reached spelled parsed ih =>
      have reads := (parseProgram_reads s.nextId spelled).2 _ parsed
      exact ih.read reached.lexical reads.1 reads.2
  | @readExpr _ s e tokens reached spelled parsed ih =>
      have reads := (parseExpression_reads s.nextId spelled).2 _ parsed
      apply ih.read reached.lexical
      · simpa [stmtsIds, Stmt.ids] using reads.1
      · intro statement mem
        rw [List.mem_singleton.mp mem]
        exact reads.2
  | interpreted host fuel reached mem ih => exact ih.interpret reached.lexical reached.atRest mem
  | @evaluated _ s _ e host fuel reached mem inProgram ih =>
      let first : Run.Moment := ⟨fuel, .eval e, s.machine⟩
      have inside := ih.inside reached.atRest host first rfl
      have within := within_stmtsMentions (within_places mem) inProgram
      exact ih.perform
        ((Run.soundWith host fuel).eval _ inside.sound).passes
        ((Run.homedEval (Run.follows_sources ih.names host first) fuel).eval _ .refl inside within)
  | @executed _ s _ statement host fuel reached mem inProgram ih =>
      let first : Run.Moment := ⟨fuel, .exec statement, s.machine⟩
      have inside := ih.inside reached.atRest host first rfl
      have within := within_stmtsMentions (within_places mem) inProgram
      exact ih.perform ((Run.soundWith host fuel).exec _ inside.sound)
        ((Run.homedEval (Run.follows_sources ih.names host first) fuel).exec _ .refl rfl
          False.elim inside within)

theorem Begins.atHome (begins : s.Begins programs first) (reached : Reached programs s)
    (host : Host) :
    Run.AtHome (first.sources host (places programs)) first.task first.machine := by
  have home := reached.atHome
  have rest := reached.atRest
  cases begins with
  | @program fuel program mem accepted =>
      have analysed := home.analyse reached.lexical mem
      exact ⟨analysed.inside (rest.analyse program) host _ rfl, within_places mem⟩
  | eval mem inProgram | exec mem inProgram =>
      exact ⟨.outside, home.inside rest host _ rfl,
        within_stmtsMentions (within_places mem) inProgram⟩

theorem Begins.resolved (begins : s.Begins programs first) (reached : Reached programs s)
    (h : first.task = .program program ∨ s.machine.Resolved program) :
    first.machine.Resolved program := by
  have home := reached.atHome
  cases begins with
  | @program fuel other mem accepted =>
      have charted := Machine.charted_analyse (home.charts reached.lexical mem) home.charted
      rcases h with is | known
      · cases is
        exact charted.2.2 accepted
      · exact fun x inside => charted.2.1.known (known x inside)
  | eval _ _ | exec _ _ =>
      rcases h with is | known
      · cases is
      · exact known

end Session

end ClassScript
