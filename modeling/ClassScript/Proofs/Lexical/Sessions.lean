import Mathlib
import ClassScript.Proofs.Binding.Recorded
import ClassScript.Proofs.Lexical.Moments
import ClassScript.Proofs.Parser.Programs
import ClassScript.Proofs.Session.Reached

/-!
# Scopes in sessions

Between the steps of a session, all code in the store is at its place and all recorded distances are
right for the occurrences of the programs that were read so far (`Lexical`). So each moment of each
run is in the scopes in which the analysis visits what is evaluated.
-/

namespace ClassScript

open Binding Store

namespace Machine

variable {visited : Set (Scopes × Expr)} {m : Machine} {host : Host} {fuel : Nat}

/-- The moments of a run of a program that the analysis accepts. -/
def moments (host : Host) (fuel : Nat) (m : Machine) (program : List Stmt) : Set Run.Moment :=
  {moment | (m.analyse program).1 = .ok () ∧ Relation.ReflTransGen (Run.Enters host)
    ⟨fuel, .program program, (m.analyse program).2⟩ moment}

theorem AtRest.located (h : m.AtRest) (placed : m.Placed visited)
    (recorded : Recorded visited m.distances) : m.Located visited [] where
  sound := h.sound
  placed := placed
  recorded := recorded
  agree := by
    rw [h.environment]
    exact .globals

theorem placed_perform {α : Type} {part : Run α} {post : Store → α → Prop}
    (h : Run.PlacedWith visited part m post) : (m.perform part).2.Placed visited :=
  of_perform (h.imp (fun _ _ hn => hn.1) fun _ _ hn => hn)

theorem Recorded.analyse {program : List Stmt} (h : Recorded visited m.distances)
    (within : Within visited (stmtsVisits [] program)) :
    Recorded visited (m.analyse program).2.distances := by
  have walked := records_program program within m.distances h
  unfold Ends at walked
  unfold Machine.analyse
  cases run : walkProgram program m.distances with
  | ok _ d =>
      rw [run] at walked
      exact walked
  | error _ d =>
      rw [run] at walked
      exact walked

end Machine

namespace Session

/-- The expressions of the programs that were read, each with its place. -/
def visits (programs : List (List Stmt)) : Set (Scopes × Expr) :=
  {visit | ∃ program ∈ programs, visit ∈ stmtsVisits [] program}

structure Lexical (programs : List (List Stmt)) (s : Session) : Prop where
  placed : s.machine.Placed (visits programs)
  recorded : Recorded (visits programs) s.machine.distances
  ids : ∀ program ∈ programs, Parser.IdsIn 0 s.nextId (stmtsIds program)
  disjoint : ∀ p ∈ programs, ∀ q ∈ programs, p = q ∨ List.Disjoint (stmtsIds p) (stmtsIds q)
  guarded : ∀ program ∈ programs, ∀ statement ∈ program, GuardsStmt statement

variable {programs : List (List Stmt)} {program : List Stmt} {statement : Stmt} {s : Session}
  {m : Machine} {host : Host} {fuel : Nat}

theorem within_visits (mem : program ∈ programs) :
    Within (visits programs) (stmtsVisits [] program) :=
  fun _ h => ⟨program, mem, h⟩

theorem visits_cons (programs : List (List Stmt)) (program : List Stmt) :
    visits programs ⊆ visits (program :: programs) := by
  rintro visit ⟨other, mem, h⟩
  exact ⟨other, List.mem_cons_of_mem _ mem, h⟩

theorem within_statement {visited : Set (Scopes × Expr)}
    (h : Within visited (stmtsVisits [] program)) (mem : statement ∈ program) :
    Within visited (stmtVisits [] statement) := by
  induction program with
  | nil => cases mem
  | cons first rest ih =>
      have both := within_append.mp h
      rw [scopesAfter_nil] at both
      rcases List.mem_cons.mp mem with rfl | mem
      · exact both.1
      · exact ih both.2 mem

theorem closed_visits : ∀ visit ∈ visits programs,
    Within (visits programs) (exprVisits visit.1 visit.2) := by
  rintro visit ⟨program, mem, h⟩ part hp
  exact ⟨program, mem, closed_stmtsVisits [] program visit h part hp⟩

theorem Lexical.unique (h : Lexical programs s) : ∀ x ∈ visits programs, ∀ y ∈ visits programs,
    ∀ i, ownId x = some i → ownId y = some i → x = y := by
  rintro x ⟨p, hp, hx⟩ y ⟨q, hq, hy⟩ i ownX ownY
  have memX := List.mem_filterMap.mpr ⟨x, hx, ownX⟩
  have memY := List.mem_filterMap.mpr ⟨y, hy, ownY⟩
  rw [ownIds_stmtsVisits] at memX memY
  rcases h.disjoint p hp q hq with rfl | apart
  · have nodup := (h.ids p hp).nodup
    rw [← ownIds_stmtsVisits []] at nodup
    exact eq_of_nodup_filterMap nodup hx hy ownX ownY
  · exact (apart memX memY).elim

theorem Lexical.guarded_visit (h : Lexical programs s) {visit : Scopes × Expr}
    (mem : visit ∈ visits programs) : Guarded visit.1 := by
  obtain ⟨program, hp, hv⟩ := mem
  exact guards_stmts (h.guarded program hp) [] .nil visit hv

theorem lexical_initial : Lexical [] .initial where
  placed := stored_initial.define valuePlaced_lasting trivial
  recorded := recorded_empty
  ids program mem := by cases mem
  disjoint p mem := by cases mem
  guarded program mem := by cases mem

theorem Lexical.later (h : Lexical programs s) {nextId : Nat} (le : s.nextId ≤ nextId) :
    Lexical programs { s with nextId } :=
  { h with ids := fun program mem => (h.ids program mem).mono (Nat.le_refl 0) le }

theorem Lexical.read (h : Lexical programs s) {nextId : Nat} (le : s.nextId ≤ nextId)
    (ids : Parser.IdsIn s.nextId nextId (stmtsIds program))
    (guarded : ∀ statement ∈ program, GuardsStmt statement) :
    Lexical (program :: programs) { s with nextId } := by
  have sub := visits_cons programs program
  have apart : ∀ other ∈ programs, List.Disjoint (stmtsIds other) (stmtsIds program) := by
    intro other mem i hi hi'
    have below := ((h.ids other mem).range i hi).2
    have above := (ids.range i hi').1
    omega
  refine ⟨h.placed.widen sub, h.recorded.mono sub, fun p mem => ?_, fun p hp q hq => ?_, ?_⟩
  · rcases List.mem_cons.mp mem with rfl | mem
    · exact ids.mono (Nat.zero_le _) (Nat.le_refl _)
    · exact (h.ids p mem).mono (Nat.le_refl 0) le
  · rcases List.mem_cons.mp hp with eqP | inP <;> rcases List.mem_cons.mp hq with eqQ | inQ
    · exact .inl (eqP.trans eqQ.symm)
    · exact .inr (eqP ▸ (apart q inQ).symm)
    · exact .inr (eqQ ▸ apart p inP)
    · exact h.disjoint p inP q inQ
  · intro p mem
    rcases List.mem_cons.mp mem with rfl | mem
    · exact guarded
    · exact h.guarded p mem

theorem Lexical.step (h : Lexical programs s) (placed : m.Placed (visits programs))
    (recorded : Recorded (visits programs) m.distances) :
    Lexical programs { s with machine := m } :=
  ⟨placed, recorded, h.ids, h.disjoint, h.guarded⟩

theorem Lexical.perform (h : Lexical programs s) {α : Type} {part : Run α}
    {listed placed : Store → α → Prop} (passes : Run.PassesWith part s.machine listed)
    (parts : Run.PlacedWith (visits programs) part s.machine placed) :
    Lexical programs { s with machine := (s.machine.perform part).2 } := by
  apply h.step (Machine.placed_perform parts)
  rw [(Machine.passes_perform passes).distances]
  exact h.recorded

theorem Lexical.interpret (h : Lexical programs s) (rest : s.machine.AtRest)
    (mem : program ∈ programs) :
    Lexical programs { s with machine := (s.machine.interpret host fuel program).2 } := by
  have within := within_visits mem
  have recorded := Machine.Recorded.analyse h.recorded within
  have atRest := rest.analyse program
  have placed : (s.machine.analyse program).2.Placed (visits programs) := by
    obtain ⟨distances, eq⟩ := Machine.analyse_eq s.machine program
    rw [eq]
    exact h.placed
  cases accepted : (s.machine.analyse program).1 with
  | error e =>
      rw [Machine.interpret_rejected accepted]
      exact h.step placed recorded
  | ok =>
      have ran := (h.step placed recorded).perform
        (Run.passes_program host fuel program atRest.sound)
        (Run.placed_program host fuel program (atRest.located placed recorded) within)
      have after := atRest.afterProgram host fuel program
      rw [Machine.interpret_accepted accepted]
      exact ran.step (ran.placed.collect after.sound.store after.sound.environment) ran.recorded

theorem Reached.lexical (h : Reached programs s) : Lexical programs s := by
  induction h with
  | initial => exact lexical_initial
  | counters _ ih => exact ih.step ih.placed ih.recorded
  | unread tokens _ spelled ih => exact ih.later (parseProgram_reads _ spelled).1
  | unreadExpr tokens _ spelled ih => exact ih.later (parseExpression_reads _ spelled).1
  | @read _ s _ tokens _ spelled parsed ih =>
      have reads := parseProgram_reads s.nextId spelled
      have guarded := fun statement mem =>
        guards_of_ordinary statement ((reads.2 _ parsed).2 statement mem .outside)
      exact ih.read reads.1 (reads.2 _ parsed).1 guarded
  | @readExpr _ s _ tokens _ spelled parsed ih =>
      have reads := parseExpression_reads s.nextId spelled
      apply ih.read reads.1
      · simpa [stmtsIds, Stmt.ids] using (reads.2 _ parsed).1
      · intro statement mem
        rw [List.mem_singleton.mp mem]
        exact .of_visits (guards_expr _) fun _ => rfl
  | interpreted host fuel reached mem ih => exact ih.interpret reached.atRest mem
  | evaluated host fuel reached mem inProgram ih =>
      have rest := reached.atRest
      have within := within_statement (within_visits mem) inProgram
      exact ih.perform ((Run.soundWith host fuel).eval _ rest.sound).passes
        ((Run.locatedWith _ host fuel).eval _ (rest.located ih.placed ih.recorded) within)
  | executed host fuel reached mem inProgram ih =>
      have rest := reached.atRest
      have within := within_statement (within_visits mem) inProgram
      exact ih.perform ((Run.soundWith host fuel).exec _ rest.sound)
        ((Run.locatedWith _ host fuel).exec _ rfl (rest.located ih.placed ih.recorded) within)

theorem Lexical.ready (h : Lexical programs s) (rest : s.machine.AtRest) (mem : program ∈ programs)
    {moment : Run.Moment} (during : moment ∈ s.machine.moments host fuel program) :
    Run.Ready (visits programs) moment.task moment.machine := by
  have within := within_visits mem
  have recorded := Machine.Recorded.analyse h.recorded within
  obtain ⟨distances, eq⟩ := Machine.analyse_eq s.machine program
  have placed : (s.machine.analyse program).2.Placed (visits programs) := by
    rw [eq]
    exact h.placed
  exact Run.ready_of_moments during.2 ⟨(rest.analyse program).located placed recorded, within⟩

theorem Lexical.distance (h : Lexical programs s)
    (recorded : Recorded (visits programs) m.distances)
    {scopes : Scopes} {e : Expr} {o : Occurrence} {name : String} {d : Nat}
    (mem : (scopes, e) ∈ visits programs) (he : e.occurrence? = some (o, name))
    (known : m.distances[o.id]? = some d) : distance? name scopes = some d := by
  obtain ⟨visit, hv, o', name', ho', id, found⟩ := recorded _ _ known
  have own : ownId visit = some o.id := by simp [ownId, ho', id]
  have own' : ownId (scopes, e) = some o.id := by simp [ownId, he]
  obtain rfl := h.unique visit hv (scopes, e) mem o.id own own'
  rw [he] at ho'
  cases ho'
  exact found

theorem Lexical.around (h : Lexical programs s) {o : Occurrence} {name : String} {d : Nat}
    (met : Run.Met (visits programs) o name m) (known : m.distances[o.id]? = some d) :
    ∃ around, m.store.ScopesAgree m.environment around ∧ distance? name around = some d := by
  obtain ⟨recorded, scopes, e, mem, he, at_scopes⟩ := met
  obtain ⟨around, agree, same⟩ := at_scopes.around
  exact ⟨around, agree, same.trans (h.distance recorded mem he known)⟩

/-- The superclass of a class is looked up in the scopes in front of the declaration, without the
name of the class, which the analysis has declared when it visits the superclass. -/
theorem Lexical.superclass (h : Lexical programs s) (rest : s.machine.AtRest)
    (mem : program ∈ programs) {before moment : Run.Moment} {decl : ClassDecl Stmt}
    {parent : Occurrence}
    (during : before ∈ s.machine.moments host fuel program)
    (is : before.task = .exec (.classDecl decl))
    (named : decl.superclass = some parent) (enters : Run.Enters host before moment) :
    moment.task = .lookup parent parent.token.lexeme ∧
      parent.token.lexeme ≠ decl.name.lexeme ∧
      ∃ around, (declare decl.name.lexeme around, .var parent) ∈ visits programs ∧
        moment.machine.store.ScopesAgree moment.machine.environment around := by
  have ready := h.ready rest mem during
  cases enters <;> cases is
  case superclass begins named' ne =>
    cases named.symm.trans named'
    obtain ⟨around, located, within⟩ := ready
    obtain ⟨name, superclass, methods⟩ := decl
    cases named
    exact ⟨rfl, ne, around, (within_cons.mp within).1, (Run.located_begins located begins).agree⟩

/-- What the analysis and a run say about scopes is the same, for each moment of a run of a program
that the analysis accepts, whatever happened in the session before. When an expression is evaluated,
it is in the scopes of a place at which the analysis visits it, and of all such places if a name
occurs in it. The superclass of a class is not named like the class, and it is looked up in the
scopes of its place as they are without the name of the class: the analysis declares this name in
front of the superclass, a run defines it behind. What has a recorded distance is found there,
whether it is read, changed, or stands for the superclass or the receiver that `super` needs. -/
theorem scopes_agree (reached : Reached programs s) (read : program ∈ programs)
    {moment : Run.Moment} (during : moment ∈ s.machine.moments host fuel program) :
    let m := moment.machine
    (∀ e, moment.task = .eval e →
      (∃ scopes, (scopes, e) ∈ visits programs ∧ m.store.ScopesAgree m.environment scopes) ∧
      ∀ scopes, (scopes, e) ∈ visits programs → e.ids ≠ [] →
        m.store.ScopesAgree m.environment scopes) ∧
    (∀ before decl parent, before ∈ s.machine.moments host fuel program →
      Run.Enters host before moment → before.task = .exec (.classDecl decl) →
      decl.superclass = some parent →
      moment.task = .lookup parent parent.token.lexeme ∧
      parent.token.lexeme ≠ decl.name.lexeme ∧
      ∃ around, m.store.ScopesAgree m.environment around ∧
        ∀ scopes, (scopes, .var parent) ∈ visits programs ↔
          scopes = declare decl.name.lexeme around) ∧
    (∀ o name d, moment.task = .lookup o name → m.distances[o.id]? = some d →
      ∃ value, m.store.getAt m.environment d name o.token.line = .ok value) ∧
    (∀ o value d, moment.task = .assign o value → m.distances[o.id]? = some d →
      ∃ holder, m.store.targetAt m.environment d o.token.lexeme o.token.line = .ok holder) ∧
    ∀ keyword method d, moment.task = .superMethod keyword method →
      m.distances[keyword.id]? = some d →
      (∃ value, m.store.getAt m.environment d superclassName keyword.token.line = .ok value) ∧
      ∃ value, m.store.getAt m.environment (d - 1) receiverName keyword.token.line = .ok value := by
  have lexical := reached.lexical
  have ready := lexical.ready reached.atRest read during
  obtain ⟨fuel, task, m⟩ := moment
  refine ⟨fun e is => ?_, fun before decl parent during enters is named => ?_,
    fun o name d is known => ?_, fun o value d is known => ?_, fun keyword method d is known => ?_⟩
  · obtain rfl : task = _ := is
    obtain ⟨scopes, located, within⟩ := ready
    have mem := within _ (mem_exprVisits_self scopes e)
    refine ⟨⟨scopes, mem, located.agree⟩, fun other mem' occurs => ?_⟩
    rw [scopes_unique closed_visits lexical.unique mem' mem occurs]
    exact located.agree
  · obtain ⟨looked, ne, around, mem, agree⟩ :=
      lexical.superclass reached.atRest read during is named enters
    refine ⟨looked, ne, around, agree, fun scopes => ⟨fun mem' => ?_, fun same => same ▸ mem⟩⟩
    cases lexical.unique _ mem' _ mem parent.id rfl rfl
    rfl
  · obtain rfl : task = _ := is
    obtain ⟨around, agree, found⟩ := lexical.around ready known
    obtain ⟨names, inAround, inNames⟩ := names_of_distance? found
    exact agree.getAt inAround inNames _
  · obtain rfl : task = _ := is
    obtain ⟨around, agree, found⟩ := lexical.around ready known
    obtain ⟨names, inAround, inNames⟩ := names_of_distance? found
    exact agree.targetAt inAround inNames _
  · obtain rfl : task = _ := is
    obtain ⟨scopes, located, mem⟩ := ready
    have found := lexical.distance located.recorded mem rfl known
    obtain ⟨names, inScopes, inNames⟩ := names_of_distance? found
    obtain ⟨inner, inside, rfl, atInner, this⟩ := (lexical.guarded_visit mem).this_inside found
    exact ⟨located.agree.getAt inScopes inNames _, located.agree.getAt atInner this _⟩

def localName : Token := ⟨.identifier, "a", none, 1⟩

def localTokens : List Token :=
  [⟨.leftBrace, "\x7b", none, 1⟩, ⟨.kwVar, "var", none, 1⟩, localName, ⟨.semicolon, ";", none, 1⟩,
    localName, ⟨.semicolon, ";", none, 1⟩, ⟨.rightBrace, "\x7d", none, 1⟩, .endOfInput 1]

def localProgram : List Stmt :=
  [.block [.varDecl localName none, .expression (.var ⟨0, localName⟩)] 1]

theorem scopes_agree_localProgram : ∃ s moment, Reached [localProgram] s ∧
    moment ∈ s.machine.moments (Host.standard fun _ => 0) 5 localProgram ∧
    moment.task = .lookup ⟨0, localName⟩ "a" ∧ moment.machine.distances[0]? = some 0 ∧
    ∃ value, moment.machine.store.getAt moment.machine.environment 0 "a" 1 = .ok value := by
  have parsed : (parseProgram 0 localTokens).result = .ok localProgram := rfl
  have reached := Reached.read localTokens .initial (by decide) parsed
  have accepted : (initial.machine.analyse localProgram).1 = .ok () := rfl
  have run : ∃ m, Relation.ReflTransGen (Run.Enters (Host.standard fun _ => 0))
      ⟨5, .program localProgram, (initial.machine.analyse localProgram).2⟩
      ⟨0, .lookup ⟨0, localName⟩ "a", m⟩ ∧ m.distances[0]? = some 0 := by
    apply Exists.intro
    constructor
    · apply Relation.ReflTransGen.head .firstOfProgram
      apply Relation.ReflTransGen.head (.block rfl rfl)
      apply Relation.ReflTransGen.head (.otherStmts rfl)
      apply Relation.ReflTransGen.head .firstStmt
      apply Relation.ReflTransGen.head (.expression rfl)
      exact .single .var
    · rfl
  obtain ⟨m, run, known⟩ := run
  have found := (scopes_agree reached List.mem_cons_self ⟨accepted, run⟩).2.2.1 _ _ 0 rfl known
  exact ⟨_, _, reached, ⟨accepted, run⟩, rfl, known, found⟩

def outerClass : Token := ⟨.identifier, "A", none, 1⟩

def innerClass : Token := ⟨.identifier, "B", none, 1⟩

def subclassTokens : List Token :=
  [⟨.leftBrace, "\x7b", none, 1⟩,
    ⟨.kwClass, "class", none, 1⟩, outerClass,
    ⟨.leftBrace, "\x7b", none, 1⟩, ⟨.rightBrace, "\x7d", none, 1⟩,
    ⟨.kwClass, "class", none, 1⟩, innerClass, ⟨.less, "<", none, 1⟩, outerClass,
    ⟨.leftBrace, "\x7b", none, 1⟩, ⟨.rightBrace, "\x7d", none, 1⟩,
    ⟨.leftBrace, "\x7b", none, 1⟩,
    ⟨.kwClass, "class", none, 1⟩, outerClass, ⟨.less, "<", none, 1⟩, outerClass,
    ⟨.leftBrace, "\x7b", none, 1⟩, ⟨.rightBrace, "\x7d", none, 1⟩,
    ⟨.rightBrace, "\x7d", none, 1⟩, ⟨.rightBrace, "\x7d", none, 1⟩, .endOfInput 1]

def subclassProgram : List Stmt :=
  [.block [.classDecl ⟨outerClass, none, []⟩,
    .classDecl ⟨innerClass, some ⟨0, outerClass⟩, []⟩,
    .block [.classDecl ⟨outerClass, some ⟨1, outerClass⟩, []⟩] 1] 1]

/-- The analysis visits a superclass behind the name of its class, which the scope of the run does
not bind yet. So it also has a distance for a superclass that is spelled like its class and declared
further out, which no run looks up. -/
theorem superclass_scopes_differ : ∃ s moment, Reached [subclassProgram] s ∧
    moment ∈ s.machine.moments (Host.standard fun _ => 0) 9 subclassProgram ∧
    moment.task = .lookup ⟨0, outerClass⟩ "A" ∧
    ([["B", "A"]], .var ⟨0, outerClass⟩) ∈ visits [subclassProgram] ∧
    ¬moment.machine.store.ScopesAgree moment.machine.environment [["B", "A"]] ∧
    (s.machine.analyse subclassProgram).2.distances[1]? = some 0 ∧
    (s.machine.interpret (Host.standard fun _ => 0) 9 subclassProgram).1 =
      .error (.runtime ⟨.inheritsItself, 1⟩) := by
  have parsed : (parseProgram 0 subclassTokens).result = .ok subclassProgram := by cbv
  have reached := Reached.read subclassTokens .initial (by decide) parsed
  have accepted : (initial.machine.analyse subclassProgram).1 = .ok () := rfl
  have run : ∃ m, Relation.ReflTransGen (Run.Enters (Host.standard fun _ => 0))
      ⟨9, .program subclassProgram, (initial.machine.analyse subclassProgram).2⟩
      ⟨5, .lookup ⟨0, outerClass⟩ "A", m⟩ ∧
      (m.store.bindings m.environment).contains "B" = false := by
    apply Exists.intro
    constructor
    · apply Relation.ReflTransGen.head .firstOfProgram
      apply Relation.ReflTransGen.head (.block rfl rfl)
      apply Relation.ReflTransGen.head (.otherStmts rfl)
      apply Relation.ReflTransGen.head .firstStmt
      exact .single (.superclass rfl rfl (by decide))
    · rfl
  obtain ⟨m, run, unbound⟩ := run
  have visited : ([["B", "A"]], .var ⟨0, outerClass⟩) ∈ stmtsVisits [] subclassProgram := by
    simp [subclassProgram, stmtsVisits, stmtVisits, classVisits, scopesAfter, Binding.declare,
      outerClass, innerClass]
  have known : (initial.machine.analyse subclassProgram).2.distances[1]? = some 0 := by cbv
  have refused : (initial.machine.interpret (Host.standard fun _ => 0) 9 subclassProgram).1 =
      .error (.runtime ⟨.inheritsItself, 1⟩) := by cbv
  refine ⟨_, _, reached, ⟨accepted, run⟩, rfl, ⟨_, List.mem_cons_self, visited⟩, fun agree => ?_,
    known, refused⟩
  obtain ⟨holder, here, bound⟩ := agree.holder (d := 0) rfl
  obtain rfl : m.environment = holder := Option.some.inj here
  cases unbound.symm.trans (bound "B" List.mem_cons_self)

end Session

end ClassScript
