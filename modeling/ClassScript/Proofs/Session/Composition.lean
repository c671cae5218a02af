import ClassScript.Proofs.Binding.Noted
import ClassScript.Proofs.Collection.Invisible
import ClassScript.Proofs.Run.Knowledge
import ClassScript.Proofs.Session.Informed

/-!
# Programs one after the other

A program that is run behind another one does what the two do when they are run as one program. The
second one is analysed before or after the first one runs, and more or fewer collections are made,
but a run needs to know nothing of the occurrences of programs that it has no code of
(`needs_of_ready`), and where it collects cannot be seen.
-/

namespace ClassScript

open Binding

namespace Binding

theorem walkProgram_append (first second : List Stmt) :
    walkProgram (first ++ second) = (do walkProgram first; walkProgram second) := by
  unfold walkProgram
  induction first with
  | nil => rfl
  | cons s rest ih =>
      simp only [List.cons_append, walkStmts, scopesAfter_nil, ih, bind_assoc]

end Binding

namespace Machine

variable {m : Machine} {program first second : List Stmt} {d : Distances}

theorem analyse_of_walk (walked : walkProgram program m.distances = .ok () d) :
    m.analyse program = (.ok (), m.knowing d) := by
  unfold analyse
  rw [walked]
  rfl

theorem walk_of_analyse (accepted : (m.analyse program).1 = .ok ()) :
    ∃ d, walkProgram program m.distances = .ok () d := by
  unfold analyse at accepted
  split at accepted
  · exact ⟨_, ‹_›⟩
  · cases accepted

theorem accepted_anywhere (n : Machine) (accepted : (m.analyse program).1 = .ok ()) :
    (n.analyse program).1 = .ok () := by
  obtain ⟨_, walked⟩ := walk_of_analyse accepted
  obtain ⟨_, walked'⟩ := (notes_program program).uniform n.distances walked
  rw [analyse_of_walk walked']

end Machine

namespace Run

variable {visited : Set (Scopes × Expr)} {host : Host} {fuel : Nat} {p : Moment} {d : Distances}

theorem needs_of_ready (ready : Ready visited p.task p.machine)
    (same : ∀ x ∈ visited, ∀ i, ownId x = some i → p.machine.distances[i]? = d[i]?) :
    Needs host d p := by
  intro q run
  have ready := ready_of_moments run ready
  have distances := distances_of_moments run
  have met {scopes : Scopes} {e : Expr} {o : Occurrence} {name : String}
      (mem : (scopes, e) ∈ visited) (occurs : e.occurrence? = some (o, name)) :
      q.machine.distances[o.id]? = d[o.id]? := by
    rw [distances]
    exact same _ mem o.id (by rw [ownId, occurs]; rfl)
  obtain ⟨fuel, task, m⟩ := q
  cases task with
  | lookup o name =>
      obtain ⟨-, scopes, e, mem, occurs, -⟩ := ready
      exact met mem occurs
  | assign o value =>
      obtain ⟨-, scopes, e, mem, occurs, -⟩ := ready
      exact met mem occurs
  | superMethod keyword method =>
      obtain ⟨scopes, -, mem⟩ := ready
      exact met mem rfl
  | _ => trivial

theorem program_append (host : Host) (fuel : Nat) (first second : List Stmt) :
    program host fuel (first ++ second) =
      (do program host fuel first; program host fuel second) := by
  induction first with
  | nil => rfl
  | cons s rest ih =>
      simp only [List.cons_append, program, bind_assoc, ih]
      congr 1
      funext signal
      cases signal <;> rfl

end Run

namespace Machine

variable {m n : Machine} {host : Host} {fuel : Nat} {program first second : List Stmt}
  {d d' : Distances}

theorem alike_concluded {x y : EStateM.Result Halt Machine Unit} (ends : Run.SameEnd x y) :
    (concluded x).1 = (concluded y).1 ∧ (concluded x).2.Alike (concluded y).2 := by
  cases ends with
  | ok alike => exact ⟨rfl, alike_collect alike⟩
  | error alike => exact ⟨rfl, alike_collect alike⟩

theorem alike_interpret_collected (rest : n.AtRest)
    (walked : walkProgram program n.distances = .ok () d) :
    let collected := { n with store := n.store.collect n.environment }
    let one := collected.interpret host fuel program
    let other := concluded (Run.program host fuel program (n.knowing d))
    one.1 = other.1 ∧ one.2.Alike other.2 := by
  intro collected one other
  have analysed : collected.analyse program = (.ok (), collected.knowing d) :=
    analyse_of_walk walked
  have one_eq : one = concluded (Run.program host fuel program (collected.analyse program).2) :=
    interpret_eq_concluded (by rw [analysed])
  rw [analysed] at one_eq
  have alike : (collected.knowing d).Alike (n.knowing d) :=
    .intro (rest.sound.store.alike_self.collect_left rest.sound.environment)
      ⟨rest.collect.sound.environment, rest.sound.environment⟩
  rw [one_eq]
  exact alike_concluded (Run.pairs_program ⟨rfl, rfl, rfl⟩ fuel program alike)

theorem AtRest.registryExact (rest : m.AtRest) (accepted : (m.analyse program).1 = .ok ()) :
    (m.interpret host fuel program).2.store.RegistryExact := by
  have ran := (rest.analyse program).afterProgram host fuel program
  rw [interpret_accepted accepted]
  dsimp only
  rw [ran.environment]
  exact ran.sound.store.registryExact_collect

theorem analyse_append (walked : walkProgram first m.distances = .ok () d)
    (walked' : walkProgram second d = .ok () d') :
    m.analyse (first ++ second) = (.ok (), m.knowing d') := by
  apply analyse_of_walk
  rw [walkProgram_append]
  exact walk_then.mpr ⟨d, walked, walked'⟩

theorem interpret_append (walked : walkProgram first m.distances = .ok () d)
    (walked' : walkProgram second d = .ok () d')
    (blind : Run.Blind d' (Run.program host fuel first) (m.knowing d)) :
    m.interpret host fuel (first ++ second) =
      concluded (match Run.program host fuel first (m.knowing d) with
        | .ok _ n => Run.program host fuel second (n.knowing d')
        | .error e n => .error e (n.knowing d')) := by
  have whole := analyse_append walked walked'
  rw [interpret_eq_concluded (by rw [whole]), whole, Run.program_append]
  unfold Run.Blind at blind
  have start : m.knowing d' = (m.knowing d).knowing d' := rfl
  simp only [bind, EStateM.bind]
  rw [start, blind]
  cases Run.program host fuel first (m.knowing d) <;> rfl

/-- The second program does behind the first one what it does where the two are one program. -/
def Composes (m : Machine) (host : Host) (fuel : Nat) (first second : List Stmt) : Prop :=
  let one := m.interpret host fuel first
  let two := one.2.interpret host fuel second
  let both := m.interpret host fuel (first ++ second)
  (one.1 = .ok () →
    two.2.output = both.2.output ∧ two.1 = both.1 ∧ two.2.started = both.2.started ∧
    two.2.store.scopes.size = both.2.store.scopes.size ∧
    two.2.store.instances.size = both.2.store.instances.size) ∧
  ∀ fault, one.1 = .error fault → both.1 = .error fault ∧ both.2.output = one.2.output

theorem composes_of_blind (rest : m.AtRest) (walked : walkProgram first m.distances = .ok () d)
    (walked' : walkProgram second d = .ok () d')
    (blind : Run.Blind d' (Run.program host fuel first) (m.knowing d)) :
    m.Composes host fuel first second := by
  have accepted : (m.analyse first).1 = .ok () := by rw [analyse_of_walk walked]
  have accepted' : ((m.knowing d).analyse second).1 = .ok () := by rw [analyse_of_walk walked']
  have restored := rest.analyse first
  rw [analyse_of_walk walked] at restored
  have ran := restored.afterProgram host fuel first
  have passed := passes_perform (Run.passes_program host fuel first restored.sound)
  have one_eq : m.interpret host fuel first = _ := interpret_eq_concluded accepted
  have both_eq := interpret_append walked walked' blind
  rw [analyse_of_walk walked] at one_eq
  unfold afterProgram perform at ran
  unfold perform at passed
  unfold Composes
  cases run : Run.program host fuel first (m.knowing d) with
  | error e n =>
      rw [run] at one_eq both_eq
      rw [one_eq, both_eq]
      exact ⟨nofun, fun fault failed => ⟨failed, rfl⟩⟩
  | ok _ n =>
      rw [run] at one_eq both_eq ran passed
      have known : n.distances = d := passed.distances
      -- The runs collect at different moments, but the registries are exact in the end, so that
      -- they count what is reachable.
      have exact : ((m.interpret host fuel first).2.interpret host fuel second).2.store.RegistryExact :=
        (rest.interpret first).registryExact (accepted_anywhere _ accepted')
      have exact' : (m.interpret host fuel (first ++ second)).2.store.RegistryExact :=
        rest.registryExact (by rw [analyse_append walked walked'])
      obtain ⟨result, alike⟩ := alike_interpret_collected ran (known ▸ walked')
      rw [one_eq] at exact ⊢
      rw [both_eq] at exact' ⊢
      refine ⟨fun _ => ?_, fun fault failed => by cases failed⟩
      exact ⟨alike.output, result, alike.started, alike.store.sizes exact exact'⟩

theorem Composes.of_alike (h : n.Composes host fuel first second) (alike : m.Alike n)
    (rest : m.AtRest) (rest' : n.AtRest) (accepted : (m.analyse first).1 = .ok ())
    (accepted' : (m.analyse second).1 = .ok ()) : m.Composes host fuel first second := by
  have same : host.AgreesWith host := ⟨rfl, rfl, rfl⟩
  have one := alike_interpret same alike fuel first
  have two := alike_interpret same one.2 fuel second
  have both := alike_interpret same alike fuel (first ++ second)
  have whole : (m.analyse (first ++ second)).1 = .ok () := by
    obtain ⟨d, walked⟩ := walk_of_analyse accepted
    obtain ⟨d', walked'⟩ := walk_of_analyse (accepted_anywhere (m.knowing d) accepted')
    rw [analyse_append walked walked']
  have behind := two.2.store.sizes
    ((rest.interpret first).registryExact (accepted_anywhere _ accepted'))
    ((rest'.interpret first).registryExact (accepted_anywhere _ accepted'))
  have together := both.2.store.sizes (rest.registryExact whole)
    (rest'.registryExact (accepted_anywhere n whole))
  refine ⟨fun ok => ?_, fun fault failed => ?_⟩
  · obtain ⟨output, result, started, scopes, instances⟩ := h.1 (one.1 ▸ ok)
    refine ⟨?_, ?_, ?_, ?_, ?_⟩
    · exact two.2.output.trans (output.trans both.2.output.symm)
    · exact two.1.trans (result.trans both.1.symm)
    · exact two.2.started.trans (started.trans both.2.started.symm)
    · exact behind.1.trans (scopes.trans together.1.symm)
    · exact behind.2.trans (instances.trans together.2.symm)
  · obtain ⟨result, output⟩ := h.2 fault (one.1 ▸ failed)
    exact ⟨both.1.trans result, both.2.output.trans (output.trans one.2.output.symm)⟩

end Machine

namespace Session

open Machine

variable {programs : List (List Stmt)} {first second : List Stmt} {s : Session} {d d' : Distances}

/-- Nothing that a run of the first program can meet gets another distance when the second program
is analysed as well. -/
theorem blind_first (lexical : Lexical programs s) (rest : s.machine.AtRest)
    (exact : s.machine.store.RegistryExact) (informed : s.machine.Informed second)
    (read : first ∈ programs) (read' : second ∈ programs) (host : Host) (fuel : Nat)
    (walked : walkProgram first s.machine.distances = .ok () d)
    (walked' : walkProgram second d = .ok () d') :
    Run.Blind d' (Run.program host fuel first) (s.machine.knowing d) := by
  have analysed : (s.machine.analyse first).2 = s.machine.knowing d := by
    rw [analyse_of_walk walked]
  have analysed' : ((s.machine.knowing d).analyse second).2 = s.machine.knowing d' := by
    rw [analyse_of_walk walked']
    rfl
  have recorded : Recorded (visits programs) (s.machine.knowing d).distances :=
    analysed ▸ Machine.Recorded.analyse lexical.recorded (within_visits read)
  have kept : ∀ (i distance : Nat), d[i]? = some distance → d'[i]? = d[i]? := by
    intro i distance known
    have again := lexical.kept recorded read' known
    rw [analysed'] at again
    exact again.trans known.symm
  have inFirst : ∀ i ∈ stmtsIds first, d'[i]? = d[i]? := by
    intro i mem
    rcases lexical.disjoint first read second read' with rfl | apart
    · have again := analyse_again (congrArg (·.distances[i]?) analysed.symm)
      rw [analysed', analysed] at again
      exact again
    · have others := analyse_others (apart mem) (s.machine.knowing d)
      rw [analysed'] at others
      exact others
  have inCode : ∀ v, Relation.ReflTransGen s.machine.store.Leads (.scope Store.globals)
      (.value v) → ∀ decl ∈ v.code, ∀ i ∈ functionIds decl, d'[i]? = d[i]? := by
    intro v live decl inCode i mem
    have same := informed.behind (n := s.machine.knowing d) live inCode mem fun distance known =>
      analysed ▸ lexical.kept lexical.recorded read known
    rw [analysed'] at same
    exact same
  have within := within_visitsOf (within_visits read) (ownIds_stmtsVisits [] first ▸ inFirst)
  have ready : Run.Ready (visitsOf (visits programs) fun i => d'[i]? = d[i]?) (.program first)
      (s.machine.knowing d) :=
    ⟨(analysed ▸ rest.analyse first).located (lexical.placed.visitsOf exact inCode)
      (recorded.visitsOf kept), within⟩
  apply Run.blind_program
  exact Run.needs_of_ready ready fun x mem i own => (mem.2 i own).symm

/-- A session composes: if a program ends without a fault, a second one behind it prints the same
lines, ends in the same way, starts and so asks the host at the same number of statements, and
leaves as many live scopes and instances as when the two are run as one program; and if the first
program fails, so does the one program, with the same fault and the same lines printed. The state
that it starts in is any one that a session comes to, if it holds no function of the second program
that an analysis would still give a distance. -/
theorem runs_compose (reached : Reached programs s) (read : first ∈ programs)
    (read' : second ∈ programs) (informed : s.machine.Informed second) (host : Host) (fuel : Nat)
    (accepted : (s.machine.analyse first).1 = .ok ())
    (accepted' : (s.machine.analyse second).1 = .ok ()) :
    let one := s.machine.interpret host fuel first
    let two := one.2.interpret host fuel second
    let both := s.machine.interpret host fuel (first ++ second)
    (one.1 = .ok () →
      two.2.output = both.2.output ∧ two.1 = both.1 ∧ two.2.started = both.2.started ∧
      two.2.store.scopes.size = both.2.store.scopes.size ∧
      two.2.store.instances.size = both.2.store.instances.size) ∧
    ∀ fault, one.1 = .error fault → both.1 = .error fault ∧ both.2.output = one.2.output := by
  have rest := reached.atRest
  have lexical := reached.lexical
  -- Without the garbage, which may hold code that is not known yet, the machine does the same.
  let bare : Machine := { s.machine with store := s.machine.store.collect s.machine.environment }
  have alike : s.machine.Alike bare :=
    .intro (rest.sound.store.alike_self.collect_right rest.sound.environment)
      ⟨rest.sound.environment, rest.collect.sound.environment⟩
  have inBare : Lexical programs { s with machine := bare } :=
    lexical.step (lexical.placed.collect rest.sound.store rest.sound.environment) lexical.recorded
  have exact : bare.store.RegistryExact := by
    have collected := rest.sound.store.registryExact_collect
    rw [← rest.environment] at collected
    exact collected
  obtain ⟨d, walked⟩ := walk_of_analyse (accepted_anywhere bare accepted)
  obtain ⟨d', walked'⟩ := walk_of_analyse (accepted_anywhere (bare.knowing d) accepted')
  have blind := blind_first inBare rest.collect exact (informed.alike alike) read read' host fuel
    walked walked'
  have composes := composes_of_blind rest.collect walked walked' blind
  exact composes.of_alike alike rest rest.collect accepted accepted'

def functionName : Token := ⟨.identifier, "f", none, 1⟩

def functionTokens : List Token :=
  [⟨.kwFun, "fun", none, 1⟩, functionName, ⟨.leftParen, "(", none, 1⟩, ⟨.rightParen, ")", none, 1⟩,
    ⟨.leftBrace, "\x7b", none, 1⟩, ⟨.kwVar, "var", none, 1⟩, localName, ⟨.semicolon, ";", none, 1⟩,
    ⟨.kwPrint, "print", none, 1⟩, localName, ⟨.semicolon, ";", none, 1⟩,
    ⟨.rightBrace, "\x7d", none, 1⟩, .endOfInput 1]

def functionProgram : List Stmt :=
  [.funDecl ⟨functionName, [], [.varDecl localName none, .print (.var ⟨0, localName⟩)]⟩]

def callTokens : List Token :=
  [functionName, ⟨.leftParen, "(", none, 1⟩, ⟨.rightParen, ")", none, 1⟩, ⟨.semicolon, ";", none, 1⟩,
    .endOfInput 1]

def callProgram : List Stmt :=
  [.expression (.call (.var ⟨1, functionName⟩) ⟨.rightParen, ")", none, 1⟩ [])]

theorem reached_callProgram :
    Reached [callProgram, functionProgram] { initial with nextId := 2 } := by
  have parsed : (parseProgram initial.nextId functionTokens).result = .ok functionProgram := by cbv
  have next : (parseProgram initial.nextId functionTokens).nextId = 1 := by cbv
  have parsed' : (parseProgram 1 callTokens).result = .ok callProgram := by cbv
  have next' : (parseProgram 1 callTokens).nextId = 2 := by cbv
  have reached := Reached.read functionTokens .initial (by decide) parsed
  rw [next] at reached
  have reached' := Reached.read callTokens reached (by decide) parsed'
  rw [next'] at reached'
  exact reached'

theorem runs_compose_known : ∃ s, Reached [callProgram, functionProgram] s ∧
    s.machine.Informed functionProgram ∧
    let host := Host.standard fun _ => 0
    let one := s.machine.interpret host 9 callProgram
    let both := s.machine.interpret host 9 (callProgram ++ functionProgram)
    one.1 = .ok () ∧ (one.2.interpret host 9 functionProgram).2.output = both.2.output := by
  let host := Host.standard fun _ => 0
  obtain ⟨s, reached, is⟩ : ∃ s, Reached [callProgram, functionProgram] s ∧
      s.machine = (initial.machine.interpret host 9 functionProgram).2 :=
    ⟨_, .interpreted host 9 reached_callProgram (List.mem_cons_of_mem _ List.mem_cons_self), rfl⟩
  have informed : s.machine.Informed functionProgram := is ▸ informed_interpret _ _ _ _
  have accepted : (s.machine.analyse callProgram).1 = .ok () := by rw [is]; cbv
  have accepted' : (s.machine.analyse functionProgram).1 = .ok () := by rw [is]; cbv
  have ended : (s.machine.interpret host 9 callProgram).1 = .ok () := by rw [is]; cbv
  obtain ⟨composes, -⟩ := runs_compose reached List.mem_cons_self
    (List.mem_cons_of_mem _ List.mem_cons_self) informed host 9 accepted accepted'
  exact ⟨s, reached, informed, ended, (composes ended).1⟩

/-- A function that was declared without an analysis of its program does not find its own variable,
unless the analysis of the program behind the call is made before the call. -/
theorem runs_differ_unknown : ∃ s, Reached [callProgram, functionProgram] s ∧
    let host := Host.standard fun _ => 0
    let one := s.machine.interpret host 9 callProgram
    let both := s.machine.interpret host 9 (callProgram ++ functionProgram)
    (s.machine.analyse callProgram).1 = .ok () ∧ (s.machine.analyse functionProgram).1 = .ok () ∧
    one.1 = .error (.runtime ⟨.undefinedVariable "a", 1⟩) ∧ one.2.output = #[] ∧
    both.1 = .ok () ∧ both.2.output = #["nil"] := by
  let host := Host.standard fun _ => 0
  have reached := Reached.executed host 9 reached_callProgram
    (List.mem_cons_of_mem _ List.mem_cons_self) List.mem_cons_self
  refine ⟨_, reached, ?_, ?_, ?_, ?_, ?_, ?_⟩ <;> cbv

end Session

end ClassScript
