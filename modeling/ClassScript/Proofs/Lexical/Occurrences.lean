import ClassScript.Proofs.Lexical.Ancestors
import ClassScript.Proofs.Lexical.Sessions

namespace ClassScript

open Binding Store

namespace Store

theorem holder?_globals (s : Store) (name : String) :
    s.holder? globals name = if (s.bindings globals).contains name then some globals else none := by
  rw [holder?, globals, holderWithin]

theorem get_globals (s : Store) (name : String) :
    (s.holder? globals name).bind (fun holder => (s.bindings holder).get? name) =
      (s.bindings globals).get? name := by
  rw [holder?_globals]
  unfold Bindings.contains
  cases found : (s.bindings globals).get? name <;> simp [found]

end Store

namespace Machine

variable {m : Machine} {o : Occurrence} {name : String} {value : Value}

def scopeOf (m : Machine) (o : Occurrence) : Option Address :=
  match m.distances[o.id]? with
  | some distance => m.store.ancestor? m.environment distance
  | none => some globals

end Machine

namespace Run

variable {host : Host} {m : Machine} {p q first : Moment} {o : Occurrence} {name : String}
  {visited : Set (Scopes × Expr)}

def Task.occurrence? : Task → Option (Occurrence × String)
  | .lookup o name => some (o, name)
  | .assign o _ => some (o, o.token.lexeme)
  | .superMethod keyword _ => some (keyword, superclassName)
  | _ => none

/-- The scope that a task about an occurrence reads or changes. -/
def Moment.scope? (p : Moment) : Option Address :=
  match p.task with
  | .lookup o _ => p.machine.scopeOf o
  | .assign o _ => p.machine.scopeOf o
  | .superMethod keyword _ => (p.machine.distances[keyword.id]?).bind fun distance =>
    p.machine.store.ancestor? p.machine.environment distance
  | _ => none

theorem lookup_eq (o : Occurrence) (name : String) (m : Machine) :
    lookup o name m =
      match (m.scopeOf o).bind fun scope => (m.store.bindings scope).get? name with
      | some value => .ok value m
      | none => .error (.fault (undefined name o.token.line)) m := by
  unfold lookup Machine.scopeOf
  cases m.distances[o.id]? with
  | some d =>
      dsimp only [getAt]
      cases (m.store.ancestor? m.environment d).bind fun scope =>
        (m.store.bindings scope).get? name <;> rfl
  | none =>
      rw [Store.get, get_globals]
      cases found : (m.store.bindings globals).get? name <;> simp [found]

theorem assign_eq (o : Occurrence) (value : Value) (m : Machine) :
    assign o value m =
      match (m.scopeOf o).filter fun scope => (m.store.bindings scope).contains o.token.lexeme with
      | some scope => .ok () { m with store := m.store.define scope o.token.lexeme value }
      | none => .error (.fault (undefined o.token.lexeme o.token.line)) m := by
  unfold assign Machine.scopeOf
  cases m.distances[o.id]? with
  | some d =>
      dsimp only [targetAt]
      cases m.store.ancestor? m.environment d with
      | none => rfl
      | some scope =>
          rw [Option.filter_some]
          cases bound : (m.store.bindings scope).contains o.token.lexeme <;> simp [bound]
  | none =>
      dsimp only [target]
      rw [holder?_globals, Option.filter_some]
      cases (m.store.bindings globals).contains o.token.lexeme <;> rfl

theorem scope?_of_distance {d : Nat} (uses : p.task.occurrence? = some (o, name))
    (known : p.machine.distances[o.id]? = some d) :
    p.scope? = p.machine.store.ancestor? p.machine.environment d := by
  obtain ⟨fuel, task, m⟩ := p
  cases task with
  | lookup o' name' | assign o' value | superMethod keyword method =>
      cases uses
      simp only [Moment.scope?, Machine.scopeOf, known, Option.bind_some]
  | _ => cases uses

theorem scope?_of_no_distance (uses : p.task.occurrence? = some (o, name))
    (ne : name ≠ superclassName) (unknown : p.machine.distances[o.id]? = none) :
    p.scope? = some globals := by
  obtain ⟨fuel, task, m⟩ := p
  cases task with
  | lookup o' name' | assign o' value =>
      cases uses
      simp only [Moment.scope?, Machine.scopeOf, unknown]
  | superMethod keyword method =>
      cases uses
      exact absurd rfl ne
  | _ => cases uses

theorem Ready.sound {task : Task} (h : Ready visited task m) (none : task.occurrence? = none) :
    m.Sound := by
  cases task with
  | eval e | evalAll es | exec s | execAll ss | execLoop condition body increment =>
      obtain ⟨scopes, located, -⟩ := h
      exact located.sound
  | call f args line => exact h.1.sound
  | invoke closure args line => exact h.1.sound
  | program ss => exact h.1.sound
  | lookup o name | assign o value | superMethod keyword method => cases none

theorem sound_of_enters (enters : Enters host p q) (h : Ready visited p.task p.machine) :
    q.machine.Sound := by
  have ready := ready_of_enters enters h
  cases enters with
  | var | this | super => exact h.sound rfl
  | assign value =>
      obtain ⟨scopes, located, within⟩ := h
      exact (located_eval located (within_cons.mp within).2 value).1.sound
  | superclass begins _ _ =>
      obtain ⟨scopes, located, -⟩ := h
      exact (located_begins located begins).sound
  | _ => exact Ready.sound ready rfl

theorem sound_of_moments (run : Relation.ReflTransGen (Enters host) first p)
    (start : first.machine.Sound) (h : Ready visited first.task first.machine) :
    p.machine.Sound := by
  cases run with
  | refl => exact start
  | tail before enters => exact sound_of_enters enters (ready_of_moments before h)

theorem Ready.occurs (h : Ready visited p.task p.machine)
    (uses : p.task.occurrence? = some (o, name)) : Recorded visited p.machine.distances ∧
      ∃ scopes e, (scopes, e) ∈ visited ∧ e.occurrence? = some (o, name) ∧
        p.machine.store.ancestor? p.machine.environment scopes.length = some globals := by
  obtain ⟨fuel, task, m⟩ := p
  have met : Met visited o name m := by
    cases task with
    | lookup o' name' | assign o' value =>
        cases uses
        exact h
    | superMethod keyword method =>
        cases uses
        obtain ⟨scopes, located, mem⟩ := h
        exact met_of_visit located mem rfl
    | _ => cases uses
  obtain ⟨recorded, scopes, e, mem, he, at_scopes⟩ := met
  refine ⟨recorded, scopes, e, mem, he, ?_⟩
  rcases at_scopes with agree | ⟨own, around, -, rfl, agree⟩
  · exact agree.outermost
  · cases around with
    | nil => exact agree.outermost
    | cons names rest => exact agree.outermost

end Run

namespace Session

open Run

/-- The first moment of a step of a session: of a program that the analysis accepts, or of a single
expression or statement of a program. -/
inductive Begins (programs : List (List Stmt)) (s : Session) : Moment → Prop
  | program {fuel program} : program ∈ programs → (s.machine.analyse program).1 = .ok () →
      Begins programs s ⟨fuel, .program program, (s.machine.analyse program).2⟩
  | eval {fuel program e} : program ∈ programs → .expression e ∈ program →
      Begins programs s ⟨fuel, .eval e, s.machine⟩
  | exec {fuel program statement} : program ∈ programs → statement ∈ program →
      Begins programs s ⟨fuel, .exec statement, s.machine⟩

variable {programs : List (List Stmt)} {s : Session} {host : Host} {p q first : Moment}
  {o : Occurrence} {name : String}

theorem Begins.ready (begins : s.Begins programs first) (reached : Reached programs s) :
    Ready (visits programs) first.task first.machine := by
  have lexical := reached.lexical
  have rest := reached.atRest
  cases begins with
  | @program fuel program mem accepted =>
      have start : _ ∈ s.machine.moments (Host.standard fun _ => 0) fuel program :=
        ⟨accepted, .refl⟩
      exact lexical.ready rest mem start
  | eval mem inProgram | exec mem inProgram =>
      have within := within_statement (within_visits mem) inProgram
      exact ⟨[], rest.located lexical.placed lexical.recorded, within⟩

theorem Begins.sound (begins : s.Begins programs first) (reached : Reached programs s) :
    first.machine.Sound := by
  have ready := begins.ready reached
  cases begins with
  | program _ _ | eval _ _ | exec _ _ => exact Ready.sound ready rfl

end Session

end ClassScript
