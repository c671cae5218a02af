import ClassScript.Proofs.Lexical.Ancestors
import ClassScript.Proofs.Run.Order

namespace ClassScript.Run

open Binding Store Machine

variable {host : Host} {m n : Machine} {p q a b a' b' first : Moment}

theorem Opens.fresh {task : Task} (h : Opens host n task q) (opens : task.OpensScope) :
    q.machine.environment = n.store.cells.size ∧
      n.store.cells.size < q.machine.store.cells.size := by
  have one (s : Store) (parent : Address) : s.cells.size < (s.newScope parent).2.cells.size := by
    simp [Store.newScope]
  cases h with
  | goOn none | loop none => exact absurd opens none
  | block => exact ⟨rfl, one _ _⟩
  | call _ => exact ⟨rfl, (one _ _).trans_le (extends_defineAll _ _ _).size_le⟩

theorem Opens.environment {task : Task} (h : Opens host n task q) (none : ¬ task.OpensScope) :
    q.machine.environment = n.environment := by
  cases h with
  | goOn _ | loop _ => rfl
  | block | call _ => exact absurd trivial none

theorem Opens.block_parent {body : List Stmt} {line : Nat}
    (h : Opens host n (.exec (.block body line)) q) :
    q.machine.store.parent? q.machine.environment = some n.environment := by
  cases h with
  | goOn none | loop none => exact absurd trivial none
  | block => exact parent?_newScope n.store n.environment

theorem Opens.call_parent {closure : Closure} {args : List Value} {line : Nat}
    (h : Opens host n (.invoke closure args line) q) :
    q.machine.store.parent? q.machine.environment = some closure.scope := by
  cases h with
  | goOn none | loop none => exact absurd trivial none
  | call _ => exact (extends_defineAll _ _ _).parent? (parent?_newScope n.store closure.scope)

theorem opened_new (enters : Enters host a b) (opens : a.task.OpensScope) :
    a.machine.store.cells.size ≤ b.machine.environment ∧
      b.machine.environment < b.machine.store.cells.size := by
  obtain ⟨n, returns, opened⟩ := opens_of_enters enters
  obtain ⟨fresh, lt⟩ := opened.fresh opens
  rw [fresh]
  exact ⟨returns.ext.size_le, lt⟩

theorem opensScope_of_block {body : List Stmt} {line : Nat}
    (is : p.task = .exec (.block body line)) : p.task.OpensScope := by
  rw [is]
  trivial

theorem sole_part (opens : p.task.OpensScope) (ha : Enters host p a) (hb : Enters host p b) :
    a = b := by
  cases ha with
  | callBody depth created =>
      cases hb with
      | callBody depth' created' =>
          obtain ⟨-, rfl⟩ := ok_unique depth depth'
          obtain ⟨rfl, rfl⟩ := ok_unique created created'
          rfl
  | block begins created =>
      cases hb with
      | block begins' created' =>
          obtain ⟨-, rfl⟩ := ok_unique begins begins'
          obtain ⟨rfl, rfl⟩ := ok_unique created created'
          rfl
  | _ => exact opens.elim

theorem opened_later (ha : Enters host a b) (opens : a.task.OpensScope) (ha' : Enters host a' b')
    (opens' : a'.task.OpensScope) (precedes : Precedes host a a') :
    b.machine.environment < b'.machine.environment := by
  have behind : b.machine.store.Extends a'.machine.store := by
    cases precedes with
    | inside run =>
        obtain ⟨c, enters, rest⟩ := Relation.TransGen.head'_iff.mp run
        obtain rfl := sole_part opens enters ha
        exact extends_of_moments rest
    | past past => exact (((advances_finish host b).trans (finish_of_enters ha)).trans past).1
  have new := (opened_new ha opens).2
  have new' := (opened_new ha' opens').1
  exact (new.trans_le behind.size_le).trans_le new'

theorem opened_once (ha : Relation.ReflTransGen (Enters host) first a) (hb : Enters host a b)
    (opens : a.task.OpensScope) (ha' : Relation.ReflTransGen (Enters host) first a')
    (hb' : Enters host a' b') (opens' : a'.task.OpensScope)
    (same : b.machine.environment = b'.machine.environment) : a = a' := by
  rcases comparable ha ha' with eq | before | after
  · exact eq
  · exact absurd same (opened_later hb opens hb' opens' before).ne
  · exact absurd same (opened_later hb' opens' hb opens after).ne'

def Task.IsCall : Task → Prop
  | .invoke _ _ _ => True
  | _ => False

/-- The task of `q` is a part of the task of `p` without being the body of a call. -/
structure Stays (host : Host) (p q : Moment) : Prop where
  enters : Enters host p q
  notCall : ¬ p.task.IsCall

/-- A call in the run that starts with `first`: a closure is invoked, and its body is entered. -/
structure Call (host : Host) (first : Moment) where
  start : Moment
  body : Moment
  closure : Closure
  args : List Value
  line : Nat
  moment : Relation.ReflTransGen (Enters host) first start
  invokes : start.task = .invoke closure args line
  enters : Enters host start body

namespace Call

variable (c c' : Call host first)

/-- The scope of the parameters, which is also that of the top level of the body. -/
def scope : Address := c.body.machine.environment

/-- A moment of the call itself, as opposed to the calls that it makes. -/
def During (p : Moment) : Prop := Relation.ReflTransGen (Stays host) c.body p

/-- The scope of the call is a number of steps outward from the environment, as it also is in
functions that are declared in the body. -/
def Encloses (p : Moment) (steps : Nat) : Prop :=
  p.machine.store.ancestor? p.machine.environment steps = some c.scope

/-- The scopes that the call creates: its own one and those of the blocks in it. -/
inductive Owns : Address → Prop
  | own : Owns c.scope
  | block {p q body line scope} : c.During p → p.task = .exec (.block body line) →
      Enters host p q → Owns p.machine.environment → q.machine.environment = scope → Owns scope

variable {c c'} {scope : Address}

theorem opensScope : c.start.task.OpensScope := by
  rw [c.invokes]
  trivial

theorem body_moment : Relation.ReflTransGen (Enters host) first c.body := c.moment.tail c.enters

theorem During.inside (h : c.During p) : Relation.ReflTransGen (Enters host) c.body p := by
  induction h with
  | refl => exact .refl
  | tail _ step ih => exact ih.tail step.enters

theorem During.moment (h : c.During p) : Relation.ReflTransGen (Enters host) first p :=
  c.body_moment.trans h.inside

theorem parent?_scope : c.body.machine.store.parent? c.scope = some c.closure.scope := by
  obtain ⟨n, -, opens⟩ := opens_of_enters c.enters
  rw [c.invokes] at opens
  exact opens.call_parent

theorem scope_new : c.start.machine.store.cells.size ≤ c.scope ∧
    c.scope < c.body.machine.store.cells.size := opened_new c.enters c.opensScope

theorem start_eq_of_owns (h : c.Owns scope) (h' : c'.Owns scope) : c.start = c'.start := by
  -- Scopes are opened once, so scopes that are the same were opened by the same task.
  induction h with
  | own =>
      generalize eq : c.scope = scope at h'
      cases h' with
      | own => exact opened_once c.moment c.enters c.opensScope c'.moment c'.enters c'.opensScope eq
      | block during is enters _ eq' =>
          have same := opened_once c.moment c.enters c.opensScope during.moment enters
            (opensScope_of_block is) (eq.trans eq'.symm)
          have task := c.invokes
          rw [same, is] at task
          cases task
  | @block p q _ _ scope during is enters _ eq ih =>
      have opens := opensScope_of_block is
      cases h' with
      | own =>
          have same := opened_once during.moment enters opens c'.moment c'.enters c'.opensScope eq
          have task := c'.invokes
          rw [← same, is] at task
          cases task
      | block during' is' enters' around eq' =>
          have same := opened_once during.moment enters opens during'.moment enters'
            (opensScope_of_block is') (eq.trans eq'.symm)
          exact ih (same ▸ around)

theorem During.owned (h : c.During p) : ∃ steps, c.Encloses p steps ∧ ∀ i ≤ steps, ∀ scope,
    p.machine.store.ancestor? p.machine.environment i = some scope → c.Owns scope := by
  induction h with
  | refl =>
      refine ⟨0, rfl, fun i le scope around => ?_⟩
      obtain rfl := Nat.le_zero.mp le
      cases around
      exact .own
  | @tail p q during step ih =>
      obtain ⟨steps, encloses, owned⟩ := ih
      obtain ⟨n, returns, opens⟩ := opens_of_enters step.enters
      have ext := extends_of_enters step.enters
      have kept {i : Nat} (le : i ≤ steps) {scope : Address} (around :
          q.machine.store.ancestor? p.machine.environment i = some scope) : c.Owns scope := by
        obtain ⟨scope', around', -⟩ := exists_ancestor? encloses le
        obtain rfl := ancestor?_unique (.inl ext) around' around
        exact owned i le scope' around'
      -- Only a block opens a scope here: what a call opens belongs to that call.
      by_cases none : p.task.OpensScope
      · obtain ⟨fuel, task, m⟩ := p
        cases task with
        | invoke closure args line => exact absurd trivial step.notCall
        | exec s =>
            cases s with
            | block body line =>
                have parent := opens.block_parent
                rw [returns.environment] at parent
                refine ⟨steps + 1, ?_, fun i le scope around => ?_⟩
                · exact (ancestor?_succ parent steps).trans (ext.ancestor? encloses)
                · cases i with
                  | zero =>
                      cases around
                      exact .block during rfl step.enters (owned 0 (Nat.zero_le _) _ rfl) rfl
                  | succ i =>
                      rw [ancestor?_succ parent] at around
                      exact kept (Nat.le_of_succ_le_succ le) around
            | _ => exact none.elim
        | _ => exact none.elim
      · have same := (opens.environment none).trans returns.environment
        refine ⟨steps, ?_, fun i le scope around => kept le (same ▸ around)⟩
        unfold Encloses
        rw [same]
        exact ext.ancestor? encloses

theorem Encloses.lt {steps : Nat} (h : c.Encloses p steps) (sound : p.machine.Sound) :
    c.scope < p.machine.store.cells.size := by
  obtain ⟨parent, bs, cell⟩ := sound.store.scopeListed_cell
    (sound.store.ancestor?_listed sound.environment h)
  exact (Array.getElem?_eq_some_iff.mp cell).1

theorem Encloses.later {steps : Nat} (h : c.Encloses p steps) (sound : p.machine.Sound)
    (run : Relation.ReflTransGen (Enters host) first p) :
    c.body.machine.store.Extends p.machine.store := by
  have behind : c.start.machine.store.cells.size < p.machine.store.cells.size :=
    c.scope_new.1.trans_lt (h.lt sound)
  rcases comparable c.moment run with eq | before | after
  · rw [eq] at behind
    exact absurd behind (Nat.lt_irrefl _)
  · cases before with
    | inside inner =>
        obtain ⟨b, enters, rest⟩ := Relation.TransGen.head'_iff.mp inner
        obtain rfl := sole_part c.opensScope enters c.enters
        exact extends_of_moments rest
    | past past =>
        exact (((advances_finish host c.body).trans (finish_of_enters c.enters)).trans past).1
  · exact absurd after.extends.size_le (Nat.not_le.mpr behind)

theorem Encloses.outside {steps : Nat} (h : c.Encloses p steps)
    (later : c.body.machine.store.Extends p.machine.store) :
    p.machine.store.ancestor? p.machine.environment (steps + 1) = some c.closure.scope := by
  rw [ancestor?_append h, ancestor?_succ (later.parent? c.parent?_scope)]
  rfl

theorem start_eq_of_scope (same : c.scope = c'.scope) : c.start = c'.start :=
  opened_once c.moment c.enters c.opensScope c'.moment c'.enters c'.opensScope same

end Call

end ClassScript.Run
