import Mathlib
import ClassScript.Proofs.Binding.Surrounded
import ClassScript.Proofs.Lexical.Occurrences
import ClassScript.Proofs.Run.Calls

/-!
# Closures are lexical

An occurrence in a function stands for the same scope in all calls of the function if the analysis
binds it outside of the function, and for a scope that the call itself creates if it is bound
inside (`closures_lexical`). The distance is the same in all calls, because the scopes of the body
are those of the analysis (`body_scopes`); what lies behind them has been fixed ever since
the scope of the function exists.
-/

namespace ClassScript

open Binding Store

namespace Store

/-- The closure `c` is the method `f` bound to a receiver whose class has `f`. -/
structure Binds (s : Store) (f c : Closure) : Prop where
  decl : c.decl = f.decl
  parent : s.parent? c.scope = some f.scope
  receiver : ∃ id object, (s.bindings c.scope).get? receiverName = some (.instance id object) ∧
    ∃ layer ∈ object.layers, ∃ name, (name, f) ∈ layer.methods

end Store

/-- The call is one of the function `f`, or one of the method `f` through a bound method, which has
one scope more for the receiver. -/
inductive Run.Call.Of {host : Host} {first : Run.Moment} (c : Run.Call host first) (f : Closure) :
    (receivers : Nat) → Prop
  | function : c.closure = f → Of c f 0
  | method : c.start.machine.store.Binds f c.closure → Of c f 1

namespace Run.Call

variable {host : Host} {first p q : Moment} {c : Call host first} {f : Closure} {j k e : Nat}
  {scope : Address}

/-- At the moment `p`, in a call of `f`, there is an occurrence in `f`. The moments of the call
itself count, and all others with the scope of the call around them, in functions that are declared
in the body. -/
structure Meets (c : Call host first) (f : Closure) (j : Nat) (p : Moment) (o : Occurrence)
    (name : String) : Prop where
  of : c.Of f j
  run : Relation.ReflTransGen (Enters host) first p
  within : c.During p ∨ ∃ k, c.Encloses p k
  uses : p.task.occurrence? = some (o, name)
  inside : o.id ∈ functionIds f.decl

/-- The same with the number of scopes up to that of the call. -/
structure MeetsAt (c : Call host first) (f : Closure) (j k : Nat) (p : Moment) (o : Occurrence)
    (name : String) : Prop where
  of : c.Of f j
  run : Relation.ReflTransGen (Enters host) first p
  encloses : c.Encloses p k
  uses : p.task.occurrence? = some (o, name)
  inside : o.id ∈ functionIds f.decl

theorem Meets.steps {o : Occurrence} {name : String} (h : c.Meets f j p o name) :
    ∃ k, c.MeetsAt f j k p o name := by
  obtain ⟨of, run, within, uses, inside⟩ := h
  rcases within with during | ⟨k, encloses⟩
  · obtain ⟨k, encloses, -⟩ := during.owned
    exact ⟨k, of, run, encloses, uses, inside⟩
  · exact ⟨k, of, run, encloses, uses, inside⟩

theorem Of.decl (of : c.Of f j) : c.closure.decl = f.decl := by
  cases of with
  | function eq => rw [eq]
  | method binds => exact binds.decl

theorem Of.around (of : c.Of f j) :
    c.start.machine.store.ancestor? c.closure.scope j = some f.scope := by
  cases of with
  | function eq =>
      rw [eq]
      rfl
  | method binds => exact ancestor?_succ binds.parent 0

theorem Encloses.beyond (h : c.Encloses p k) (of : c.Of f j) (sound : p.machine.Sound)
    (run : Relation.ReflTransGen (Enters host) first p) (e : Nat) :
    p.machine.store.ancestor? p.machine.environment (k + 1 + j + e) =
      p.machine.store.ancestor? f.scope e := by
  have later := h.later sound run
  have around := ((extends_of_enters c.enters).trans later).ancestor? of.around
  rw [← ancestor?_append (h.outside later)] at around
  exact ancestor?_append around e

theorem Of.fixed (of : c.Of f j) (listed : c.start.machine.store.ScopeListed c.closure.scope)
    (sound : c.start.machine.Sound)
    (around : c.start.machine.store.ancestor? f.scope e = some scope)
    (run : Relation.ReflTransGen (Enters host) first q) (lt : f.scope < q.machine.store.cells.size) :
    q.machine.store.ancestor? f.scope e = some scope := by
  rcases ordered c.moment run with later | earlier
  · exact later.ancestor? around
  · have listed' := sound.store.ancestor?_listed listed of.around
    rw [earlier.ancestor?_eq sound.store listed' lt]
    exact around

end Run.Call

namespace Session

open Run

variable {programs : List (List Stmt)} {s : Session} {host : Host} {first : Moment}
  {c c₁ c₂ : Call host first} {f : Closure} {j k k₁ k₂ d : Nat} {p p₁ p₂ : Moment}
  {o : Occurrence} {name : String}

/-- The scopes around an occurrence in a function: those that the body opens, which are as many as
there are up to the scope of the call, and those around the function. -/
structure BodyScopes (programs : List (List Stmt)) (c : Call host first) (k : Nat) (o : Occurrence)
    (name : String) (inner outer : Scopes) (e : Expr) : Prop where
  inBody : (inner, e) ∈ functionVisits [] c.closure.decl
  occurs : e.occurrence? = some (o, name)
  visited : (inner ++ outer, e) ∈ visits programs
  length : inner.length = k + 1
  agree : c.start.machine.store.ScopesAgree c.closure.scope outer

theorem intact_start (reached : Reached programs s) (begins : s.Begins programs first)
    (c : Call host first) : c.start.machine.Intact (visits programs) ∧
      c.start.machine.store.ClosureOwned (visits programs) c.closure := by
  have invoked := ready_of_moments c.moment (begins.ready reached)
  rw [c.invokes] at invoked
  exact ⟨invoked.1, invoked.2.1⟩

theorem body_scopes (reached : Reached programs s) (begins : s.Begins programs first)
    (meets : c.MeetsAt f j k p o name) :
    ∃ inner outer e, BodyScopes programs c k o name inner outer e := by
  have ready := begins.ready reached
  have sound := sound_of_moments meets.run (begins.sound reached) ready
  -- The body stands at the place of the closure.
  obtain ⟨outer, agree, within⟩ := (intact_start reached begins c).2.placed
  have inside := meets.inside
  rw [← meets.of.decl, ← ownIds_functionVisits []] at inside
  obtain ⟨⟨inner, e⟩, inBody, own⟩ := List.mem_filterMap.mp inside
  rw [function_surround] at within
  have here := within _ (List.mem_map_of_mem inBody)
  -- There is only one place for the occurrence.
  obtain ⟨-, scopes, e', mem, occurs, depth⟩ := (ready_of_moments meets.run ready).occurs meets.uses
  have own' : ownId (scopes, e') = some o.id := by simp [ownId, occurs]
  obtain ⟨rfl, rfl⟩ := Prod.mk.inj (reached.lexical.unique _ here _ mem _ own own')
  refine ⟨inner, outer, e, inBody, occurs, here, ?_, agree⟩
  have later := meets.encloses.later sound meets.run
  have around := ((extends_of_enters c.enters).trans later).ancestor? agree.outermost
  rw [← ancestor?_append (meets.encloses.outside later)] at around
  have total := depth_unique sound.store.parent?_globals around depth
  simp only [List.length_append] at total
  omega

theorem BodyScopes.depth {inner outer : Scopes} {e : Expr}
    (body : BodyScopes programs c k o name inner outer e) (of : c.Of f j)
    (sound : c.start.machine.Sound) : j ≤ outer.length ∧
      c.start.machine.store.ancestor? f.scope (outer.length - j) = some globals := by
  have le := le_of_depth sound.store.parent?_globals body.agree.outermost of.around
  obtain ⟨scope, around, depth⟩ := exists_ancestor? body.agree.outermost le
  rw [of.around] at around
  cases around
  exact ⟨le, depth⟩

theorem steps_eq (reached : Reached programs s) (begins : s.Begins programs first)
    (meets₁ : c₁.MeetsAt f j k₁ p₁ o name) (meets₂ : c₂.MeetsAt f j k₂ p₂ o name) : k₁ = k₂ := by
  obtain ⟨inner₁, outer₁, e₁, body₁⟩ := body_scopes reached begins meets₁
  obtain ⟨inner₂, outer₂, e₂, body₂⟩ := body_scopes reached begins meets₂
  have own₁ : ownId (inner₁ ++ outer₁, e₁) = some o.id := by simp [ownId, body₁.occurs]
  have own₂ : ownId (inner₂ ++ outer₂, e₂) = some o.id := by simp [ownId, body₂.occurs]
  have same := reached.lexical.unique _ body₁.visited _ body₂.visited _ own₁ own₂
  have lengths := congrArg (fun visit => visit.1.length) same
  simp only [List.length_append, body₁.length, body₂.length] at lengths
  have sound₁ := (intact_start reached begins c₁).1.sound
  have sound₂ := (intact_start reached begins c₂).1.sound
  have depth₁ := body₁.depth meets₁.of sound₁
  have depth₂ := body₂.depth meets₂.of sound₂
  have depths : outer₁.length - j = outer₂.length - j := by
    rcases ordered c₁.moment c₂.moment with ext | ext
    · exact depth_unique sound₂.store.parent?_globals (ext.ancestor? depth₁.2) depth₂.2
    · exact depth_unique sound₁.store.parent?_globals depth₁.2 (ext.ancestor? depth₂.2)
  omega

theorem distance_lt (reached : Reached programs s) (begins : s.Begins programs first)
    (meets : c.MeetsAt f j k p o name) {inner outer : Scopes} {e : Expr}
    (body : BodyScopes programs c k o name inner outer e)
    (known : p.machine.distances[o.id]? = some d) :
    distance? name (inner ++ outer) = some d ∧ d < k + 1 + outer.length := by
  have recorded := ((ready_of_moments meets.run (begins.ready reached)).occurs meets.uses).1
  have found := reached.lexical.distance recorded body.visited body.occurs known
  obtain ⟨names, here, -⟩ := names_of_distance? found
  have lt := (List.getElem?_eq_some_iff.mp here).1
  rw [List.length_append, body.length] at lt
  exact ⟨found, lt⟩

theorem scope?_outside (reached : Reached programs s) (begins : s.Begins programs first)
    (meets : c.MeetsAt f j k p o name) (known : p.machine.distances[o.id]? = some d)
    (outside : k + j < d) : f.scope < p.machine.store.cells.size ∧
      ∃ scope, p.scope? = some scope ∧ ∀ q, Relation.ReflTransGen (Enters host) first q →
        f.scope < q.machine.store.cells.size →
        q.machine.store.ancestor? f.scope (d - (k + 1 + j)) = some scope := by
  have intact := intact_start reached begins c
  have sound := sound_of_moments meets.run (begins.sound reached) (begins.ready reached)
  obtain ⟨inner, outer, e, body⟩ := body_scopes reached begins meets
  have depth := body.depth meets.of intact.1.sound
  have lt := (distance_lt reached begins meets body known).2
  obtain ⟨scope, around, -⟩ := exists_ancestor? depth.2
    (show d - (k + 1 + j) ≤ outer.length - j by omega)
  have fixed {q : Moment} := meets.of.fixed (q := q) intact.2.listed intact.1.sound around
  have listed := intact.1.sound.store.ancestor?_listed intact.2.listed meets.of.around
  obtain ⟨parent, bs, cell⟩ := intact.1.sound.store.scopeListed_cell listed
  have later := meets.encloses.later sound meets.run
  have size := ((extends_of_enters c.enters).trans later).size_le
  have there := (Array.getElem?_eq_some_iff.mp cell).1.trans_le size
  refine ⟨there, scope, ?_, fun q run => fixed run⟩
  have beyond := meets.encloses.beyond meets.of sound meets.run (d - (k + 1 + j))
  rw [show k + 1 + j + (d - (k + 1 + j)) = d by omega] at beyond
  rw [scope?_of_distance meets.uses known, beyond]
  exact fixed meets.run there

theorem scope?_receiver (reached : Reached programs s) (begins : s.Begins programs first)
    (meets : c.MeetsAt f j k p o name) (known : p.machine.distances[o.id]? = some d)
    (outside : k < d) (le : d ≤ k + j) :
    name = receiverName ∧ p.scope? = some c.closure.scope := by
  have intact := intact_start reached begins c
  have sound := sound_of_moments meets.run (begins.sound reached) (begins.ready reached)
  obtain ⟨inner, outer, e, body⟩ := body_scopes reached begins meets
  cases of : meets.of with
  | function _ => omega
  | method binds =>
      obtain rfl : d = k + 1 := by omega
      refine ⟨?_, ?_⟩
      · -- The method stands in the scope for the receiver that the analysis opens.
        obtain ⟨id, object, held, layer, hl, m, hm⟩ := binds.receiver
        have placed := intact.1.placed.bindings _ intact.2.listed _
          (Bindings.mem_entries_of_get? held)
        obtain ⟨around, -, within⟩ := placed layer hl _ hm
        have inBody := body.inBody
        rw [binds.decl] at inBody
        rw [function_surround] at within
        have here := within _ (List.mem_map_of_mem inBody)
        have own : ownId (inner ++ outer, e) = some o.id := by simp [ownId, body.occurs]
        have same := reached.lexical.unique _ body.visited _ here _ own own
        have found := (distance_lt reached begins meets body known).1
        rw [(Prod.mk.inj same).1] at found
        obtain ⟨names, at_distance, mem⟩ := names_of_distance? found
        have first_outside : (inner ++ ["this"] :: around)[inner.length]? = some ["this"] := by
          rw [List.getElem?_append_right (Nat.le_refl _), Nat.sub_self]
          rfl
        rw [body.length] at first_outside
        obtain rfl := Option.some.inj (first_outside.symm.trans at_distance)
        exact List.mem_singleton.mp mem
      · rw [scope?_of_distance meets.uses known]
        exact meets.encloses.outside (meets.encloses.later sound meets.run)

theorem scope?_inside (reached : Reached programs s) (begins : s.Begins programs first)
    (meets : c.MeetsAt f j k p o name) (known : p.machine.distances[o.id]? = some d)
    (le : d ≤ k) : ∃ scope, p.scope? = some scope ∧
      p.machine.store.ancestor? scope (k - d) = some c.scope ∧
      c.start.machine.store.cells.size ≤ scope ∧ (c.During p → c.Owns scope) := by
  have sound := sound_of_moments meets.run (begins.sound reached) (begins.ready reached)
  obtain ⟨scope, here, around⟩ := exists_ancestor? meets.encloses le
  refine ⟨scope, (scope?_of_distance meets.uses known).trans here, around, ?_, fun during => ?_⟩
  · have listed := sound.store.ancestor?_listed sound.environment here
    exact c.scope_new.1.trans (sound.store.ancestor_le listed around)
  · obtain ⟨steps, encloses, owned⟩ := during.owned
    have same := steps_eq reached begins meets { meets with encloses }
    exact owned d (same ▸ le) scope here

/-- Closures are lexical and stable. In two calls of a function an occurrence in it is as many
scopes away from the scope of the call, as many as the body has around it, and has the same
distance. Without a distance it stands for the global scope. If it is bound outside of the function,
it stands in both calls for the same scope, which is found from the scope of the function alone, at
every moment at which that exists; only the receiver of a method is different, it is in the scope of
the bound method. If it is bound inside, it stands for a scope that was not there before the call
and that it does not stand for in another one; while the body itself runs, that is one of the scopes
which the call owns, and no other call of any function owns it. -/
theorem closures_lexical (reached : Reached programs s) (begins : s.Begins programs first)
    (meets₁ : c₁.Meets f j p₁ o name) (meets₂ : c₂.Meets f j p₂ o name) :
    ∃ k, c₁.Encloses p₁ k ∧ c₂.Encloses p₂ k ∧
      (∃ inner e, (inner, e) ∈ functionVisits [] f.decl ∧ e.occurrence? = some (o, name) ∧
        inner.length = k + 1) ∧
      p₁.machine.distances[o.id]? = p₂.machine.distances[o.id]? ∧
      (p₁.machine.distances[o.id]? = none → name ≠ superclassName →
        p₁.scope? = some globals ∧ p₂.scope? = some globals) ∧
      ∀ d, p₁.machine.distances[o.id]? = some d →
        (k + j < d → ∃ scope, p₁.scope? = some scope ∧ p₂.scope? = some scope ∧
          ∀ q, Relation.ReflTransGen (Enters host) first q → f.scope < q.machine.store.cells.size →
            q.machine.store.ancestor? f.scope (d - (k + 1 + j)) = some scope) ∧
        (k < d → d ≤ k + j → name = receiverName ∧
          p₁.scope? = some c₁.closure.scope ∧ p₂.scope? = some c₂.closure.scope) ∧
        (d ≤ k → ∃ scope₁ scope₂, p₁.scope? = some scope₁ ∧ p₂.scope? = some scope₂ ∧
          c₁.start.machine.store.cells.size ≤ scope₁ ∧ (c₁.start ≠ c₂.start → scope₁ ≠ scope₂) ∧
          (c₁.During p₁ → c₁.Owns scope₁ ∧
            ∀ c : Call host first, c.Owns scope₁ → c.start = c₁.start)) := by
  obtain ⟨k, meets₁⟩ := meets₁.steps
  obtain ⟨k₂, meets₂⟩ := meets₂.steps
  -- The body has one place in the program, so both calls are equally far away.
  obtain rfl := steps_eq reached begins meets₁ meets₂
  have distances : p₁.machine.distances[o.id]? = p₂.machine.distances[o.id]? := by
    rw [distances_of_moments meets₁.run, distances_of_moments meets₂.run]
  refine ⟨k, meets₁.encloses, meets₂.encloses, ?_, distances, fun unknown ne => ?_,
    fun d known => ⟨fun outside => ?_, fun outside le => ?_, fun le => ?_⟩⟩
  · obtain ⟨inner, outer, e, body⟩ := body_scopes reached begins meets₁
    exact ⟨inner, e, meets₁.of.decl ▸ body.inBody, body.occurs, body.length⟩
  · exact ⟨scope?_of_no_distance meets₁.uses ne unknown,
      scope?_of_no_distance meets₂.uses ne (distances ▸ unknown)⟩
  · obtain ⟨there, scope, here, fixed⟩ := scope?_outside reached begins meets₁ known outside
    obtain ⟨-, scope', here', fixed'⟩ :=
      scope?_outside reached begins meets₂ (distances ▸ known) outside
    -- Both chains are followed from the scope of the function, which the moment of the first has.
    have same := (fixed p₁ meets₁.run there).symm.trans (fixed' p₁ meets₁.run there)
    obtain rfl := Option.some.inj same
    exact ⟨scope, here, here', fixed⟩
  · obtain ⟨receiver, here⟩ := scope?_receiver reached begins meets₁ known outside le
    have here' := scope?_receiver reached begins meets₂ (distances ▸ known) outside le
    exact ⟨receiver, here, here'.2⟩
  · obtain ⟨scope₁, here₁, around₁, new₁, owned₁⟩ := scope?_inside reached begins meets₁ known le
    obtain ⟨scope₂, here₂, around₂, -⟩ :=
      scope?_inside reached begins meets₂ (distances ▸ known) le
    refine ⟨scope₁, scope₂, here₁, here₂, new₁, fun ne eq => ne ?_, fun during => ?_⟩
    · rw [← eq] at around₂
      exact Call.start_eq_of_scope
        (ancestor?_unique (ordered meets₁.run meets₂.run) around₁ around₂)
    · exact ⟨owned₁ during, fun c owned => Call.start_eq_of_owns owned (owned₁ during)⟩

def recursiveName : Token := ⟨.identifier, "f", none, 1⟩

def recursiveParen : Token := ⟨.rightParen, ")", none, 1⟩

def recursiveCall : List Token :=
  [recursiveName, ⟨.leftParen, "(", none, 1⟩, recursiveParen, ⟨.semicolon, ";", none, 1⟩]

def recursiveTokens : List Token :=
  [⟨.leftBrace, "\x7b", none, 1⟩, ⟨.kwFun, "fun", none, 1⟩, recursiveName,
    ⟨.leftParen, "(", none, 1⟩, recursiveParen, ⟨.leftBrace, "\x7b", none, 1⟩] ++ recursiveCall ++
  [⟨.rightBrace, "\x7d", none, 1⟩] ++ recursiveCall ++
  [⟨.rightBrace, "\x7d", none, 1⟩, .endOfInput 1]

def recursiveDecl : FunctionDecl Stmt :=
  ⟨recursiveName, [], [.expression (.call (.var ⟨0, recursiveName⟩) recursiveParen [])]⟩

def recursiveProgram : List Stmt :=
  [.block [.funDecl recursiveDecl,
    .expression (.call (.var ⟨1, recursiveName⟩) recursiveParen [])] 1]

def recursiveClosure : Closure := ⟨recursiveDecl, 1, false⟩

def recursiveHost : Host := Host.standard fun _ => 0

def recursiveFirst : Moment :=
  ⟨16, .program recursiveProgram, (initial.machine.analyse recursiveProgram).2⟩

def recursiveMachine : Machine where
  store := ⟨#[.scope none ⟨[(Machine.clockName, .clock)]⟩,
    .scope (some globals) ⟨[("f", .function 2 recursiveClosure)]⟩, .identity],
    #[1], #[], firstThreshold⟩
  environment := 1
  distances := ((∅ : Distances).insert 0 1).insert 1 0
  frame := ⟨.script, 0⟩
  callDepth := 0
  output := #[]
  started := 3
  readings := 0

def recursiveBody (m : Machine) : Machine :=
  { m with
    store := (m.store.newScope 1).2
    environment := m.store.cells.size
    frame := ⟨.function, 0⟩
    callDepth := m.callDepth + 1 }

def recursiveInside : Machine := { recursiveBody recursiveMachine with started := 4 }

def recursiveOuterCall : Call recursiveHost recursiveFirst where
  start := ⟨10, .invoke recursiveClosure [] 1, recursiveMachine⟩
  body := ⟨9, .execAll recursiveDecl.body, recursiveBody recursiveMachine⟩
  closure := recursiveClosure
  args := []
  line := 1
  moment := by
    have call : Relation.ReflTransGen (Enters recursiveHost) recursiveFirst
        ⟨12, .eval (.call (.var ⟨1, recursiveName⟩) recursiveParen []), recursiveMachine⟩ := by
      apply Relation.ReflTransGen.head .firstOfProgram
      apply Relation.ReflTransGen.head (.block rfl rfl)
      apply Relation.ReflTransGen.head (.otherStmts rfl)
      apply Relation.ReflTransGen.head .firstStmt
      exact .single (.expression rfl)
    exact call.trans (.head (.call rfl rfl) (.single (.function rfl)))
  invokes := rfl
  enters := .callBody rfl rfl

def recursiveInnerCall : Call recursiveHost recursiveFirst where
  start := ⟨5, .invoke recursiveClosure [] 1, recursiveInside⟩
  body := ⟨4, .execAll recursiveDecl.body, recursiveBody recursiveInside⟩
  closure := recursiveClosure
  args := []
  line := 1
  moment := by
    apply recursiveOuterCall.body_moment.trans
    apply Relation.ReflTransGen.head .firstStmt
    apply Relation.ReflTransGen.head (.expression rfl)
    apply Relation.ReflTransGen.head (.call rfl rfl)
    exact .single (.function rfl)
  invokes := rfl
  enters := .callBody rfl rfl

theorem closures_lexical_recursiveProgram :
    ∃ s, Reached [recursiveProgram] s ∧ s.Begins [recursiveProgram] recursiveFirst ∧
    ∃ p₁ p₂ : Moment, recursiveOuterCall.Meets recursiveClosure 0 p₁ ⟨0, recursiveName⟩ "f" ∧
      recursiveInnerCall.Meets recursiveClosure 0 p₂ ⟨0, recursiveName⟩ "f" ∧
      p₁.machine.environment ≠ p₂.machine.environment ∧
      ∃ scope, p₁.scope? = some scope ∧ p₂.scope? = some scope := by
  have parsed : (parseProgram 0 recursiveTokens).result = .ok recursiveProgram := by cbv
  have reached := Reached.read recursiveTokens .initial (by decide) parsed
  have begins : Begins [recursiveProgram] ⟨initial.machine, (parseProgram 0 recursiveTokens).nextId⟩
    recursiveFirst := .program List.mem_cons_self rfl
  have during₁ : recursiveOuterCall.During
      ⟨5, .lookup ⟨0, recursiveName⟩ "f", recursiveInside⟩ := by
    apply Relation.ReflTransGen.head ⟨.firstStmt, id⟩
    apply Relation.ReflTransGen.head ⟨.expression rfl, id⟩
    apply Relation.ReflTransGen.head ⟨.callee, id⟩
    exact .single ⟨.var, id⟩
  have during₂ : recursiveInnerCall.During
      ⟨0, .lookup ⟨0, recursiveName⟩ "f", { recursiveBody recursiveInside with started := 5 }⟩ := by
    apply Relation.ReflTransGen.head ⟨.firstStmt, id⟩
    apply Relation.ReflTransGen.head ⟨.expression rfl, id⟩
    apply Relation.ReflTransGen.head ⟨.callee, id⟩
    exact .single ⟨.var, id⟩
  have meets₁ : recursiveOuterCall.Meets recursiveClosure 0 _ ⟨0, recursiveName⟩ "f" :=
    ⟨.function rfl, during₁.moment, .inl during₁, rfl, List.mem_cons_self⟩
  have meets₂ : recursiveInnerCall.Meets recursiveClosure 0 _ ⟨0, recursiveName⟩ "f" :=
    ⟨.function rfl, during₂.moment, .inl during₂, rfl, List.mem_cons_self⟩
  obtain ⟨k, -, -, ⟨inner, e, inBody, -, length⟩, -, -, bound⟩ :=
    closures_lexical reached begins meets₁ meets₂
  have at_call : k = 0 := by
    simp only [functionVisits, stmtsVisits, stmtVisits, exprVisits, exprsVisits, recursiveClosure,
      recursiveDecl, List.append_nil, List.mem_cons, List.not_mem_nil, or_false, Prod.mk.injEq,
      List.map_nil, List.reverse_nil] at inBody
    rcases inBody with ⟨rfl, -⟩ | ⟨rfl, -⟩ <;> simp at length <;> omega
  have known : recursiveMachine.distances[0]? = some 1 := rfl
  obtain ⟨scope, here, there, -⟩ := (bound 1 known).1 (by omega)
  exact ⟨_, reached, begins, _, _, meets₁, meets₂, by decide, scope, here, there⟩

end Session

end ClassScript
