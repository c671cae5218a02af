import Mathlib
import ClassScript.Proofs.Dispatch.Methods
import ClassScript.Proofs.Session.Garbage
import ClassScript.Proofs.Session.Signals

namespace ClassScript

open Binding Store

namespace Run

variable {src : Sources} {m n o : Machine} {host : Host} {fuel line count : Nat}
  {first p : Moment} {object : ClassObject} {closure : Closure} {args : List Value} {v : Value}
  {name : Token} {id : Address} {e : Expr}

theorem call_class (run : call host fuel (.class object) args line m = .ok v n) :
    v = .instance m.store.cells.size object ∧ m.store.newInstance.2.Extends n.store := by
  cases fuel with
  | zero => cases run
  | succ fuel =>
      have ends : Ends (call host (fuel + 1) (.class object) args line) m
          (fun v n => v = .instance m.store.cells.size object ∧
            m.store.newInstance.2.Extends n.store) fun _ _ => True := by
        simp only [call, Value.arity?]
        split
        · trivial
        · apply ends_bind.mpr
          split
          · rename_i init _
            apply ends_bind.mpr
            apply (restores_bindMethod init (.instance m.store.cells.size object) _).imp
            · intro closure n bound
              apply ends_bind.mpr
              apply (((restoresWith host fuel).invoke closure args line).discard n).imp
              · exact fun _ o called => ⟨rfl, bound.advances.1.trans called.advances.1⟩
              · exact fun _ _ _ => trivial
            · exact fun _ _ _ => trivial
          · exact ⟨rfl, .refl _⟩
      exact (ends_ok_iff run).mp ends

theorem equal_new_of_cell {s : Store} {a : Address} {fields : Bindings} (cls : ClassObject)
    (cell : s.cells[a]? = some (.instance fields)) :
    (Value.instance a cls).equal (.instance s.cells.size object) = false :=
  beq_eq_false_iff_ne.mpr (ne_size_of_cell cell)

theorem equal_new_of_made {s : Store} {w : Value} (made : s.Made w) :
    w.equal (.instance s.cells.size object) = false := by
  cases w with
  | «instance» id cls => exact beq_eq_false_iff_ne.mpr made.2.ne
  | _ => rfl

theorem instance_of_extends {s t : Store} (ext : s.newInstance.2.Extends t) :
    ∃ fields, t.cells[s.cells.size]? = some (.instance fields) := by
  have fresh : s.newInstance.2.cells[s.cells.size]? = some (.instance .empty) := by
    rw [cells_newInstance, if_pos rfl]
  obtain ⟨cell, found, shape⟩ := ext _ _ fresh
  cases cell with
  | «instance» fields => exact ⟨fields, found⟩
  | scope parent bindings | identity => exact shape.elim

theorem invoke_initializer (init : closure.isInitializer = true)
    (run : invoke host fuel closure args line m = .ok v n) :
    n.store.getAt closure.scope 0 receiverName line = .ok v := by
  have read (value : Value) (o : Machine) : Ends (callResult closure line value) o
      (fun v n => n.store.getAt closure.scope 0 receiverName line = .ok v) fun _ _ => True := by
    unfold callResult
    rw [if_pos init]
    apply ends_bind.mpr
    apply ends_get.mpr
    exact ends_ofExcept.mpr ⟨fun _ found => found, fun _ _ => trivial⟩
  cases fuel with
  | zero => cases run
  | succ fuel =>
      rw [invoke] at run
      obtain ⟨_, _, -, run⟩ := ok_of_bind run
      obtain ⟨_, _, -, run⟩ := ok_of_bind run
      obtain ⟨signal, o, -, run⟩ := ok_of_bind run
      cases signal with
      | normal => exact (ends_ok_iff run).mp (read .nil o)
      | «return» value _ => exact (ends_ok_iff run).mp (read value o)
      | «break» _ | «continue» _ => cases run

theorem initializer_yields (follows : Follows host first src)
    (reach : Leads host first fuel (.invoke closure args line) m)
    (h : AtHome src (.invoke closure args line) m) (init : closure.isInitializer = true)
    {receiver : Value} (holds : (m.store.bindings closure.scope).get? receiverName = some receiver)
    (run : invoke host fuel closure args line m = .ok v n) : v = receiver := by
  obtain ⟨settled, housed, args'⟩ := h
  obtain ⟨steady, -⟩ := (ends_ok_iff run).mp
    ((homedEval follows fuel).invoke closure args line reach settled housed args')
  have kept := (steady trivial).reserved closure.scope receiverName _ (.inl rfl) holds
  have read := invoke_initializer init run
  rw [getAt_of_ancestor? rfl kept] at read
  exact (Except.ok.inj read).symm

theorem call_bound (run : call host fuel (.bound id closure) args line m = .ok v n) :
    ∃ less, Enters host ⟨fuel, .call (.bound id closure) args line, m⟩
      ⟨less, .invoke closure args line, m⟩ ∧ invoke host less closure args line m = .ok v n := by
  cases fuel with
  | zero => cases run
  | succ fuel =>
      simp only [call, Value.arity?] at run
      split at run
      · cases run
      · rename_i same
        exact ⟨fuel, .bound (of_not_not same), run⟩

theorem bound_initializer_yields (follows : Follows host first src)
    (reach : Leads host first fuel (.call (.bound id closure) args line) m)
    (h : AtHome src (.call (.bound id closure) args line) m)
    (init : closure.name = ClassObject.initializerName) {receiver : Value}
    (holds : (m.store.bindings closure.scope).get? receiverName = some receiver)
    (run : call host fuel (.bound id closure) args line m = .ok v n) : v = receiver := by
  have isInit : closure.isInitializer = true := by
    rw [h.2.1.homed.2, init, beq_self_eq_true]
  obtain ⟨less, enters, run⟩ := call_bound run
  exact initializer_yields follows (reach.tail enters) (atHome_of_enters follows reach enters h)
    isInit holds run

theorem boundMethod_holds {method : Closure} {receiver f : Value}
    (run : boundMethod method receiver m = .ok f n) :
    ∃ id closure, f = .bound id closure ∧ closure.name = method.name ∧
      (n.store.bindings closure.scope).get? receiverName = some receiver := by
  cases run
  exact ⟨_, _, rfl, rfl, (steady_newIdentity _).reserved _ _ _ (.inl rfl)
    (get?_newScope_define m.store method.scope receiverName receiver)⟩

theorem method_initializer_yields (follows : Follows host first src) {paren : Token}
    {arguments : List Expr}
    (reach : Leads host first (fuel + 2) (.eval (.call (.get e name) paren arguments)) m)
    (h : AtHome src (.eval (.call (.get e name) paren arguments)) m)
    (init : name.lexeme = ClassObject.initializerName)
    (target : eval host fuel e m = .ok (.instance id object) n)
    (absent : (n.store.fields id).get? name.lexeme = none)
    (run : eval host (fuel + 2) (.call (.get e name) paren arguments) m = .ok v o) :
    v = .instance id object := by
  have atHome := h
  obtain ⟨setting, inside, within⟩ := h
  have both := within_append.mp within
  have object' := inside_eval follows ((reach.tail .callee).tail .get) inside both.1 target
  rw [eval] at run
  obtain ⟨f, n', callee, run⟩ := ok_of_bind run
  obtain ⟨args, q, others, run⟩ := ok_of_bind run
  have bound := callee
  rw [eval_get target, readProperty_method absent, dispatch] at bound
  cases found : object.layers.findSome? (·.methods.lookup name.lexeme) with
  | none =>
      rw [found] at bound
      cases bound
  | some method =>
      rw [found] at bound
      obtain ⟨own, closure, rfl, same, holds⟩ := boundMethod_holds bound
      have named := ClassHomed.method?_name object'.2.2.homed found
      have inner := inside_eval follows (reach.tail .callee) inside both.1 callee
      have settles := (inside_evalAll follows (reach.tail (.arguments callee)) inner.1 both.2
        others).2.1
      have kept := settles.steady.reserved _ _ _ (.inl rfl) holds
      have enters : Enters host ⟨fuel + 2, .eval (.call (.get e name) paren arguments), m⟩
        ⟨fuel + 1, .call (.bound own closure) args paren.line, q⟩ := .call callee others
      exact bound_initializer_yields follows (reach.tail enters)
        (atHome_of_enters follows reach enters atHome) (same.trans (named.trans init)) kept run

theorem exec_return_value {keyword : Token}
    (begins : Begins host (.return keyword (some e)) m n) (kind : m.frame.kind = .initializer) :
    exec host (fuel + 1) (.return keyword (some e)) m =
      .error (.fault ⟨.initializerReturnsValue, keyword.line⟩) n := by
  have inner : n.frame.kind = .initializer := by
    rw [(returns_begins begins).frame]
    exact kind
  refine begins.bind_eq.trans (bind_error ?_)
  simp only [checkReturn, get_bind, inner]
  rfl

theorem not_enters_return_value {keyword : Token} (kind : m.frame.kind = .initializer)
    (q : Moment) : ¬ Enters host ⟨fuel + 1, .exec (.return keyword (some e)), m⟩ q := by
  intro enters
  cases enters with
  | returned begins checked =>
      have inner := (returns_begins begins).frame
      rw [checkReturn, get_bind, inner, kind] at checked
      cases checked

end Run

namespace Session

open Run

variable {programs : List (List Stmt)} {s : Session} {host : Host} {first p : Moment}

theorem Begins.starts (begins : s.Begins programs first) : s.machine.Starts first := by
  cases begins with
  | program _ accepted => exact .program accepted
  | eval _ _ => exact .eval
  | exec _ _ => exact .exec

/-- Whatever runs in a session, a call of a class that succeeds yields an instance of exactly this
class, which is none of those that were there before. A call of a bound initializer that succeeds
yields its receiver, which is the instance if it is called as a method of one. A `return` with a
value in the body of an initializer fails on its line, in the state in which it begins: its value is
not evaluated. -/
theorem construction_yields (reached : Reached programs s) (begins : s.Begins programs first)
    (run : Relation.ReflTransGen (Enters host) first p) :
    let m := p.machine
    (∀ object args line v n, p.task = .call (.class object) args line →
      call host p.fuel (.class object) args line m = .ok v n →
      ∃ id, v = .instance id object ∧ (∃ fields, n.store.cells[id]? = some (.instance fields)) ∧
        m.store.cells[id]? = none ∧
        (∀ other cls fields, m.store.cells[other]? = some (.instance fields) →
          (Value.instance other cls).equal v = false) ∧
        ∀ w ∈ m.store.Computed, w.equal v = false) ∧
    (∀ id closure args line, p.task = .call (.bound id closure) args line →
      closure.name = ClassObject.initializerName →
      ∃ receiver object,
        (m.store.bindings closure.scope).get? receiverName = some (.instance receiver object) ∧
        ∀ v n, call host p.fuel (.bound id closure) args line m = .ok v n →
          v = .instance receiver object) ∧
    (∀ fuel e name paren arguments id object n v o, p.fuel = fuel + 2 →
      p.task = .eval (.call (.get e name) paren arguments) →
      name.lexeme = ClassObject.initializerName →
      eval host fuel e m = .ok (.instance id object) n →
      (n.store.fields id).get? name.lexeme = none →
      eval host p.fuel (.call (.get e name) paren arguments) m = .ok v o →
      v = .instance id object) ∧
    ∀ fuel keyword e code count n, p.fuel = fuel + 1 → p.task = .exec (.return keyword (some e)) →
      InBody host first .initializer code count p →
      Run.Begins host (.return keyword (some e)) m n →
      let fault : RuntimeError := ⟨.initializerReturnsValue, keyword.line⟩
      exec host p.fuel (.return keyword (some e)) m = .error (.fault fault) n ∧
      (∀ q, ¬ Enters host p q) ∧ first.Fails host (.fault fault) m.output ∧
      ∀ program, first.task = .program program →
        (s.machine.interpret host first.fuel program).1 = .error (.runtime fault) := by
  have follows := follows_sources reached.atHome.names host first
  have home := atHome_of_moments follows run (begins.atHome reached host)
  have rest := reached.atRest
  obtain ⟨fuel, task, m⟩ := p
  refine ⟨fun object args line v n is called => ?_, fun id closure args line is named => ?_,
    fun k e name paren arguments id object n v o some is named target absent called => ?_,
    fun k keyword e code count n some is inBody begun => ?_⟩
  · obtain ⟨rfl, ext⟩ := call_class called
    exact ⟨_, rfl, instance_of_extends ext, Array.getElem?_eq_none le_rfl,
      fun other cls fields cell => equal_new_of_cell cls cell,
      fun w computed => equal_new_of_made (Computed.made computed)⟩
  · cases is
    have isInit : closure.isInitializer = true := by
      rw [home.2.1.homed.2, named, beq_self_eq_true]
    obtain ⟨receiver, object, holds⟩ := home.2.1.homed.1.receiver isInit
    exact ⟨receiver, object, holds, fun v n called =>
      bound_initializer_yields follows run home named holds called⟩
  · cases some
    cases is
    exact method_initializer_yields follows run home named target absent called
  · cases some
    cases is
    -- The frame knows that the body that runs is that of an initializer.
    have kind : m.frame.kind = .initializer :=
      congrArg Frame.kind (inBody.frame (congrArg Frame.loopDepth (begins.starts.frame rest)))
    have failed : exec host (k + 1) (.return keyword (some e)) m = _ :=
      exec_return_value begun kind
    have fails : Moment.Fails host ⟨k + 1, .exec (.return keyword (some e)), m⟩
        (.fault ⟨.initializerReturnsValue, keyword.line⟩) m.output :=
      fails_discard.mpr ⟨n, failed, begins_output begun⟩
    have wholeFails := fails_of_moments run fails
    exact ⟨failed, not_enters_return_value kind, wholeFails,
      fun program isProgram => begins.starts.interpret_error wholeFails isProgram⟩

def freshInit : Token := familyName "init"

def freshTokens : List Token :=
  [⟨.kwClass, "class", none, 1⟩, familyName "A", familyOpen, freshInit] ++ familyParens ++
  [familyOpen, familyClose, familyClose, familyName "A"] ++ familyParens ++
  [⟨.dot, ".", none, 1⟩, freshInit] ++ familyParens ++
  [⟨.semicolon, ";", none, 1⟩, .endOfInput 1]

def freshDecl : ClassDecl Stmt := ⟨familyName "A", none, [⟨freshInit, [], []⟩]⟩

def freshNew : Expr := .call (.var ⟨0, familyName "A"⟩) familyParen []

def freshAgain : Expr := .call (.get freshNew freshInit) familyParen []

def freshProgram : List Stmt := [.classDecl freshDecl, .expression freshAgain]

def freshClass : ClassObject := ⟨⟨1, "A", [("init", ⟨⟨freshInit, [], []⟩, globals, true⟩)]⟩, []⟩

def freshMachine (started : Nat) : Machine := { initial.machine with
  store := ⟨#[.scope none ⟨[(Machine.clockName, .clock), ("A", .class freshClass)]⟩, .identity],
    #[], #[], firstThreshold⟩
  started := started }

def freshStart : Moment := ⟨20, .program freshProgram, (initial.machine.analyse freshProgram).2⟩

theorem freshStart_calls : Relation.ReflTransGen (Enters familyHost) freshStart
    ⟨19, .eval freshAgain, freshMachine 2⟩ := by
  have declared : exec familyHost 20 (.classDecl freshDecl) freshStart.machine =
      .ok .normal (freshMachine 1) := rfl
  have begins : Run.Begins familyHost (.expression freshAgain) (freshMachine 1) (freshMachine 2) :=
    rfl
  apply Relation.ReflTransGen.head (.restOfProgram declared)
  apply Relation.ReflTransGen.head .firstOfProgram
  exact .single (.expression begins)

def freshScope : Cell := .scope (some globals) ⟨[("this", .instance 2 freshClass)]⟩

def freshBehind (cells : List Cell) (scopes : Array Address) : Machine := { freshMachine 2 with
  store := ⟨((freshMachine 2).store.cells.toList ++ .instance .empty :: cells).toArray, scopes,
    #[2], firstThreshold⟩ }

def freshMade : Machine := freshBehind [freshScope, .scope (some 3) .empty] #[3, 4]

def freshBound : Machine :=
  freshBehind [freshScope, .scope (some 3) .empty, freshScope, .identity] #[3, 4, 5]

def freshDone : Machine :=
  freshBehind [freshScope, .scope (some 3) .empty, freshScope, .identity, .scope (some 5) .empty]
    #[3, 4, 5, 7]

theorem freshAgain_runs : eval familyHost 19 freshAgain (freshMachine 2) =
    .ok (.instance 2 freshClass) freshDone := by
  have bound : eval familyHost 18 (.get freshNew freshInit) (freshMachine 2) =
      .ok (.bound 6 ⟨⟨freshInit, [], []⟩, 5, true⟩) freshBound := rfl
  have arguments : evalAll familyHost 18 [] freshBound = .ok [] freshBound := rfl
  have called : call familyHost 18 (.bound 6 ⟨⟨freshInit, [], []⟩, 5, true⟩) [] 1 freshBound =
      .ok (.instance 2 freshClass) freshDone := rfl
  exact (bind_ok bound).trans ((bind_ok arguments).trans called)

theorem construction_yields_freshProgram : ∃ s v o, Reached [freshProgram] s ∧
    s.Begins [freshProgram] freshStart ∧
    eval familyHost 19 freshAgain (freshMachine 2) = .ok v o ∧ v = .instance 2 freshClass := by
  have parsed : (parseProgram 0 freshTokens).result = .ok freshProgram := by cbv
  have reached := Reached.read freshTokens .initial (by decide) parsed
  have begins : Begins [freshProgram] ⟨initial.machine, (parseProgram 0 freshTokens).nextId⟩
    freshStart := .program List.mem_cons_self rfl
  have made : eval familyHost 17 freshNew (freshMachine 2) =
    .ok (.instance 2 freshClass) freshMade := rfl
  obtain ⟨-, -, again, -⟩ := construction_yields reached begins freshStart_calls
  exact ⟨_, _, freshDone, reached, begins, freshAgain_runs,
    again 17 _ _ _ _ _ _ _ _ _ rfl rfl rfl made rfl freshAgain_runs⟩

end Session

end ClassScript
