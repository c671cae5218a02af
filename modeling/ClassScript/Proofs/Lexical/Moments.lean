import Mathlib.Logic.Relation
import ClassScript.Proofs.Lexical.Run

/-!
# The moments of a run

A moment is a task of the evaluator in the state in which it begins. `Enters` lists the tasks that
each task is made of, in the states that the parts before them left; what it leads to from the start
of a program are all moments of its run.
-/

namespace ClassScript.Run

open Binding Store Machine

inductive Task where
  | eval (e : Expr)
  | evalAll (es : List Expr)
  | call (f : Value) (args : List Value) (line : Nat)
  | invoke (closure : Closure) (args : List Value) (line : Nat)
  | exec (s : Stmt)
  | execAll (ss : List Stmt)
  | execLoop (condition : Expr) (body : Stmt) (increment : Option Expr)
  | program (ss : List Stmt)
  | lookup (o : Occurrence) (name : String)
  | assign (o : Occurrence) (value : Value)
  | superMethod (keyword : Occurrence) (method : Token)

structure Moment where
  fuel : Nat
  task : Task
  machine : Machine

def Begins (host : Host) (s : Stmt) (m n : Machine) : Prop :=
  (do start host s.line; collectIfDue host) m = .ok () n

def GoesOn : Signal → Prop
  | .normal | .continue _ => True
  | _ => False

inductive Enters (host : Host) : Moment → Moment → Prop
  -- expressions
  | grouping {fuel inner m} :
      Enters host ⟨fuel + 1, .eval (.grouping inner), m⟩ ⟨fuel, .eval inner, m⟩
  | var {fuel name m} :
      Enters host ⟨fuel + 1, .eval (.var name), m⟩ ⟨fuel, .lookup name name.token.lexeme, m⟩
  | assigned {fuel name e m} :
      Enters host ⟨fuel + 1, .eval (.assign name e), m⟩ ⟨fuel, .eval e, m⟩
  | assign {fuel name e m v n} : eval host fuel e m = .ok v n →
      Enters host ⟨fuel + 1, .eval (.assign name e), m⟩ ⟨fuel, .assign name v, n⟩
  | logicalLeft {fuel left operator right m} :
      Enters host ⟨fuel + 1, .eval (.logical left operator right), m⟩ ⟨fuel, .eval left, m⟩
  | logicalRight {fuel left operator right m l n} : eval host fuel left m = .ok l n →
      Operator.shortCircuits operator l = false →
      Enters host ⟨fuel + 1, .eval (.logical left operator right), m⟩ ⟨fuel, .eval right, n⟩
  | binaryLeft {fuel left operator right m} :
      Enters host ⟨fuel + 1, .eval (.binary left operator right), m⟩ ⟨fuel, .eval left, m⟩
  | binaryRight {fuel left operator right m l n} : eval host fuel left m = .ok l n →
      Enters host ⟨fuel + 1, .eval (.binary left operator right), m⟩ ⟨fuel, .eval right, n⟩
  | unary {fuel operator operand m} :
      Enters host ⟨fuel + 1, .eval (.unary operator operand), m⟩ ⟨fuel, .eval operand, m⟩
  | callee {fuel callee paren arguments m} :
      Enters host ⟨fuel + 1, .eval (.call callee paren arguments), m⟩ ⟨fuel, .eval callee, m⟩
  | arguments {fuel callee paren arguments m f n} : eval host fuel callee m = .ok f n →
      Enters host ⟨fuel + 1, .eval (.call callee paren arguments), m⟩ ⟨fuel, .evalAll arguments, n⟩
  | call {fuel callee paren arguments m f n args o} : eval host fuel callee m = .ok f n →
      evalAll host fuel arguments n = .ok args o →
      Enters host ⟨fuel + 1, .eval (.call callee paren arguments), m⟩
        ⟨fuel, .call f args paren.line, o⟩
  | get {fuel object name m} :
      Enters host ⟨fuel + 1, .eval (.get object name), m⟩ ⟨fuel, .eval object, m⟩
  | setObject {fuel object name value m} :
      Enters host ⟨fuel + 1, .eval (.set object name value), m⟩ ⟨fuel, .eval object, m⟩
  | setValue {fuel object name value m id cls n} :
      eval host fuel object m = .ok (.instance id cls) n →
      Enters host ⟨fuel + 1, .eval (.set object name value), m⟩ ⟨fuel, .eval value, n⟩
  | this {fuel keyword m} :
      Enters host ⟨fuel + 1, .eval (.this keyword), m⟩ ⟨fuel, .lookup keyword receiverName, m⟩
  | super {fuel keyword method m} :
      Enters host ⟨fuel + 1, .eval (.super keyword method), m⟩
        ⟨fuel, .superMethod keyword method, m⟩
  | firstExpr {fuel e rest m} :
      Enters host ⟨fuel + 1, .evalAll (e :: rest), m⟩ ⟨fuel, .eval e, m⟩
  | otherExprs {fuel e rest m v n} : eval host fuel e m = .ok v n →
      Enters host ⟨fuel + 1, .evalAll (e :: rest), m⟩ ⟨fuel, .evalAll rest, n⟩
  -- calls
  | function {fuel id closure args line m} : args.length = closure.decl.arity →
      Enters host ⟨fuel + 1, .call (.function id closure) args line, m⟩
        ⟨fuel, .invoke closure args line, m⟩
  | bound {fuel id closure args line m} : args.length = closure.decl.arity →
      Enters host ⟨fuel + 1, .call (.bound id closure) args line, m⟩
        ⟨fuel, .invoke closure args line, m⟩
  | initializer {fuel object init args line m id n closure o} : args.length = object.arity →
      newInstance m = .ok id n → object.method? ClassObject.initializerName = some init →
      bindMethod init (.instance id object) n = .ok closure o →
      Enters host ⟨fuel + 1, .call (.class object) args line, m⟩
        ⟨fuel, .invoke closure args line, o⟩
  | callBody {fuel closure args line m n scope o} : checkDepth host line m = .ok () n →
      callScope closure args n = .ok scope o →
      Enters host ⟨fuel + 1, .invoke closure args line, m⟩ ⟨fuel, .execAll closure.decl.body,
        { o with
          environment := scope
          frame := ⟨if closure.isInitializer then .initializer else .function, 0⟩
          callDepth := o.callDepth + 1 }⟩
  -- statements
  | expression {fuel e m n} : Begins host (.expression e) m n →
      Enters host ⟨fuel + 1, .exec (.expression e), m⟩ ⟨fuel, .eval e, n⟩
  | print {fuel e m n} : Begins host (.print e) m n →
      Enters host ⟨fuel + 1, .exec (.print e), m⟩ ⟨fuel, .eval e, n⟩
  | varDecl {fuel name e m n} : Begins host (.varDecl name (some e)) m n →
      Enters host ⟨fuel + 1, .exec (.varDecl name (some e)), m⟩ ⟨fuel, .eval e, n⟩
  | block {fuel body line m n scope o} : Begins host (.block body line) m n →
      newScope n.environment n = .ok scope o →
      Enters host ⟨fuel + 1, .exec (.block body line), m⟩
        ⟨fuel, .execAll body, { o with environment := scope }⟩
  | branchCondition {fuel condition thenBranch elseBranch m n} :
      Begins host (.branch condition thenBranch elseBranch) m n →
      Enters host ⟨fuel + 1, .exec (.branch condition thenBranch elseBranch), m⟩
        ⟨fuel, .eval condition, n⟩
  | thenBranch {fuel condition thenBranch elseBranch m n v o} :
      Begins host (.branch condition thenBranch elseBranch) m n →
      eval host fuel condition n = .ok v o → v.truthy = true →
      Enters host ⟨fuel + 1, .exec (.branch condition thenBranch elseBranch), m⟩
        ⟨fuel, .exec thenBranch, o⟩
  | elseBranch {fuel condition thenBranch other m n v o} :
      Begins host (.branch condition thenBranch (some other)) m n →
      eval host fuel condition n = .ok v o → v.truthy = false →
      Enters host ⟨fuel + 1, .exec (.branch condition thenBranch (some other)), m⟩
        ⟨fuel, .exec other, o⟩
  | loop {fuel condition body increment m n} : Begins host (.loop condition body increment) m n →
      Enters host ⟨fuel + 1, .exec (.loop condition body increment), m⟩
        ⟨fuel, .execLoop condition body increment,
          { n with frame := { n.frame with loopDepth := n.frame.loopDepth + 1 } }⟩
  | superclass {fuel decl parent m n} : Begins host (.classDecl decl) m n →
      decl.superclass = some parent → parent.token.lexeme ≠ decl.name.lexeme →
      Enters host ⟨fuel + 1, .exec (.classDecl decl), m⟩
        ⟨fuel, .lookup parent parent.token.lexeme, n⟩
  | returned {fuel keyword e m n o} : Begins host (.return keyword (some e)) m n →
      checkReturn keyword (some e) n = .ok () o →
      Enters host ⟨fuel + 1, .exec (.return keyword (some e)), m⟩ ⟨fuel, .eval e, o⟩
  | firstStmt {fuel s rest m} :
      Enters host ⟨fuel + 1, .execAll (s :: rest), m⟩ ⟨fuel, .exec s, m⟩
  | otherStmts {fuel s rest m n} : exec host fuel s m = .ok .normal n →
      Enters host ⟨fuel + 1, .execAll (s :: rest), m⟩ ⟨fuel, .execAll rest, n⟩
  | loopCondition {fuel condition body increment m} :
      Enters host ⟨fuel + 1, .execLoop condition body increment, m⟩ ⟨fuel, .eval condition, m⟩
  | loopBody {fuel condition body increment m v n} : eval host fuel condition m = .ok v n →
      v.truthy = true →
      Enters host ⟨fuel + 1, .execLoop condition body increment, m⟩ ⟨fuel, .exec body, n⟩
  | increment {fuel condition body e m v n signal o} : eval host fuel condition m = .ok v n →
      v.truthy = true → exec host fuel body n = .ok signal o → GoesOn signal →
      Enters host ⟨fuel + 1, .execLoop condition body (some e), m⟩ ⟨fuel, .eval e, o⟩
  | again {fuel condition body m v n signal o} : eval host fuel condition m = .ok v n →
      v.truthy = true → exec host fuel body n = .ok signal o → GoesOn signal →
      Enters host ⟨fuel + 1, .execLoop condition body none, m⟩
        ⟨fuel, .execLoop condition body none, o⟩
  | incremented {fuel condition body e m v n signal o w q} : eval host fuel condition m = .ok v n →
      v.truthy = true → exec host fuel body n = .ok signal o → GoesOn signal →
      eval host fuel e o = .ok w q →
      Enters host ⟨fuel + 1, .execLoop condition body (some e), m⟩
        ⟨fuel, .execLoop condition body (some e), q⟩
  | firstOfProgram {fuel s rest m} :
      Enters host ⟨fuel, .program (s :: rest), m⟩ ⟨fuel, .exec s, m⟩
  | restOfProgram {fuel s rest m n} : exec host fuel s m = .ok .normal n →
      Enters host ⟨fuel, .program (s :: rest), m⟩ ⟨fuel, .program rest, n⟩

variable {visited : Set (Scopes × Expr)} {scopes : Scopes} {m n : Machine} {host : Host}
  {fuel line : Nat}

def MetAt (scopes : Scopes) (name : String) (m : Machine) : Prop :=
  m.store.ScopesAgree m.environment scopes ∨ ∃ own around, name ≠ own ∧
    scopes = declare own around ∧ m.store.ScopesAgree m.environment around

def Met (visited : Set (Scopes × Expr)) (o : Occurrence) (name : String) (m : Machine) : Prop :=
  Recorded visited m.distances ∧
    ∃ scopes e, (scopes, e) ∈ visited ∧ e.occurrence? = some (o, name) ∧ MetAt scopes name m

def Ready (visited : Set (Scopes × Expr)) : Task → Machine → Prop
  | .eval e, m => ∃ scopes, m.Located visited scopes ∧ Within visited (exprVisits scopes e)
  | .evalAll es, m => ∃ scopes, m.Located visited scopes ∧ Within visited (exprsVisits scopes es)
  | .call f args _, m => m.Intact visited ∧ m.store.Owned visited f ∧
      ∀ v ∈ args, m.store.Owned visited v
  | .invoke c args _, m => m.Intact visited ∧ m.store.ClosureOwned visited c ∧
      (∀ v ∈ args, m.store.Owned visited v) ∧ args.length = c.decl.arity
  | .exec s, m => ∃ scopes, m.Located visited scopes ∧ Within visited (stmtVisits scopes s)
  | .execAll ss, m => ∃ scopes, m.Located visited scopes ∧ Within visited (stmtsVisits scopes ss)
  | .execLoop condition body increment, m => ∃ scopes, m.Located visited scopes ∧
      Within visited (exprVisits scopes condition) ∧ Within visited (stmtVisits scopes body) ∧
      Within visited (optionalVisits scopes increment)
  | .program ss, m => m.Located visited [] ∧ Within visited (stmtsVisits [] ss)
  | .lookup o name, m => Met visited o name m
  | .assign o _, m => Met visited o o.token.lexeme m
  | .superMethod keyword method, m => ∃ scopes, m.Located visited scopes ∧
      (scopes, .super keyword method) ∈ visited

theorem met_of_visit (h : m.Located visited scopes) {e : Expr} {o : Occurrence}
    {name : String} (mem : (scopes, e) ∈ visited) (he : e.occurrence? = some (o, name)) :
    Met visited o name m := ⟨h.recorded, scopes, e, mem, he, .inl h.agree⟩

theorem located_eval {e : Expr} {v : Value} (h : m.Located visited scopes)
    (within : Within visited (exprVisits scopes e)) (run : eval host fuel e m = .ok v n) :
    n.Located visited scopes ∧ m.Keeps n ∧ n.store.Owned visited v := by
  have kept := (ends_ok_iff run).mp ((soundWith host fuel).eval e h.sound)
  have placed := (ends_ok_iff run).mp ((locatedWith visited host fuel).eval e h within)
  exact ⟨h.keeps kept.1 placed.1, kept.1, kept.2, placed.2⟩

theorem located_evalAll {es : List Expr} {vs : List Value}
    (h : m.Located visited scopes) (within : Within visited (exprsVisits scopes es))
    (run : evalAll host fuel es m = .ok vs n) :
    n.Located visited scopes ∧ m.Keeps n ∧ ∀ v ∈ vs, n.store.Owned visited v := by
  have kept := (ends_ok_iff run).mp ((soundWith host fuel).evalAll es h.sound)
  have placed := (ends_ok_iff run).mp ((locatedWith visited host fuel).evalAll es h within)
  exact ⟨h.keeps kept.1 placed.1, kept.1, fun v mem => ⟨kept.2 v mem, placed.2 v mem⟩⟩

theorem located_exec {s : Stmt} {signal : Signal} (h : m.Located visited scopes)
    (within : Within visited (stmtVisits scopes s)) (run : exec host fuel s m = .ok signal n) :
    n.Located visited scopes ∧
      (signal = .normal → n.Located visited (scopesAfter scopes s)) := by
  have passed := (ends_ok_iff run).mp ((soundWith host fuel).exec s h.sound)
  have placed := (ends_ok_iff run).mp ((locatedWith visited host fuel).exec s rfl h within)
  have intact := h.toIntact.passes passed.1 placed.1
  rw [← passed.1.environment] at placed
  exact ⟨⟨intact, placed.2.agree⟩, fun normal => ⟨intact, placed.2.after normal⟩⟩

theorem located_begins {s : Stmt} (h : m.Located visited scopes)
    (begins : Begins host s m n) : n.Located visited scopes := by
  have ends : Ends (do start host s.line; collectIfDue host) m
      (fun _ n => n.Located visited scopes) fun _ _ => True := by
    apply ends_bind.mpr
    apply ((keeps_start h.sound host).and (placed_start h.placed host)).imp
    · intro _ o ho
      apply (located_collectIfDue (h.keeps ho.1.1 ho.2.1) host).imp
      · exact fun _ _ hq => hq.1
      · exact fun _ _ _ => trivial
    · exact fun _ _ _ => trivial
  exact (ends_ok_iff begins).mp ends

theorem MetAt.around {name : String} (h : MetAt scopes name m) :
    ∃ around, m.store.ScopesAgree m.environment around ∧
      distance? name around = distance? name scopes := by
  rcases h with agree | ⟨own, around, ne, rfl, agree⟩
  · exact ⟨scopes, agree, rfl⟩
  · exact ⟨around, agree, (distance?_declare ne around).symm⟩

theorem ready_initializer {object : ClassObject} {init closure : Closure} {args : List Value}
    {id : Address} {o : Machine} (same : args.length = object.arity)
    (created : newInstance m = .ok id n)
    (found : object.method? ClassObject.initializerName = some init)
    (bound : bindMethod init (.instance id object) n = .ok closure o)
    (h : Ready visited (.call (.class object) args line) m) :
    Ready visited (.invoke closure args line) o := by
  obtain ⟨intact, owned, args⟩ := h
  have kept := (ends_ok_iff created).mp (keeps_newInstance intact.sound)
  have placed := ((ends_ok_iff created).mp (placed_newInstance intact.placed)).1
  have owned := owned.mono kept.1.growth
  have receiver : Owned visited n.store (.instance id object) :=
    ⟨⟨kept.2, owned.listed⟩, owned.placed⟩
  have inScope := owned.listed _ (method?_scope_mem found)
  have kept' := (ends_ok_iff bound).mp (keeps_bindMethod kept.1.sound inScope receiver.listed)
  have placed' := (ends_ok_iff bound).mp
    (placed_bindMethod placed (ClassPlaced.method? owned.placed found) receiver.placed)
  have intact' := (intact.passes kept.1.toPasses placed).passes kept'.1.toPasses placed'.1
  refine ⟨intact', ⟨kept'.2, placed'.2.2⟩, fun v mem => ?_, ?_⟩
  · exact ((args v mem).mono kept.1.growth).mono kept'.1.growth
  · rw [same, placed'.2.1, ClassObject.arity, found]
    rfl

theorem ready_callBody {closure : Closure} {args : List Value} {scope : Address} {o : Machine}
    (depth : checkDepth host line m = .ok () n) (created : callScope closure args n = .ok scope o)
    (h : Ready visited (.invoke closure args line) m) :
    Ready visited (.execAll closure.decl.body)
      { o with
        environment := scope
        frame := ⟨if closure.isInitializer then .initializer else .function, 0⟩
        callDepth := o.callDepth + 1 } := by
  obtain ⟨intact, closure, args, same⟩ := h
  have kept := (ends_ok_iff depth).mp (keeps_checkDepth intact.sound)
  have placed := ((ends_ok_iff depth).mp (placed_checkDepth intact.placed)).1
  have closure := closure.mono kept.1.growth
  have args : ∀ v ∈ _, Owned visited n.store v := fun v mem => (args v mem).mono kept.1.growth
  obtain ⟨scopes, agree, within⟩ := closure.placed
  rw [functionVisits_eq] at within
  have kept' := (ends_ok_iff created).mp
    (keeps_callScope kept.1.sound closure.listed fun v mem => (args v mem).listed)
  have placed' := (ends_ok_iff created).mp (placed_callScope placed agree args same)
  have intact' := (intact.passes kept.1.toPasses placed).passes kept'.1.toPasses placed'.1
  exact ⟨_, ⟨⟨⟨kept'.1.sound.store, kept'.2⟩, placed'.1, intact'.recorded⟩, placed'.2⟩, within⟩

theorem ready_of_enters {first next : Moment} (enters : Enters host first next)
    (h : Ready visited first.task first.machine) : Ready visited next.task next.machine := by
  cases enters with
  | grouping =>
      obtain ⟨scopes, located, within⟩ := h
      exact ⟨scopes, located, (within_cons.mp within).2⟩
  | var =>
      obtain ⟨scopes, located, within⟩ := h
      exact met_of_visit located (within_cons.mp within).1 rfl
  | assigned =>
      obtain ⟨scopes, located, within⟩ := h
      exact ⟨scopes, located, (within_cons.mp within).2⟩
  | assign value =>
      obtain ⟨scopes, located, within⟩ := h
      have after := located_eval located (within_cons.mp within).2 value
      exact met_of_visit after.1 (within_cons.mp within).1 rfl
  | logicalLeft | binaryLeft | callee =>
      obtain ⟨scopes, located, within⟩ := h
      exact ⟨scopes, located, (within_append.mp (within_cons.mp within).2).1⟩
  | logicalRight left _ | binaryRight left =>
      obtain ⟨scopes, located, within⟩ := h
      have both := within_append.mp (within_cons.mp within).2
      exact ⟨scopes, (located_eval located both.1 left).1, both.2⟩
  | unary | get =>
      obtain ⟨scopes, located, within⟩ := h
      exact ⟨scopes, located, (within_cons.mp within).2⟩
  | arguments callee =>
      obtain ⟨scopes, located, within⟩ := h
      have both := within_append.mp (within_cons.mp within).2
      exact ⟨scopes, (located_eval located both.1 callee).1, both.2⟩
  | call callee arguments =>
      obtain ⟨scopes, located, within⟩ := h
      have both := within_append.mp (within_cons.mp within).2
      obtain ⟨located', -, owned⟩ := located_eval located both.1 callee
      obtain ⟨located'', kept, args⟩ := located_evalAll located' both.2 arguments
      exact ⟨located''.toIntact, owned.mono kept.growth, args⟩
  | setObject =>
      obtain ⟨scopes, located, within⟩ := h
      exact ⟨scopes, located, (within_append.mp (within_cons.mp within).2).2⟩
  | setValue object =>
      obtain ⟨scopes, located, within⟩ := h
      have both := within_append.mp (within_cons.mp within).2
      exact ⟨scopes, (located_eval located both.2 object).1, both.1⟩
  | this =>
      obtain ⟨scopes, located, within⟩ := h
      exact met_of_visit located (within_cons.mp within).1 rfl
  | super =>
      obtain ⟨scopes, located, within⟩ := h
      exact ⟨scopes, located, (within_cons.mp within).1⟩
  | firstExpr =>
      obtain ⟨scopes, located, within⟩ := h
      exact ⟨scopes, located, (within_append.mp within).1⟩
  | otherExprs first =>
      obtain ⟨scopes, located, within⟩ := h
      have both := within_append.mp within
      exact ⟨scopes, (located_eval located both.1 first).1, both.2⟩
  | function same | bound same =>
      obtain ⟨intact, owned, args⟩ := h
      exact ⟨intact, ⟨owned.listed, owned.placed⟩, args, same⟩
  | «initializer» same created found bound => exact ready_initializer same created found bound h
  | callBody depth created => exact ready_callBody depth created h
  | expression begins | print begins | varDecl begins =>
      obtain ⟨scopes, located, within⟩ := h
      exact ⟨scopes, located_begins located begins, within⟩
  | block begins created =>
      obtain ⟨scopes, located, within⟩ := h
      have inner := located_begins located begins
      cases created
      refine ⟨[] :: scopes, ⟨⟨⟨?_, ?_⟩, ?_, inner.recorded⟩, inner.agree.newScope⟩, within⟩
      · exact inner.sound.store.newScope inner.sound.environment
      · exact newScope_listed _ _
      · exact inner.placed.newScope valuePlaced_lasting _
  | branchCondition begins =>
      obtain ⟨scopes, located, within⟩ := h
      have both := within_append.mp (within_append.mp within).1
      exact ⟨scopes, located_begins located begins, both.1⟩
  | thenBranch begins condition _ =>
      obtain ⟨scopes, located, within⟩ := h
      have both := within_append.mp (within_append.mp within).1
      have inner := located_begins located begins
      exact ⟨scopes, (located_eval inner both.1 condition).1, both.2⟩
  | elseBranch begins condition _ =>
      obtain ⟨scopes, located, within⟩ := h
      have all := within_append.mp within
      have inner := located_begins located begins
      exact ⟨scopes, (located_eval inner (within_append.mp all.1).1 condition).1, all.2⟩
  | loop begins =>
      obtain ⟨scopes, located, within⟩ := h
      have all := within_append.mp within
      have both := within_append.mp all.1
      have inner := located_begins located begins
      refine ⟨scopes, ⟨⟨⟨?_, ?_⟩, ?_, ?_⟩, inner.agree⟩, both.1, both.2, all.2⟩
      · exact inner.sound.store
      · exact inner.sound.environment
      · exact inner.placed
      · exact inner.recorded
  | @superclass _ decl parent _ _ begins named ne =>
      obtain ⟨scopes, located, within⟩ := h
      have inner := located_begins located begins
      obtain ⟨name, superclass, methods⟩ := decl
      cases named
      exact ⟨inner.recorded, _, _, (within_cons.mp within).1, rfl,
        .inr ⟨name.lexeme, scopes, ne, rfl, inner.agree⟩⟩
  | returned begins checked =>
      obtain ⟨scopes, located, within⟩ := h
      have inner := located_begins located begins
      have kept := (ends_ok_iff checked).mp (keeps_checkReturn inner.sound _ _)
      have placed := (ends_ok_iff checked).mp (placed_checkReturn inner.placed _ _)
      exact ⟨scopes, inner.keeps kept.1 placed.1, within⟩
  | firstStmt =>
      obtain ⟨scopes, located, within⟩ := h
      exact ⟨scopes, located, (within_append.mp within).1⟩
  | otherStmts first =>
      obtain ⟨scopes, located, within⟩ := h
      have both := within_append.mp within
      exact ⟨_, (located_exec located both.1 first).2 rfl, both.2⟩
  | loopCondition =>
      obtain ⟨scopes, located, condition, -, -⟩ := h
      exact ⟨scopes, located, condition⟩
  | loopBody condition _ =>
      obtain ⟨scopes, located, within, body, -⟩ := h
      exact ⟨scopes, (located_eval located within condition).1, body⟩
  | increment condition _ body _ =>
      obtain ⟨scopes, located, inCondition, inBody, inIncrement⟩ := h
      have located' := (located_eval located inCondition condition).1
      exact ⟨scopes, (located_exec located' inBody body).1, inIncrement⟩
  | again condition _ body _ =>
      obtain ⟨scopes, located, inCondition, inBody, inIncrement⟩ := h
      have located' := (located_eval located inCondition condition).1
      exact ⟨scopes, (located_exec located' inBody body).1, inCondition, inBody, inIncrement⟩
  | incremented condition _ body _ increment =>
      obtain ⟨scopes, located, inCondition, inBody, inIncrement⟩ := h
      have located' := (located_eval located inCondition condition).1
      have located'' := (located_exec located' inBody body).1
      have located''' := (located_eval located'' inIncrement increment).1
      exact ⟨scopes, located''', inCondition, inBody, inIncrement⟩
  | firstOfProgram =>
      obtain ⟨located, within⟩ := h
      exact ⟨[], located, (within_append.mp within).1⟩
  | restOfProgram first =>
      obtain ⟨located, within⟩ := h
      have both := within_append.mp within
      have after := (located_exec located both.1 first).1
      rw [scopesAfter_nil] at both
      exact ⟨after, both.2⟩

theorem ready_of_moments {first next : Moment}
    (run : Relation.ReflTransGen (Enters host) first next)
    (h : Ready visited first.task first.machine) : Ready visited next.task next.machine := by
  induction run with
  | refl => exact h
  | tail _ enters ih => exact ready_of_enters enters ih

end ClassScript.Run
