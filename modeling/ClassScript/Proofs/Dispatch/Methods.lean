import Mathlib
import ClassScript.Proofs.Dispatch.Nearest
import ClassScript.Proofs.Dispatch.Sessions

/-!
# Method dispatch

A property that is no field is a method of the nearest class, starting with that of the instance,
and `super` finds methods in the same way, starting above the class that the code belongs to
(`methods_dispatch`). The classes are known by their declarations: each layer of a class was made by
one when it ran, on top of what its superclass was then.
-/

namespace ClassScript

open Binding Store

namespace Run

variable {m n o : Machine} {decl : ClassDecl Stmt} {superclass : Option ClassObject}
  {object : ClassObject}

/-- The superclass that the declaration names in the state `m`. -/
def Inherits (decl : ClassDecl Stmt) (m : Machine) : Option ClassObject → Prop
  | none => decl.superclass = none
  | some object => ∃ parent, decl.superclass = some parent ∧
      lookup parent parent.token.lexeme m = .ok (.class object) m

theorem ends_superclassOf (decl : ClassDecl Stmt) (m : Machine) : Ends (superclassOf decl) m
    (fun superclass n => n = m ∧ Inherits decl m superclass) fun _ _ => True := by
  unfold superclassOf
  cases named : decl.superclass with
  | none => exact ⟨rfl, named⟩
  | some parent =>
      dsimp only
      split
      · trivial
      · apply ends_bind.mpr
        unfold Ends
        rw [lookup_eq]
        cases found : (m.scopeOf parent).bind fun scope =>
          (m.store.bindings scope).get? parent.token.lexeme with
        | none => trivial
        | some value =>
            cases value with
            | «class» object => exact ⟨rfl, parent, named, by rw [lookup_eq, found]⟩
            | _ => trivial

/-- What a class has from its declaration, and what from its superclass. -/
structure Made (decl : ClassDecl Stmt) (m : Machine) (object : ClassObject)
    (superclass : Option ClassObject) (home : Address) : Prop where
  layer : object.layer.MadeFrom decl home
  inherits : Inherits decl m superclass
  ancestors : object.ancestors = (superclass.map ClassObject.layers).getD []

theorem ends_declareClass (sound : m.Sound) (decl : ClassDecl Stmt) : Ends (declareClass decl) m
    (fun _ n => ∃ object superclass home, Made decl m object superclass home ∧
      (n.store.bindings n.environment).get? decl.name.lexeme = some (.class object))
    fun _ _ => True := by
  apply ends_bind.mpr
  apply ((keeps_superclassOf sound decl).and (ends_superclassOf decl m)).imp
  · intro superclass n ⟨kept, same, inherits⟩
    cases same
    apply ends_bind.mpr
    apply (keeps_methodScope kept.1.sound kept.2).imp
    · intro scope o ho
      exact ⟨_, superclass, scope, ⟨⟨rfl, rfl⟩, inherits, rfl⟩,
        get?_newIdentity_define ho.1.sound.store ho.1.sound.environment _ _⟩
    · exact fun _ _ _ => trivial
  · exact fun _ _ _ => trivial

theorem Declares.made (sound : m.Sound) (h : Declares decl m object) :
    ∃ superclass home, Made decl m object superclass home := by
  obtain ⟨n, run, bound⟩ := h
  obtain ⟨other, superclass, home, made, bound'⟩ :=
    (ends_ok_iff run).mp (ends_declareClass sound decl)
  rw [bound] at bound'
  cases bound'
  exact ⟨superclass, home, made⟩

theorem eval_get {host : Host} {fuel : Nat} {e : Expr} {name : Token} {id : Address}
    (run : eval host fuel e m = .ok (.instance id object) n) :
    eval host (fuel + 1) (.get e name) m = readProperty id object name.lexeme name.line n := by
  simp only [eval, bind, EStateM.bind, run]

theorem readProperty_field {id : Address} {name : String} {line : Nat} {value : Value}
    (field : (m.store.fields id).get? name = some value) :
    readProperty id object name line m = .ok value m := by
  simp only [readProperty, property?, field, Store.readProperty]

theorem readProperty_method {id : Address} {name : Token}
    (absent : (m.store.fields id).get? name.lexeme = none) :
    readProperty id object name.lexeme name.line m =
      dispatch object.layers name (.instance id object) m := by
  unfold readProperty property? dispatch ClassObject.method?
  rw [absent]
  cases object.layers.findSome? (·.methods.lookup name.lexeme) <;> rfl

end Run

namespace Session

open Run

variable {programs : List (List Stmt)} {s : Session} {host : Host} {first p : Moment}

/-- Code in a method, and the receiver and the layer that the method has there. -/
structure Receiving (host : Host) (programs : List (List Stmt)) (first : Moment) (m : Machine)
    (decl : ClassDecl Stmt) (depth : Nat) (r : Receiver) : Prop where
  around : m.store.ancestor? m.environment depth = some r.scope
  receives : m.store.Receives (first.sources host (places programs)) decl r

/-- Methods are dispatched along the declarations of classes, at every moment of a run. A property
is the field of the name if there is one, whatever its value; else it is the method of the nearest
class, starting with the one of the instance, that declares the name, and it fails if there is none.
Where code in a method of a class says `super`, it is the same with the classes above that class,
and the receiver is the one that `this` stands for there; nothing else matters. The classes above
are those that the declaration found when it ran: what a class inherits from is the value that the
name of the superclass had in the state in which the class was declared. All this holds for the
programs that are resolved, as the analysis makes sure of. -/
theorem methods_dispatch (reached : Reached programs s) (begins : s.Begins programs first)
    (run : Relation.ReflTransGen (Enters host) first p) :
    let m := p.machine
    (∀ fuel object name id cls n, p.fuel = fuel + 1 → p.task = .eval (.get object name) →
      eval host fuel object m = .ok (.instance id cls) n →
      (∀ value, (n.store.fields id).get? name.lexeme = some value →
        eval host (fuel + 1) (.get object name) m = .ok value n) ∧
      ((n.store.fields id).get? name.lexeme = none →
        ∃ chain, Descends (first.declared host) cls.layers chain ∧
          Dispatches name chain (.instance id cls) n
            (eval host (fuel + 1) (.get object name) m))) ∧
    (∀ fuel keyword method, p.fuel = fuel + 1 → p.task = .eval (.super keyword method) →
      ∃ program ∈ programs, ∃ setting,
        (setting, .super keyword) ∈ stmtsMentions .outside program ∧
        (m.Resolved program → ∃ decl depth r chain, setting = .method decl depth ∧
          Receiving host programs first m decl depth r ∧ m.store.BindsSuper r.home r.above ∧
          Descends (first.declared host) r.above chain ∧
          Dispatches method chain (.instance r.id r.object) m
            (eval host (fuel + 1) (.super keyword method) m) ∧
          ∀ this, (setting, .this this) ∈ stmtsMentions .outside program →
            eval host (fuel + 1) (.this this) m = .ok (.instance r.id r.object) m)) ∧
    (∀ decl object, p.Declares host decl object → ∃ n superclass home,
      Run.Begins host (.classDecl decl) m n ∧ Made decl n object superclass home) ∧
    ∀ program, first.task = .program program ∨ s.machine.Resolved program → m.Resolved program := by
  have follows := follows_sources reached.atHome.names host first
  have home := atHome_of_moments follows run (begins.atHome reached host)
  have distances := distances_of_moments run
  obtain ⟨fuel, task, m⟩ := p
  refine ⟨fun fuel object name id cls n some is ran => ?_,
    fun fuel keyword method some is => ?_, fun decl object declares => ?_,
    fun program known x inside => ?_⟩
  · cases some
    cases is
    obtain ⟨setting, inside, within⟩ := home
    obtain ⟨-, -, housed⟩ := inside_eval follows (run.tail .get) inside within ran
    obtain ⟨chain, descends⟩ := descends_of_homed housed.homed
    rw [eval_get ran]
    refine ⟨fun value field => readProperty_field field, fun absent => ?_⟩
    rw [readProperty_method absent]
    exact ⟨chain, descends, descends.dispatches name _ n⟩
  · cases some
    cases is
    obtain ⟨setting, inside, within⟩ := home
    obtain ⟨program, read, mem⟩ := (within_cons.mp within).1
    refine ⟨program, read, setting, mem, fun known => ?_⟩
    obtain ⟨d, distance⟩ := Option.isSome_iff_exists.mp (known _ mem)
    obtain ⟨decl, depth, rfl, sub, rfl⟩ := inside.charted _ ⟨program, read, mem⟩ _ d rfl distance
    obtain ⟨r, around, receives⟩ := inside.inside
    have above := ClassHomed.of_suffix (inside.receiver around receives)
      ((List.suffix_cons _ _).trans receives.chain)
    obtain ⟨chain, descends⟩ := descends_of_homed above
    refine ⟨decl, depth, r, chain, rfl, ⟨around, receives⟩, receives.super sub, descends, ?_,
      fun this memThis => ?_⟩
    · have dispatches := descends.dispatches method (.instance r.id r.object) m
      rw [← superMethod_eq distance around receives sub] at dispatches
      exact dispatches
    · -- The setting alone places the receiver, so `this` is found in the same scope.
      obtain ⟨d, distance⟩ := Option.isSome_iff_exists.mp (known _ memThis)
      obtain ⟨_, same⟩ := inside.charted _ ⟨program, read, memThis⟩ _ d rfl distance
      cases same
      have found := getAt_of_ancestor? around receives.holds this.token.line
      simp only [eval, lookup, distance, found]
  · obtain ⟨fuel, m', n, is, begins, declares⟩ := declares
    cases is
    obtain ⟨setting, inside, within⟩ := home
    obtain ⟨superclass, scope, made⟩ := declares.made (inside_begins inside begins).sound
    exact ⟨n, superclass, scope, begins, made⟩
  · have known := begins.resolved reached known x inside
    rw [← distances] at known
    exact known

def familyName (text : String) : Token := ⟨.identifier, text, none, 1⟩

def familyMethod : Token := familyName "m"

def familySuper : Token := ⟨.kwSuper, "super", none, 1⟩

def familyOpen : Token := ⟨.leftBrace, "\x7b", none, 1⟩

def familyClose : Token := ⟨.rightBrace, "\x7d", none, 1⟩

def familyParen : Token := ⟨.rightParen, ")", none, 1⟩

def familyParens : List Token := [⟨.leftParen, "(", none, 1⟩, familyParen]

def familyClass (head body : List Token) : List Token :=
  ⟨.kwClass, "class", none, 1⟩ :: head ++ [familyOpen, familyMethod] ++ familyParens ++
    [familyOpen] ++ body ++ [familyClose, familyClose]

def familyTokens : List Token :=
  familyClass [familyName "A"] [] ++
  familyClass [familyName "B", ⟨.less, "<", none, 1⟩, familyName "A"]
    [familySuper, ⟨.dot, ".", none, 1⟩, familyMethod, ⟨.semicolon, ";", none, 1⟩] ++
  [⟨.kwClass, "class", none, 1⟩, familyName "C", ⟨.less, "<", none, 1⟩, familyName "B", familyOpen,
    familyClose, familyName "C"] ++ familyParens ++ [⟨.dot, ".", none, 1⟩, familyMethod] ++
  familyParens ++ [⟨.semicolon, ";", none, 1⟩, .endOfInput 1]

def familyUse : Expr := .super ⟨1, familySuper⟩ familyMethod

def familyDecl : FunctionDecl Stmt := ⟨familyMethod, [], [.expression familyUse]⟩

def familyFirst : ClassDecl Stmt := ⟨familyName "A", none, [⟨familyMethod, [], []⟩]⟩

def familySecond : ClassDecl Stmt := ⟨familyName "B", some ⟨0, familyName "A"⟩, [familyDecl]⟩

def familyThird : ClassDecl Stmt := ⟨familyName "C", some ⟨2, familyName "B"⟩, []⟩

def familyGet : Expr := .get (.call (.var ⟨3, familyName "C"⟩) familyParen []) familyMethod

def familyCall : Expr := .call familyGet familyParen []

def familyProgram : List Stmt :=
  [.classDecl familyFirst, .classDecl familySecond, .classDecl familyThird, .expression familyCall]

def familyHost : Host := Host.standard fun _ => 0

def familyStart : Moment :=
  ⟨20, .program familyProgram, (initial.machine.analyse familyProgram).2⟩

def familyLayerA : ClassLayer := ⟨1, "A", [("m", ⟨⟨familyMethod, [], []⟩, globals, false⟩)]⟩

def familyLayerB : ClassLayer := ⟨3, "B", [("m", ⟨familyDecl, 2, false⟩)]⟩

def familyA : ClassObject := ⟨familyLayerA, []⟩

def familyB : ClassObject := ⟨familyLayerB, [familyLayerA]⟩

def familyC : ClassObject := ⟨⟨5, "C", []⟩, [familyLayerB, familyLayerA]⟩

def familyMachine (names : List (String × Value)) (cells : List Cell)
    (scopes instances : Array Address) (started : Nat) : Machine where
  store := ⟨(.scope none ⟨(Machine.clockName, .clock) :: names⟩ :: cells).toArray, scopes,
    instances, firstThreshold⟩
  environment := globals
  distances := (∅ : Distances).insert 1 2
  frame := ⟨.script, 0⟩
  callDepth := 0
  output := #[]
  started := started
  readings := 0

def familyNames : List (String × Value) :=
  [("A", .class familyA), ("B", .class familyB), ("C", .class familyC)]

def familyCells : List Cell :=
  [.identity, .scope (some globals) ⟨[("super", .class familyA)]⟩, .identity,
    .scope (some globals) ⟨[("super", .class familyB)]⟩, .identity]

def familyBoundCells : List Cell :=
  familyCells ++ [.instance .empty, .scope (some 2) ⟨[("this", .instance 6 familyC)]⟩, .identity]

def familyBound : Machine := familyMachine familyNames familyBoundCells #[2, 4, 7] #[6] 4

def familyInside (started : Nat) : Machine :=
  { familyMachine familyNames (familyBoundCells ++ [.scope (some 7) .empty]) #[2, 4, 7, 9] #[6]
      started with
    environment := 9
    frame := ⟨.function, 0⟩
    callDepth := 1 }

theorem familyStart_declares : Relation.ReflTransGen (Enters familyHost) familyStart
    ⟨20, .exec (.expression familyCall), familyMachine familyNames familyCells #[2, 4] #[] 3⟩ := by
  have first : exec familyHost 20 (.classDecl familyFirst) familyStart.machine =
      .ok .normal (familyMachine (familyNames.take 1) (familyCells.take 1) #[] #[] 1) := rfl
  have second : exec familyHost 20 (.classDecl familySecond)
        (familyMachine (familyNames.take 1) (familyCells.take 1) #[] #[] 1) =
      .ok .normal (familyMachine (familyNames.take 2) (familyCells.take 3) #[2] #[] 2) := rfl
  have third : exec familyHost 20 (.classDecl familyThird)
        (familyMachine (familyNames.take 2) (familyCells.take 3) #[2] #[] 2) =
      .ok .normal (familyMachine familyNames familyCells #[2, 4] #[] 3) := rfl
  apply Relation.ReflTransGen.head (.restOfProgram first)
  apply Relation.ReflTransGen.head (.restOfProgram second)
  apply Relation.ReflTransGen.head (.restOfProgram third)
  exact .single .firstOfProgram

theorem familyStart_calls : Relation.ReflTransGen (Enters familyHost) familyStart
    ⟨14, .eval familyUse, familyInside 5⟩ := by
  have begins : Run.Begins familyHost (.expression familyCall)
    (familyMachine familyNames familyCells #[2, 4] #[] 3)
    (familyMachine familyNames familyCells #[2, 4] #[] 4) := rfl
  have bound : eval familyHost 18 familyGet (familyMachine familyNames familyCells #[2, 4] #[] 4) =
      .ok (.bound 8 ⟨familyDecl, 7, false⟩) familyBound := rfl
  have arguments : evalAll familyHost 18 [] familyBound = .ok [] familyBound := rfl
  have depth : checkDepth familyHost 1 familyBound = .ok () familyBound := rfl
  have scope : callScope ⟨familyDecl, 7, false⟩ [] familyBound =
    .ok 9 { familyInside 4 with environment := globals, frame := ⟨.script, 0⟩, callDepth := 0 } :=
      rfl
  have inside : Run.Begins familyHost (.expression familyUse) (familyInside 4) (familyInside 5) :=
    rfl
  apply familyStart_declares.trans
  apply Relation.ReflTransGen.head (.expression begins)
  apply Relation.ReflTransGen.head (.call bound arguments)
  apply Relation.ReflTransGen.head (.bound rfl)
  apply Relation.ReflTransGen.head (.callBody depth scope)
  apply Relation.ReflTransGen.head .firstStmt
  exact .single (.expression inside)

/-- The class of the receiver does not matter for `super`. -/
theorem methods_dispatch_familyProgram : ∃ s m, Reached [familyProgram] s ∧
    s.Begins [familyProgram] familyStart ∧
    Relation.ReflTransGen (Enters familyHost) familyStart ⟨14, .eval familyUse, m⟩ ∧
    ∃ depth r chain, Receiving familyHost [familyProgram] familyStart m familySecond depth r ∧
      r.object = familyC ∧ r.above = [familyLayerA] ∧
      Descends (familyStart.declared familyHost) r.above chain ∧
      Dispatches familyMethod chain (.instance r.id r.object) m
        (eval familyHost 14 familyUse m) := by
  have parsed : (parseProgram 0 familyTokens).result = .ok familyProgram := by cbv
  have reached := Reached.read familyTokens .initial (by decide) parsed
  have begins : Begins [familyProgram] ⟨initial.machine, (parseProgram 0 familyTokens).nextId⟩
    familyStart := .program List.mem_cons_self rfl
  obtain ⟨-, super, -, resolved⟩ := methods_dispatch reached begins familyStart_calls
  obtain ⟨program, read, setting, mem, dispatches⟩ := super 13 _ _ rfl rfl
  obtain rfl := List.mem_singleton.mp read
  obtain ⟨decl, depth, r, chain, rfl, receiving, -, descends, result, -⟩ :=
    dispatches (resolved _ (.inl rfl))
  have mentions : stmtsMentions .outside familyProgram =
      [(.outside, .binder "A"), (.outside, .binder "B"), (.outside, .var ⟨0, familyName "A"⟩),
        (.method familySecond 1, .super ⟨1, familySuper⟩), (.outside, .binder "C"),
        (.outside, .var ⟨2, familyName "B"⟩), (.outside, .var ⟨3, familyName "C"⟩)] := rfl
  rw [mentions] at mem
  simp only [List.mem_cons, Prod.mk.injEq, reduceCtorEq, and_false, false_or, or_false,
    Setting.method.injEq, List.not_mem_nil, and_true] at mem
  obtain ⟨rfl, rfl⟩ := mem
  -- The receiver is the instance, the home of the method the scope with the first class.
  have scope : 7 = r.scope := Option.some.inj receiving.around
  have holds := receiving.receives.holds
  rw [← scope] at holds
  have object := (Value.instance.inj (Option.some.inj holds)).2
  have outside := receiving.receives.outside
  rw [← scope] at outside
  obtain ⟨superclass, has, layers⟩ := receiving.receives.super rfl
  rw [← Option.some.inj outside] at has
  have same := Value.class.inj (Option.some.inj has)
  rw [← same] at layers
  exact ⟨_, _, reached, begins, familyStart_calls, 1, r, chain, receiving, object.symm, layers.symm,
    descends, result⟩

end Session

end ClassScript
