import ClassScript.Binding
import ClassScript.Store.Collect

/-!
The state of a running program, and the steps that evaluation is made of.

A step keeps the state when it fails, so that what was printed and stored before a fault stays.
The combinators `inScope`, `inLoop` and `inCall` change the surroundings for a part of a run and put
them back however the part ends.
-/

namespace ClassScript

inductive FrameKind where
  | script
  | function
  | initializer
deriving Repr, DecidableEq

structure Frame where
  kind : FrameKind
  loopDepth : Nat
deriving Repr, DecidableEq

structure Host where
  maxDepth : Option Nat
  /-- Whether the run stops at a statement, given how many were started including it. -/
  interrupts : Nat → Bool
  /-- Whether to collect before a statement outside of all calls, given how many were started. -/
  collects : Nat → Store → Bool
  time : Nat → Float

def defaultMaxDepth : Nat := 256

def Host.standard (time : Nat → Float) : Host where
  maxDepth := some defaultMaxDepth
  interrupts := fun _ => false
  collects := fun _ => Store.shouldCollect
  time := time

structure Machine where
  store : Store
  environment : Address
  distances : Distances
  frame : Frame
  callDepth : Nat
  output : Array String
  started : Nat
  readings : Nat

inductive Halt where
  | fault (error : RuntimeError)
  | outOfFuel

inductive Signal where
  | normal
  | break (line : Nat)
  | continue (line : Nat)
  | return (value : Value) (line : Nat)

abbrev Run := EStateM Halt Machine

namespace Machine

def clockName : String := "clock"

def initial : Machine where
  store := Store.initial.define Store.globals clockName .clock
  environment := Store.globals
  distances := ∅
  frame := ⟨.script, 0⟩
  callDepth := 0
  output := #[]
  started := 0
  readings := 0

end Machine

namespace Run

def fail {α : Type} (fault : RuntimeFault) (line : Nat) : Run α := throw (.fault ⟨fault, line⟩)

def ofExcept {α : Type} : Except RuntimeError α → Run α
  | .ok a => pure a
  | .error e => throw (.fault e)

@[inline] def inScope {α : Type} (scope : Address) (part : Run α) : Run α := fun m =>
  let environment := m.environment
  match part { m with environment := scope } with
  | .ok a m => .ok a { m with environment }
  | .error e m => .error e { m with environment }

@[inline] def inLoop {α : Type} (part : Run α) : Run α := fun m =>
  let frame := m.frame
  match part { m with frame := { frame with loopDepth := frame.loopDepth + 1 } } with
  | .ok a m => .ok a { m with frame }
  | .error e m => .error e { m with frame }

@[inline] def inCall {α : Type} (kind : FrameKind) (scope : Address) (part : Run α) : Run α :=
  fun m =>
    let environment := m.environment
    let frame := m.frame
    let callDepth := m.callDepth
    match part { m with
        environment := scope, frame := ⟨kind, 0⟩, callDepth := callDepth + 1 } with
    | .ok a m => .ok a { m with environment, frame, callDepth }
    | .error e m => .error e { m with environment, frame, callDepth }

def newScope (parent : Address) : Run Address := fun m =>
  let (scope, store) := m.store.newScope parent
  .ok scope { m with store }

def newInstance : Run Address := fun m =>
  let (id, store) := m.store.newInstance
  .ok id { m with store }

def newFunction (decl : FunctionDecl Stmt) (scope : Address) : Run Value := fun m =>
  let (value, store) := m.store.newFunction decl scope
  .ok value { m with store }

def newClass (name : String) (superclass : Option ClassObject)
    (methods : List (String × Closure)) : Run Value := fun m =>
  let (value, store) := m.store.newClass name superclass methods
  .ok value { m with store }

def defineIn (scope : Address) (name : String) (value : Value) : Run Unit := fun m =>
  .ok () { m with store := m.store.define scope name value }

def defineAllIn (scope : Address) (entries : List (String × Value)) : Run Unit := fun m =>
  .ok () { m with store := m.store.defineAll scope entries }

def define (name : String) (value : Value) : Run Unit := fun m =>
  .ok () { m with store := m.store.define m.environment name value }

def lookup (o : Occurrence) (name : String) : Run Value := fun m =>
  let found := match m.distances[o.id]? with
    | some distance => m.store.getAt m.environment distance name o.token.line
    | none => m.store.get Store.globals name o.token.line
  match found with
  | .ok value => .ok value m
  | .error e => .error (.fault e) m

def assign (o : Occurrence) (value : Value) : Run Unit := fun m =>
  let name := o.token.lexeme
  let target := match m.distances[o.id]? with
    | some distance => m.store.targetAt m.environment distance name o.token.line
    | none => m.store.target Store.globals name o.token.line
  match target with
  | .ok holder => .ok () { m with store := m.store.define holder name value }
  | .error e => .error (.fault e) m

def bindMethod (method : Closure) (receiver : Value) : Run Closure := fun m =>
  let (closure, store) := m.store.bindMethod method receiver
  .ok closure { m with store }

def boundMethod (method : Closure) (receiver : Value) : Run Value := fun m =>
  let (value, store) := m.store.boundMethod method receiver
  .ok value { m with store }

def readProperty (id : Address) (object : ClassObject) (name : String) (line : Nat) :
    Run Value := fun m =>
  match m.store.property? id object name with
  | some property =>
    let (value, store) := m.store.readProperty id object property
    .ok value { m with store }
  | none => .error (.fault ⟨.undefinedProperty name, line⟩) m

def setField (id : Address) (name : String) (value : Value) : Run Unit := fun m =>
  .ok () { m with store := m.store.setField id name value }

/-- The method that `super` stands for, bound to the receiver of the method around it. -/
def superMethod (keyword : Occurrence) (method : Token) : Run Value := do
  let line := keyword.token.line
  let m ← get
  let some distance := m.distances[keyword.id]? | fail .superOutsideClass line
  let superclass ← ofExcept (m.store.getAt m.environment distance Store.superclassName line)
  let receiver ← ofExcept (m.store.getAt m.environment (distance - 1) Store.receiverName line)
  match superclass, receiver with
  | .class object, .instance _ _ =>
    match object.method? method.lexeme with
    | some found => boundMethod found receiver
    | none => fail (.undefinedProperty method.lexeme) method.line
  | _, _ => fail .invalidSuper line

def start (host : Host) (line : Nat) : Run Unit := fun m =>
  let started := m.started + 1
  if host.interrupts started then .error (.fault ⟨.interrupted, line⟩) { m with started }
  else .ok () { m with started }

def collectIfDue (host : Host) : Run Unit := fun m =>
  if m.callDepth == 0 && host.collects m.started m.store then
    .ok () { m with store := m.store.collect m.environment }
  else .ok () m

def readClock (host : Host) : Run Value := fun m =>
  .ok (.number (host.time m.readings)) { m with readings := m.readings + 1 }

def print (value : Value) : Run Unit := fun m =>
  .ok () { m with output := m.output.push value.display }

end Run

end ClassScript
