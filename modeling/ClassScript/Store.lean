import ClassScript.RuntimeFault
import ClassScript.Value

/-!
The store of a running program: scopes, instances, and what has an identity.

Addresses are handed out in the order of creation, so whatever a thing is created with has a
smaller address than the thing itself.  The global scope comes first.  Every other scope and every
instance is registered; the registry is what a collection works on.
-/

namespace ClassScript

structure Bindings where
  entries : List (String × Value)

namespace Bindings

def empty : Bindings := ⟨[]⟩

def get? (b : Bindings) (name : String) : Option Value := b.entries.lookup name

def contains (b : Bindings) (name : String) : Bool := (b.get? name).isSome

/-- Replaces the value in the first entry of a name, or adds an entry at the end. -/
def replace (name : String) (value : Value) : List (String × Value) → List (String × Value)
  | [] => [(name, value)]
  | (n, v) :: rest => if name == n then (n, value) :: rest else (n, v) :: replace name value rest

def set (b : Bindings) (name : String) (value : Value) : Bindings :=
  ⟨replace name value b.entries⟩

def references (b : Bindings) : List Address := b.entries.flatMap (·.2.references)

theorem lookup_replace (name other : String) (value : Value) (entries : List (String × Value)) :
    (replace name value entries).lookup other =
      if other = name then some value else entries.lookup other := by
  induction entries with
  | nil =>
    by_cases h : other = name
    · subst h
      simp [replace]
    · simp [replace, List.lookup_cons, h, beq_eq_false_iff_ne.mpr h]
  | cons entry rest ih =>
    obtain ⟨n, v⟩ := entry
    by_cases hn : name = n
    · subst hn
      by_cases ho : other = name
      · subst ho
        simp [replace]
      · simp [replace, List.lookup_cons, ho, beq_eq_false_iff_ne.mpr ho]
    · by_cases ho : other = n
      · subst ho
        simp [replace, hn, Ne.symm hn]
      · simp [replace, List.lookup_cons, hn, beq_eq_false_iff_ne.mpr ho, ih]

@[simp] theorem get?_set (b : Bindings) (name other : String) (value : Value) :
    (b.set name value).get? other = if other = name then some value else b.get? other :=
  lookup_replace name other value b.entries

end Bindings

inductive Cell where
  | scope (parent : Option Address) (bindings : Bindings)
  | instance (fields : Bindings)
  | identity

namespace Cell

def references : Cell → List Address
  | scope parent bindings => parent.toList ++ bindings.references
  | .instance fields => fields.references
  | identity => []

def emptied : Cell → Cell
  | scope parent _ => scope parent .empty
  | .instance _ => .instance .empty
  | identity => identity

end Cell

def firstThreshold : Nat := 1024

structure Store where
  cells : Array Cell
  scopes : Array Address
  instances : Array Address
  threshold : Nat

namespace Store

def globals : Address := 0

def initial : Store := ⟨#[.scope none .empty], #[], #[], firstThreshold⟩

def newScope (s : Store) (parent : Address) : Address × Store :=
  let id := s.cells.size
  (id, { s with cells := s.cells.push (.scope (some parent) .empty), scopes := s.scopes.push id })

def newInstance (s : Store) : Address × Store :=
  let id := s.cells.size
  (id, { s with cells := s.cells.push (.instance .empty), instances := s.instances.push id })

def newIdentity (s : Store) : Address × Store :=
  (s.cells.size, { s with cells := s.cells.push .identity })

def newFunction (s : Store) (decl : FunctionDecl Stmt) (scope : Address) : Value × Store :=
  let (id, s) := s.newIdentity
  (.function id ⟨decl, scope, false⟩, s)

def methodEntry (scope : Address) (decl : FunctionDecl Stmt) : String × Closure :=
  let name := decl.name.lexeme
  (name, ⟨decl, scope, name == ClassObject.initializerName⟩)

/-- The methods that count: of those with the same name, the last. -/
def lastOfEach : List (String × Closure) → List (String × Closure)
  | [] => []
  | m :: ms => if ms.any (·.1 == m.1) then lastOfEach ms else m :: lastOfEach ms

def newClass (s : Store) (name : String) (superclass : Option ClassObject)
    (methods : List (String × Closure)) : Value × Store :=
  let (id, s) := s.newIdentity
  (.class ⟨⟨id, name, lastOfEach methods⟩, (superclass.map ClassObject.layers).getD []⟩, s)

def bindings (s : Store) (scope : Address) : Bindings :=
  match s.cells[scope]? with
  | some (.scope _ b) => b
  | _ => .empty

def parent? (s : Store) (scope : Address) : Option Address :=
  match s.cells[scope]? with
  | some (.scope parent _) => parent
  | _ => none

def define (s : Store) (scope : Address) (name : String) (value : Value) : Store :=
  { s with
    cells := s.cells.modify scope fun
      | .scope parent b => .scope parent (b.set name value)
      | cell => cell }

def defineAll (s : Store) (scope : Address) (entries : List (String × Value)) : Store :=
  entries.foldl (fun s entry => s.define scope entry.1 entry.2) s

def ancestor? (s : Store) (scope : Address) : (distance : Nat) → Option Address
  | 0 => some scope
  | distance + 1 => (s.parent? scope).bind fun parent => s.ancestor? parent distance

def holderWithin (s : Store) (name : String) : (bound : Nat) → (scope : Address) → Option Address
  | bound, scope =>
    if (s.bindings scope).contains name then some scope
    else
      match bound with
      | 0 => none
      | bound + 1 => (s.parent? scope).bind fun parent => s.holderWithin name bound parent

/-- The nearest scope that binds a name.  Each step outward leads to a smaller address. -/
def holder? (s : Store) (scope : Address) (name : String) : Option Address :=
  s.holderWithin name scope scope

def undefined (name : String) (line : Nat) : RuntimeError := ⟨.undefinedVariable name, line⟩

def get (s : Store) (scope : Address) (name : String) (line : Nat) : Except RuntimeError Value :=
  match (s.holder? scope name).bind fun holder => (s.bindings holder).get? name with
  | some value => .ok value
  | none => .error (undefined name line)

def target (s : Store) (scope : Address) (name : String) (line : Nat) :
    Except RuntimeError Address :=
  match s.holder? scope name with
  | some holder => .ok holder
  | none => .error (undefined name line)

def assign (s : Store) (scope : Address) (name : String) (value : Value) (line : Nat) :
    Except RuntimeError Store :=
  (s.target scope name line).map fun holder => s.define holder name value

def getAt (s : Store) (scope : Address) (distance : Nat) (name : String) (line : Nat) :
    Except RuntimeError Value :=
  match (s.ancestor? scope distance).bind fun holder => (s.bindings holder).get? name with
  | some value => .ok value
  | none => .error (undefined name line)

/-- The scope a number of steps outward, if it binds a name that an assignment changes. -/
def targetAt (s : Store) (scope : Address) (distance : Nat) (name : String) (line : Nat) :
    Except RuntimeError Address :=
  match s.ancestor? scope distance with
  | some holder =>
    if (s.bindings holder).contains name then .ok holder else .error (undefined name line)
  | none => .error (undefined name line)

def assignAt (s : Store) (scope : Address) (distance : Nat) (name : String) (value : Value)
    (line : Nat) : Except RuntimeError Store :=
  (s.targetAt scope distance name line).map fun holder => s.define holder name value

def fields (s : Store) (id : Address) : Bindings :=
  match s.cells[id]? with
  | some (.instance b) => b
  | _ => .empty

def setField (s : Store) (id : Address) (name : String) (value : Value) : Store :=
  { s with
    cells := s.cells.modify id fun
      | .instance b => .instance (b.set name value)
      | cell => cell }

def receiverName : String := "this"

def superclassName : String := "super"

/-- A method for a receiver: its scope is a new one that holds the receiver. -/
def bindMethod (s : Store) (method : Closure) (receiver : Value) : Closure × Store :=
  let (scope, s) := s.newScope method.scope
  ({ method with scope }, s.define scope receiverName receiver)

def boundMethod (s : Store) (method : Closure) (receiver : Value) : Value × Store :=
  let (closure, s) := s.bindMethod method receiver
  let (id, s) := s.newIdentity
  (.bound id closure, s)

inductive Property where
  | field (value : Value)
  | method (closure : Closure)

def property? (s : Store) (id : Address) (object : ClassObject) (name : String) :
    Option Property :=
  match (s.fields id).get? name with
  | some value => some (.field value)
  | none => (object.method? name).map .method

/-- Reads a property: a field as it is, a method with its receiver. -/
def readProperty (s : Store) (id : Address) (object : ClassObject) : Property → Value × Store
  | .field value => (value, s)
  | .method closure => s.boundMethod closure (.instance id object)

end Store

end ClassScript
