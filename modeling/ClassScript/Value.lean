import ClassScript.Syntax
import ClassScript.Text.Quoted

/-!
Values of running programs.

What never changes of a value is part of it: the declaration and the home scope of a function, and
the classes above a class.  What can change is kept in a store under an address: the bindings of
scopes and the fields of instances.  Addresses also tell apart values that look the same.
-/

namespace ClassScript

abbrev Address := Nat

structure Closure where
  decl : FunctionDecl Stmt
  scope : Address
  isInitializer : Bool

def Closure.name (c : Closure) : String := c.decl.name.lexeme

structure ClassLayer where
  id : Address
  name : String
  methods : List (String × Closure)

structure ClassObject where
  layer : ClassLayer
  ancestors : List ClassLayer

namespace ClassObject

def name (c : ClassObject) : String := c.layer.name

def layers (c : ClassObject) : List ClassLayer := c.layer :: c.ancestors

def method? (c : ClassObject) (name : String) : Option Closure :=
  c.layers.findSome? (·.methods.lookup name)

def initializerName : String := "init"

/-- A class takes the arguments of its initializer. -/
def arity (c : ClassObject) : Nat := ((c.method? initializerName).map (·.decl.arity)).getD 0

end ClassObject

inductive Value where
  | nil
  | bool (value : Bool)
  | number (value : Float)
  | string (text : String)
  | clock
  | function (id : Address) (closure : Closure)
  /-- A method with its receiver, which its scope holds. -/
  | bound (id : Address) (closure : Closure)
  | class (object : ClassObject)
  | instance (id : Address) (object : ClassObject)

def Literal.value : Literal → Value
  | .number x => .number x
  | .string s => .string s
  | .bool b => .bool b
  | .nil => .nil

namespace Value

def truthy : Value → Bool
  | nil => false
  | bool b => b
  | _ => true

/-- Simple values are equal by content, all others by identity. -/
def equal : Value → Value → Bool
  | nil, nil => true
  | bool a, bool b => a == b
  | number a, number b => a == b
  | string a, string b => a == b
  | clock, clock => true
  | function a _, function b _ => a == b
  | bound a _, bound b _ => a == b
  | .class a, .class b => a.layer.id == b.layer.id
  | .instance a _, .instance b _ => a == b
  | _, _ => false

def arity? : Value → Option Nat
  | clock => some 0
  | function _ closure => some closure.decl.arity
  | bound _ closure => some closure.decl.arity
  | .class object => some object.arity
  | _ => none

/-- Printed numbers: positional, whole numbers without a fraction, zero without a sign. -/
def numberForm : Number.Layout where
  tie := .up
  positional := fun _ => true
  pointZero := fun _ => false
  signedZero := false
  nan := "NaN"
  infinity := "Infinity"
  negativeInfinity := "-Infinity"

def display : Value → String
  | nil => "nil"
  | bool true => "true"
  | bool false => "false"
  | number x => numberForm.write x
  | string s => "\"" ++ s ++ "\""
  | clock => "<native fn>"
  | function _ closure => "<fn " ++ closure.name ++ ">"
  | bound _ closure => "<fn " ++ closure.name ++ ">"
  | .class object => object.name
  | .instance _ object => object.name ++ " instance"

def inspectedNumber : Number.Layout where
  tie := .up
  positional := fun _ => true
  pointZero := fun _ => false
  signedZero := true
  nan := "NaN"
  infinity := "inf"
  negativeInfinity := "-inf"

def inspect : Value → String
  | number x => "Number(" ++ inspectedNumber.write x ++ ")"
  | string s => "String(" ++ Quoted.quote s ++ ")"
  | v => v.display

def classScopes (object : ClassObject) : List Address :=
  object.layers.flatMap fun layer => layer.methods.map (·.2.scope)

def references : Value → List Address
  | function _ closure => [closure.scope]
  | bound _ closure => [closure.scope]
  | .class object => classScopes object
  | .instance id object => id :: classScopes object
  | _ => []

end Value

end ClassScript
