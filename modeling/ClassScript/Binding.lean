import Std.Data.TreeMap
import ClassScript.Fault
import ClassScript.Syntax

/-!
Where names are bound.

The analysis walks over a program with the names of the open scopes, innermost first, and notes for
every occurrence of a name how many scopes lie between it and its declaration.  A name that no
scope declares is global and gets no distance.  On the way it rejects `this` and `super` where they
have no meaning.

The scopes are those that exist when the program runs: one for each block, one for each call with
its parameters and the top level of its body, one for `this` around the methods of a class, and one
for `super` around that.
-/

namespace ClassScript

abbrev Distances := Std.TreeMap Nat Nat

abbrev Scopes := List (List String)

inductive BindingFault where
  | outsideClass (keyword : String)
  | noSuperclass
deriving Repr, DecidableEq

def BindingFault.message : BindingFault → String
  | outsideClass keyword => "Can't use '" ++ keyword ++ "' outside of a class."
  | noSuperclass => "Can't use 'super' in a class with no superclass."

abbrev BindingError := Located BindingFault

namespace Binding

inductive Enclosing where
  | noClass
  | baseClass
  | subclass
deriving Repr, DecidableEq

/-- Adds a name to the innermost scope.  Outside of all scopes names are global. -/
def declare (name : String) : Scopes → Scopes
  | [] => []
  | scope :: scopes => (name :: scope) :: scopes

def distance? (name : String) (scopes : Scopes) : Option Nat :=
  scopes.findIdx? (·.contains name)

def scopesAfter (scopes : Scopes) : Stmt → Scopes
  | .varDecl name _ => declare name.lexeme scopes
  | .funDecl decl => declare decl.name.lexeme scopes
  | .classDecl decl => declare decl.name.lexeme scopes
  | _ => scopes

abbrev Walk := EStateM BindingError Distances Unit

def note (scopes : Scopes) (name : String) (o : Occurrence) : Walk := fun distances =>
  match distance? name scopes with
  | some d => .ok () (distances.insert o.id d)
  | none => .ok () distances

mutual

def walkExpr (around : Enclosing) (scopes : Scopes) : Expr → Walk
  | .literal _ _ => pure ()
  | .grouping inner => walkExpr around scopes inner
  | .var name => note scopes name.token.lexeme name
  | .assign name value => do
    walkExpr around scopes value
    note scopes name.token.lexeme name
  | .logical left _ right => do
    walkExpr around scopes left
    walkExpr around scopes right
  | .binary left _ right => do
    walkExpr around scopes left
    walkExpr around scopes right
  | .unary _ operand => walkExpr around scopes operand
  | .call callee _ arguments => do
    walkExpr around scopes callee
    walkExprs around scopes arguments
  | .get object _ => walkExpr around scopes object
  | .set object _ value => do
    walkExpr around scopes value
    walkExpr around scopes object
  | .this keyword =>
    match around with
    | .noClass => throw ⟨.outsideClass keyword.token.lexeme, keyword.token.line⟩
    | _ => note scopes "this" keyword
  | .super keyword _ =>
    match around with
    | .noClass => throw ⟨.outsideClass keyword.token.lexeme, keyword.token.line⟩
    | .baseClass => throw ⟨.noSuperclass, keyword.token.line⟩
    | .subclass => note scopes "super" keyword

def walkExprs (around : Enclosing) (scopes : Scopes) : List Expr → Walk
  | [] => pure ()
  | e :: es => do
    walkExpr around scopes e
    walkExprs around scopes es

end

def walkOptional (around : Enclosing) (scopes : Scopes) : Option Expr → Walk
  | none => pure ()
  | some e => walkExpr around scopes e

mutual

def walkStmt (around : Enclosing) (scopes : Scopes) : Stmt → Walk
  | .expression e => walkExpr around scopes e
  | .print e => walkExpr around scopes e
  | .varDecl _ initializer => walkOptional around scopes initializer
  | .block body _ => walkStmts around ([] :: scopes) body
  | .branch condition thenBranch elseBranch => do
    walkExpr around scopes condition
    walkStmt around scopes thenBranch
    walkOptionalStmt around scopes elseBranch
  | .loop condition body increment => do
    walkExpr around scopes condition
    walkStmt around scopes body
    walkOptional around scopes increment
  | .funDecl decl => walkFunction around (declare decl.name.lexeme scopes) decl
  | .classDecl decl => walkClass scopes decl
  | .return _ value => walkOptional around scopes value
  | .break _ => pure ()
  | .continue _ => pure ()

def walkStmts (around : Enclosing) (scopes : Scopes) : List Stmt → Walk
  | [] => pure ()
  | s :: ss => do
    walkStmt around scopes s
    walkStmts around (scopesAfter scopes s) ss

def walkOptionalStmt (around : Enclosing) (scopes : Scopes) : Option Stmt → Walk
  | none => pure ()
  | some s => walkStmt around scopes s

def walkFunction (around : Enclosing) (scopes : Scopes) : FunctionDecl Stmt → Walk
  | ⟨_, params, body⟩ => walkStmts around ((params.map Token.lexeme).reverse :: scopes) body

def walkMethods (around : Enclosing) (scopes : Scopes) : List (FunctionDecl Stmt) → Walk
  | [] => pure ()
  | m :: ms => do
    walkFunction around scopes m
    walkMethods around scopes ms

/-- Notes the occurrences in a class, which sees its own name. -/
def walkClass (scopes : Scopes) : ClassDecl Stmt → Walk
  | ⟨name, superclass, methods⟩ => do
    let scopes := declare name.lexeme scopes
    match superclass with
    | some parent =>
      note scopes parent.token.lexeme parent
      walkMethods .subclass (["this"] :: ["super"] :: scopes) methods
    | none => walkMethods .baseClass (["this"] :: scopes) methods

end

def walkProgram (program : List Stmt) : Walk := walkStmts .noClass [] program

end Binding

end ClassScript
