import ClassScript.Token

namespace ClassScript

structure Occurrence where
  id : Nat
  token : Token
deriving Repr, DecidableEq

inductive Expr where
  | literal (value : Literal) (line : Nat)
  | grouping (inner : Expr)
  | var (name : Occurrence)
  | assign (name : Occurrence) (value : Expr)
  | logical (left : Expr) (operator : Token) (right : Expr)
  | binary (left : Expr) (operator : Token) (right : Expr)
  | unary (operator : Token) (operand : Expr)
  | call (callee : Expr) (paren : Token) (arguments : List Expr)
  | get (object : Expr) (name : Token)
  | set (object : Expr) (name : Token) (value : Expr)
  | this (keyword : Occurrence)
  | super (keyword : Occurrence) (method : Token)

structure FunctionDecl (σ : Type) where
  name : Token
  params : List Token
  body : List σ

structure ClassDecl (σ : Type) where
  name : Token
  superclass : Option Occurrence
  methods : List (FunctionDecl σ)

inductive Stmt where
  | expression (expr : Expr)
  | print (expr : Expr)
  | varDecl (name : Token) (initializer : Option Expr)
  | block (body : List Stmt) (line : Nat)
  | branch (condition : Expr) (thenBranch : Stmt) (elseBranch : Option Stmt)
  /-- A loop; the increment runs after each round of the body, also one that was cut short. -/
  | loop (condition : Expr) (body : Stmt) (increment : Option Expr)
  | funDecl (decl : FunctionDecl Stmt)
  | classDecl (decl : ClassDecl Stmt)
  | return (keyword : Token) (value : Option Expr)
  | break (keyword : Token)
  | continue (keyword : Token)

namespace FunctionDecl

def arity {σ : Type} (f : FunctionDecl σ) : Nat := f.params.length

end FunctionDecl

def Expr.line : Expr → Nat
  | literal _ line => line
  | grouping inner => inner.line
  | var name => name.token.line
  | assign name _ => name.token.line
  | logical _ operator _ => operator.line
  | binary _ operator _ => operator.line
  | unary operator _ => operator.line
  | call _ paren _ => paren.line
  | get _ name => name.line
  | set _ name _ => name.line
  | this keyword => keyword.token.line
  | super keyword _ => keyword.token.line

def Stmt.line : Stmt → Nat
  | expression expr => expr.line
  | print expr => expr.line
  | varDecl name _ => name.line
  | block _ line => line
  | branch condition _ _ => condition.line
  | loop condition _ _ => condition.line
  | funDecl decl => decl.name.line
  | classDecl decl => decl.name.line
  | .return keyword _ => keyword.line
  | .break keyword => keyword.line
  | .continue keyword => keyword.line

end ClassScript
