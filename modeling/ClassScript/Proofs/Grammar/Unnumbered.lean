import ClassScript.Syntax

namespace ClassScript

def Occurrence.unnumbered (o : Occurrence) : Occurrence := ⟨0, o.token⟩

mutual

def Expr.unnumbered : Expr → Expr
  | .literal value line => .literal value line
  | .grouping inner => .grouping inner.unnumbered
  | .var name => .var name.unnumbered
  | .assign name value => .assign name.unnumbered value.unnumbered
  | .logical left operator right => .logical left.unnumbered operator right.unnumbered
  | .binary left operator right => .binary left.unnumbered operator right.unnumbered
  | .unary operator operand => .unary operator operand.unnumbered
  | .call callee paren arguments => .call callee.unnumbered paren (exprsUnnumbered arguments)
  | .get object name => .get object.unnumbered name
  | .set object name value => .set object.unnumbered name value.unnumbered
  | .this keyword => .this keyword.unnumbered
  | .super keyword method => .super keyword.unnumbered method

def exprsUnnumbered : List Expr → List Expr
  | [] => []
  | e :: es => e.unnumbered :: exprsUnnumbered es

end

mutual

def Stmt.unnumbered : Stmt → Stmt
  | .expression e => .expression e.unnumbered
  | .print e => .print e.unnumbered
  | .varDecl name initializer => .varDecl name (initializer.map Expr.unnumbered)
  | .block body line => .block (stmtsUnnumbered body) line
  | .branch condition thenBranch elseBranch =>
    .branch condition.unnumbered thenBranch.unnumbered (optionalStmtUnnumbered elseBranch)
  | .loop condition body increment =>
    .loop condition.unnumbered body.unnumbered (increment.map Expr.unnumbered)
  | .funDecl decl => .funDecl (functionUnnumbered decl)
  | .classDecl decl => .classDecl (classUnnumbered decl)
  | .return keyword value => .return keyword (value.map Expr.unnumbered)
  | .break keyword => .break keyword
  | .continue keyword => .continue keyword

def stmtsUnnumbered : List Stmt → List Stmt
  | [] => []
  | s :: ss => s.unnumbered :: stmtsUnnumbered ss

def optionalStmtUnnumbered : Option Stmt → Option Stmt
  | none => none
  | some s => some s.unnumbered

def functionUnnumbered : FunctionDecl Stmt → FunctionDecl Stmt
  | ⟨name, params, body⟩ => ⟨name, params, stmtsUnnumbered body⟩

def methodsUnnumbered : List (FunctionDecl Stmt) → List (FunctionDecl Stmt)
  | [] => []
  | m :: ms => functionUnnumbered m :: methodsUnnumbered ms

def classUnnumbered : ClassDecl Stmt → ClassDecl Stmt
  | ⟨name, superclass, methods⟩ =>
    ⟨name, superclass.map Occurrence.unnumbered, methodsUnnumbered methods⟩

end

end ClassScript
