import ClassScript.Syntax

namespace ClassScript

def Token.unlined (t : Token) : Token := { t with line := 0 }

def Occurrence.unlined (o : Occurrence) : Occurrence := ⟨o.id, o.token.unlined⟩

mutual

@[simp] def Expr.unlined : Expr → Expr
  | .literal value _ => .literal value 0
  | .grouping inner => .grouping inner.unlined
  | .var name => .var name.unlined
  | .assign name value => .assign name.unlined value.unlined
  | .logical left operator right => .logical left.unlined operator.unlined right.unlined
  | .binary left operator right => .binary left.unlined operator.unlined right.unlined
  | .unary operator operand => .unary operator.unlined operand.unlined
  | .call callee paren arguments => .call callee.unlined paren.unlined (exprsUnlined arguments)
  | .get object name => .get object.unlined name.unlined
  | .set object name value => .set object.unlined name.unlined value.unlined
  | .this keyword => .this keyword.unlined
  | .super keyword method => .super keyword.unlined method.unlined

def exprsUnlined : List Expr → List Expr
  | [] => []
  | e :: es => e.unlined :: exprsUnlined es

end

mutual

@[simp] def Stmt.unlined : Stmt → Stmt
  | .expression e => .expression e.unlined
  | .print e => .print e.unlined
  | .varDecl name initializer => .varDecl name.unlined (initializer.map Expr.unlined)
  | .block body _ => .block (stmtsUnlined body) 0
  | .branch condition thenBranch elseBranch =>
    .branch condition.unlined thenBranch.unlined (optionalStmtUnlined elseBranch)
  | .loop condition body increment =>
    .loop condition.unlined body.unlined (increment.map Expr.unlined)
  | .funDecl decl => .funDecl (functionUnlined decl)
  | .classDecl decl => .classDecl (classUnlined decl)
  | .return keyword value => .return keyword.unlined (value.map Expr.unlined)
  | .break keyword => .break keyword.unlined
  | .continue keyword => .continue keyword.unlined

def stmtsUnlined : List Stmt → List Stmt
  | [] => []
  | s :: ss => s.unlined :: stmtsUnlined ss

def optionalStmtUnlined : Option Stmt → Option Stmt
  | none => none
  | some s => some s.unlined

def functionUnlined : FunctionDecl Stmt → FunctionDecl Stmt
  | ⟨name, params, body⟩ => ⟨name.unlined, params.map Token.unlined, stmtsUnlined body⟩

def methodsUnlined : List (FunctionDecl Stmt) → List (FunctionDecl Stmt)
  | [] => []
  | m :: ms => functionUnlined m :: methodsUnlined ms

def classUnlined : ClassDecl Stmt → ClassDecl Stmt
  | ⟨name, superclass, methods⟩ =>
    ⟨name.unlined, superclass.map Occurrence.unlined, methodsUnlined methods⟩

end

end ClassScript
