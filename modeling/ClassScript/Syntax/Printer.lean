import ClassScript.Syntax

namespace ClassScript

def prefixForm (parts : List String) : String := "(" ++ String.intercalate " " parts ++ ")"

mutual

def Expr.render : Expr → String
  | .literal value _ => value.display
  | .grouping inner => prefixForm ["group", inner.render]
  | .var name => name.token.lexeme
  | .assign name value => prefixForm ["=", name.token.lexeme, value.render]
  | .logical left operator right => prefixForm [operator.lexeme, left.render, right.render]
  | .binary left operator right => prefixForm [operator.lexeme, left.render, right.render]
  | .unary operator operand => prefixForm [operator.lexeme, operand.render]
  | .call callee _ arguments => prefixForm ("call" :: callee.render :: renderExprs arguments)
  | .get object name => prefixForm [".", object.render, name.lexeme]
  | .set object name value =>
    prefixForm ["=", prefixForm [".", object.render, name.lexeme], value.render]
  | .this _ => "this"
  | .super _ method => prefixForm ["super", method.lexeme]

def renderExprs : List Expr → List String
  | [] => []
  | e :: es => e.render :: renderExprs es

end

def renderOptional (e : Option Expr) : List String := (e.map Expr.render).toList

mutual

def Stmt.render : Stmt → String
  | .expression e => prefixForm [";", e.render]
  | .print e => prefixForm ["print", e.render]
  | .varDecl name initializer => prefixForm ("var" :: name.lexeme :: renderOptional initializer)
  | .block body _ => prefixForm ("block" :: renderStmts body)
  | .branch condition thenBranch none => prefixForm ["if", condition.render, thenBranch.render]
  | .branch condition thenBranch (some elseBranch) =>
    prefixForm ["if", condition.render, thenBranch.render, elseBranch.render]
  | .loop condition body increment =>
    prefixForm ("while" :: condition.render :: body.render :: renderOptional increment)
  | .funDecl decl => renderFunction "fun" decl
  | .classDecl decl => renderClass decl
  | .return _ value => prefixForm ("return" :: renderOptional value)
  | .break _ => "(break)"
  | .continue _ => "(continue)"

def renderStmts : List Stmt → List String
  | [] => []
  | s :: ss => s.render :: renderStmts ss

def renderFunction (head : String) : FunctionDecl Stmt → String
  | ⟨name, params, body⟩ =>
    prefixForm (head :: name.lexeme :: prefixForm (params.map Token.lexeme) :: renderStmts body)

def renderClass : ClassDecl Stmt → String
  | ⟨name, superclass, methods⟩ =>
    let parent := match superclass with
      | some parent => ["<", parent.token.lexeme]
      | none => []
    prefixForm ("class" :: name.lexeme :: (parent ++ renderMethods methods))

def renderMethods : List (FunctionDecl Stmt) → List String
  | [] => []
  | m :: ms => renderFunction "method" m :: renderMethods ms

end

end ClassScript
