import ClassScript.Json
import ClassScript.Syntax

namespace ClassScript

/-- Numbers in documents: scientific outside of `10^-5` to `10^16`, and whole numbers keep `.0`. -/
def documentNumber : Number.Layout where
  tie := .toEven
  positional := fun e => -5 ≤ e && e < 16
  pointZero := fun _ => true
  signedZero := true
  nan := "null"
  infinity := "null"
  negativeInfinity := "null"

def Json.tagged (name : String) (content : Json) : Json := .object [(name, content)]

def Json.optional {α : Type} (encode : α → Json) : Option α → Json
  | some a => encode a
  | none => .null

def Literal.document : Literal → Json
  | number x => .tagged "Number" (.number (documentNumber.write x))
  | string s => .tagged "Str" (.string s)
  | bool true => .string "True"
  | bool false => .string "False"
  | nil => .string "Nil"

def Token.document (t : Token) : Json :=
  .object [("token_type", .string t.kind.name), ("lexeme", .string t.lexeme),
    ("literal", .optional Literal.document t.literal), ("line", .count t.line)]

mutual

def Expr.document : Expr → Json
  | .literal value line =>
    .tagged "Literal" (.object [("value", value.document), ("line", .count line)])
  | .grouping inner => .tagged "Grouping" inner.document
  | .var name =>
    .tagged "Variable" (.object [("id", .count name.id), ("name", name.token.document)])
  | .assign name value =>
    .tagged "Assign" (.object
      [("id", .count name.id), ("name", name.token.document), ("value", value.document)])
  | .logical left operator right =>
    .tagged "Logical" (.object
      [("left", left.document), ("operator", operator.document), ("right", right.document)])
  | .binary left operator right =>
    .tagged "Binary" (.object
      [("left", left.document), ("operator", operator.document), ("right", right.document)])
  | .unary operator operand =>
    .tagged "Unary" (.object [("operator", operator.document), ("right", operand.document)])
  | .call callee paren arguments =>
    .tagged "Call" (.object
      [("callee", callee.document), ("paren", paren.document),
       ("arguments", .array (exprDocuments arguments))])
  | .get object name =>
    .tagged "Get" (.object [("object", object.document), ("name", name.document)])
  | .set object name value =>
    .tagged "Set" (.object
      [("object", object.document), ("name", name.document), ("value", value.document)])
  | .this keyword =>
    .tagged "This" (.object [("id", .count keyword.id), ("keyword", keyword.token.document)])
  | .super keyword method =>
    .tagged "Super" (.object
      [("id", .count keyword.id), ("keyword", keyword.token.document),
       ("method", method.document)])

def exprDocuments : List Expr → List Json
  | [] => []
  | e :: es => e.document :: exprDocuments es

end

mutual

def Stmt.document : Stmt → Json
  | .expression e => .tagged "Expression" e.document
  | .print e => .tagged "Print" e.document
  | .varDecl name initializer =>
    .tagged "Var" (.object
      [("name", name.document), ("initializer", .optional Expr.document initializer)])
  | .block body line =>
    .tagged "Block" (.object [("statements", .array (stmtDocuments body)), ("line", .count line)])
  | .branch condition thenBranch elseBranch =>
    .tagged "If" (.object
      [("condition", condition.document), ("then_branch", thenBranch.document),
       ("else_branch", optionalStmtDocument elseBranch)])
  | .loop condition body increment =>
    .tagged "While" (.object
      [("condition", condition.document), ("body", body.document),
       ("increment", .optional Expr.document increment)])
  | .funDecl decl => .tagged "Function" (functionDocument decl)
  | .classDecl decl => .tagged "Class" (classDocument decl)
  | .return keyword value =>
    .tagged "Return" (.object
      [("keyword", keyword.document), ("value", .optional Expr.document value)])
  | .break keyword => .tagged "Break" (.object [("keyword", keyword.document)])
  | .continue keyword => .tagged "Continue" (.object [("keyword", keyword.document)])

def stmtDocuments : List Stmt → List Json
  | [] => []
  | s :: ss => s.document :: stmtDocuments ss

def optionalStmtDocument : Option Stmt → Json
  | none => .null
  | some s => s.document

def functionDocument : FunctionDecl Stmt → Json
  | ⟨name, params, body⟩ =>
    .object [("name", name.document), ("params", .array (params.map Token.document)),
      ("body", .array (stmtDocuments body))]

def methodDocuments : List (FunctionDecl Stmt) → List Json
  | [] => []
  | m :: ms => functionDocument m :: methodDocuments ms

def classDocument : ClassDecl Stmt → Json
  | ⟨name, superclass, methods⟩ =>
    .object [("name", name.document),
      ("superclass", .optional (fun parent => Expr.document (.var parent)) superclass),
      ("methods", .array (methodDocuments methods))]

end

end ClassScript
