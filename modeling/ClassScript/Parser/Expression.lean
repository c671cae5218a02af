import ClassScript.Parser.Basic

namespace ClassScript.Parser

def leftChain (node : Expr → Token → Expr → Expr) (operators : TokenKind → Bool)
    (operand : Parser Expr) : (bound : Nat) → Expr → Parser Expr
  | 0, left => return left
  | bound + 1, left => do
    match ← accept? operators with
    | some operator =>
      let right ← operand
      leftChain node operators operand bound (node left operator right)
    | none => return left

def level (node : Expr → Token → Expr → Expr) (operators : TokenKind → Bool)
    (bound : Nat) (operand : Parser Expr) : Parser Expr := do
  leftChain node operators operand bound (← operand)

def primary (nested : Parser Expr) : Parser Expr := do
  let t ← peek
  match t.kind with
  | .kwFalse => advance; return .literal (.bool false) t.line
  | .kwTrue => advance; return .literal (.bool true) t.line
  | .kwNil => advance; return .literal .nil t.line
  | .number | .string =>
    advance
    match t.literal with
    | some value => return .literal value t.line
    | none => throw ⟨.missingLiteral, t.line⟩
  | .kwThis => advance; return .this ⟨← freshId, t⟩
  | .kwSuper =>
    advance
    discard <| expect .superDot
    let method ← expect .superMethodName
    return .super ⟨← freshId, t⟩ method
  | .identifier => advance; return .var ⟨← freshId, t⟩
  | .leftParen =>
    advance
    let inner ← nested
    discard <| expect .groupEnd
    return .grouping inner
  | _ => noExpression

def arguments (bound : Nat) (nested : Parser Expr) : Parser (List Expr) := do
  if ← sees .rightParen then return []
  else commaList .tooManyArguments nested bound 0

def callChain (nested : Parser Expr) : (bound : Nat) → Expr → Parser Expr
  | 0, e => return e
  | bound + 1, e => do
    match ← accept? (fun k => k == .leftParen || k == .dot) with
    | none => return e
    | some t =>
      if t.kind == .leftParen then
        let args ← arguments bound nested
        let paren ← expect .argumentsEnd
        callChain nested bound (.call e paren args)
      else
        let name ← expect .propertyName
        callChain nested bound (.get e name)

def call (bound : Nat) (nested : Parser Expr) : Parser Expr := do
  callChain nested bound (← primary nested)

def unary (operand : Parser Expr) : (bound : Nat) → Parser Expr
  | 0 => operand
  | bound + 1 => do
    match ← accept? (fun k => k == .bang || k == .minus) with
    | some operator => return .unary operator (← unary operand bound)
    | none => operand

def factor (bound : Nat) (nested : Parser Expr) : Parser Expr :=
  level .binary (fun k => k == .slash || k == .star) bound (unary (call bound nested) bound)

def term (bound : Nat) (nested : Parser Expr) : Parser Expr :=
  level .binary (fun k => k == .minus || k == .plus) bound (factor bound nested)

def comparison (bound : Nat) (nested : Parser Expr) : Parser Expr :=
  level .binary (fun k => k == .greater || k == .greaterEqual || k == .less || k == .lessEqual)
    bound (term bound nested)

def equality (bound : Nat) (nested : Parser Expr) : Parser Expr :=
  level .binary (fun k => k == .bangEqual || k == .equalEqual) bound (comparison bound nested)

def logicalAnd (bound : Nat) (nested : Parser Expr) : Parser Expr :=
  level .logical (· == .kwAnd) bound (equality bound nested)

def logicalOr (bound : Nat) (nested : Parser Expr) : Parser Expr :=
  level .logical (· == .kwOr) bound (logicalAnd bound nested)

def assignment (bound : Nat) (nested : Parser Expr) : Parser Expr := do
  let target ← logicalOr bound nested
  match ← accept? (· == .equal) with
  | none => return target
  | some equals =>
    let value ← nested
    match target with
    | .var name => return .assign ⟨← freshId, name.token⟩ value
    | .get object name => return .set object name value
    | _ => throw ⟨.invalidAssignmentTarget, equals.line⟩

def expression : (bound : Nat) → Parser Expr
  | 0 => noExpression
  | bound + 1 => assignment (bound + 1) (expression bound)

end ClassScript.Parser
