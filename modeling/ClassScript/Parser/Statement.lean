import ClassScript.Parser.Expression

namespace ClassScript.Parser

def startsStatement : TokenKind → Bool
  | .kwClass | .kwFun | .kwVar | .kwFor | .kwIf | .kwWhile | .kwPrint | .kwReturn | .kwBreak
  | .kwContinue => true
  | _ => false

/-- Drops tokens up to a semicolon, which is dropped too, or to the start of a statement. -/
def resumeAfter (skipped : Token) : List Token → List Token
  | [] => []
  | t :: rest =>
    if skipped.kind == .semicolon || startsStatement t.kind then t :: rest
    else resumeAfter t rest

def resume : List Token → List Token
  | [] => []
  | t :: rest => resumeAfter t rest

def recovering {α : Type} (p : Parser α) : Parser (Option α) := fun s =>
  match p s with
  | .ok a s => .ok (some a) s
  | .error e s => .ok none { s with tokens := resume s.tokens, recorded := s.recorded ++ [e] }

def optionalExpression (bound : Nat) (without : TokenKind) : Parser (Option Expr) := do
  if ← sees without then return none else return some (← expression bound)

def block (bound : Nat) (declaration : Parser (Option Stmt)) : Parser (List Stmt) := do
  let body ← many (· == .rightBrace) declaration bound
  discard <| expect .blockEnd
  return body.filterMap id

def callable (kind : CallableKind) (bound : Nat) (declaration : Parser (Option Stmt)) :
    Parser (FunctionDecl Stmt) := do
  let name ← expect (.callableName kind)
  discard <| expect (.paramsStart kind)
  let params ←
    if ← sees .rightParen then pure []
    else commaList .tooManyParameters (expect .parameterName) bound 0
  discard <| expect .paramsEnd
  discard <| expect (.callableBodyStart kind)
  return ⟨name, params, ← block bound declaration⟩

def superclass? : Parser (Option Occurrence) := do
  match ← accept? (· == .less) with
  | none => return none
  | some _ =>
    let name ← expect .superclassName
    return some ⟨← freshId, name⟩

def classDeclaration (bound : Nat) (declaration : Parser (Option Stmt)) : Parser Stmt := do
  let name ← expect .className
  let superclass ← superclass?
  discard <| expect .classBodyStart
  let methods ← many (· == .rightBrace) (callable .method bound declaration) bound
  discard <| expect .classBodyEnd
  return .classDecl ⟨name, superclass, methods⟩

def varDeclaration (bound : Nat) : Parser Stmt := do
  let name ← expect .variableName
  let initializer ← match ← accept? (· == .equal) with
    | some _ => some <$> expression bound
    | none => pure none
  discard <| expect .varDeclEnd
  return .varDecl name initializer

def expressionStatement (bound : Nat) : Parser Stmt := do
  let e ← expression bound
  discard <| expect .expressionEnd
  return .expression e

def forInitializer (bound : Nat) : Parser (Option Stmt) := do
  match ← accept? (fun k => k == .semicolon || k == .kwVar) with
  | some t => if t.kind == .semicolon then return none else return some (← varDeclaration bound)
  | none => return some (← expressionStatement bound)

def forStatement (keyword : Token) (bound : Nat) (statement : Parser Stmt) : Parser Stmt := do
  discard <| expect .forStart
  let initializer ← forInitializer bound
  let condition ← optionalExpression bound .semicolon
  discard <| expect .loopConditionEnd
  let increment ← optionalExpression bound .rightParen
  discard <| expect .forClausesEnd
  let body ← statement
  let loop := Stmt.loop (condition.getD (.literal (.bool true) keyword.line)) body increment
  match initializer with
  | some initial => return .block [initial, loop] keyword.line
  | none => return loop

def ifStatement (bound : Nat) (statement : Parser Stmt) : Parser Stmt := do
  discard <| expect .ifStart
  let condition ← expression bound
  discard <| expect .ifConditionEnd
  let thenBranch ← statement
  match ← accept? (· == .kwElse) with
  | some _ => return .branch condition thenBranch (some (← statement))
  | none => return .branch condition thenBranch none

def whileStatement (bound : Nat) (statement : Parser Stmt) : Parser Stmt := do
  discard <| expect .whileStart
  let condition ← expression bound
  discard <| expect .whileConditionEnd
  return .loop condition (← statement) none

def keywordStatement (keyword : Token) (bound : Nat) (declaration : Parser (Option Stmt))
    (statement : Parser Stmt) : Parser Stmt := do
  match keyword.kind with
  | .kwFor => forStatement keyword bound statement
  | .kwIf => ifStatement bound statement
  | .kwWhile => whileStatement bound statement
  | .kwReturn =>
    let value ← optionalExpression bound .semicolon
    discard <| expect .returnEnd
    return .return keyword value
  | .kwBreak =>
    discard <| expect .breakEnd
    return .break keyword
  | .kwContinue =>
    discard <| expect .continueEnd
    return .continue keyword
  | .kwPrint =>
    let e ← expression bound
    discard <| expect .printEnd
    return .print e
  | _ => return .block (← block bound declaration) keyword.line

def opensStatement : TokenKind → Bool
  | .kwFor | .kwIf | .kwWhile | .kwReturn | .kwBreak | .kwContinue | .kwPrint | .leftBrace => true
  | _ => false

def statementRule (bound : Nat) (declaration : Parser (Option Stmt)) (statement : Parser Stmt) :
    Parser Stmt := do
  match ← accept? opensStatement with
  | some keyword => keywordStatement keyword bound declaration statement
  | none => expressionStatement bound

def declarationRule (bound : Nat) (declaration : Parser (Option Stmt)) (statement : Parser Stmt) :
    Parser Stmt := do
  match ← accept? (fun k => k == .kwClass || k == .kwFun || k == .kwVar) with
  | some keyword =>
    match keyword.kind with
    | .kwClass => classDeclaration bound declaration
    | .kwFun => .funDecl <$> callable .function bound declaration
    | _ => varDeclaration bound
  | none => statementRule bound declaration statement

mutual

def statement : (bound : Nat) → Parser Stmt
  | 0 => noExpression
  | bound + 1 => statementRule (bound + 1) (declaration bound) (statement bound)

/-- A declaration or statement within the first `bound` tokens, if it is free of faults. -/
def declaration : (bound : Nat) → Parser (Option Stmt)
  | 0 => recovering noExpression
  | bound + 1 => recovering (declarationRule (bound + 1) (declaration bound) (statement bound))

end

def program (bound : Nat) : Parser (List Stmt) := do
  let declarations ← many (fun _ => false) (declaration bound) bound
  return declarations.filterMap id

def wholeExpression (bound : Nat) : Parser Expr := do
  let e ← expression bound
  fun s => match s.tokens with
    | [] => .ok e s
    | t :: _ => .error ⟨.trailing t.lexeme, t.line⟩ s

end ClassScript.Parser

namespace ClassScript

/-- What a parser makes of a list of tokens, with the first identity that is still free. -/
structure Parsed (ε α : Type) where
  result : Except ε α
  nextId : Nat

def parseProgram (firstId : Nat) (tokens : List Token) : Parsed (List ParseError) (List Stmt) :=
  let start := Parser.State.start firstId tokens
  match Parser.program start.tokens.length start with
  | .ok statements s =>
    ⟨if s.recorded.isEmpty then .ok statements else .error s.recorded, s.nextId⟩
  | .error e s => ⟨.error (s.recorded ++ [e]), s.nextId⟩

def parseExpression (firstId : Nat) (tokens : List Token) : Parsed ParseError Expr :=
  let start := Parser.State.start firstId tokens
  match Parser.wholeExpression start.tokens.length start with
  | .ok e s => ⟨.ok e, s.nextId⟩
  | .error e s => ⟨.error e, s.nextId⟩

end ClassScript
