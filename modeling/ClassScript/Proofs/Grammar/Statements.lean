import ClassScript.Proofs.Grammar.Expressions

/-!
# The grammar of programs

    program        → declaration* EOF ;
    declaration    → classDecl | funDecl | varDecl | statement ;
    classDecl      → "class" IDENT ( "<" IDENT )? "{" function* "}" ;
    funDecl        → "fun" function ;
    function       → IDENT "(" parameters? ")" block ;
    parameters     → IDENT ( "," IDENT )* ;
    varDecl        → "var" IDENT ( "=" expression )? ";" ;
    statement      → exprStmt | forStmt | ifStmt | printStmt | returnStmt
                   | whileStmt | breakStmt | continueStmt | block ;
    exprStmt       → expression ";" ;
    forStmt        → "for" "(" ( varDecl | exprStmt | ";" )
                     expression? ";" expression? ")" statement ;
    ifStmt         → "if" "(" expression ")" statement ( "else" statement )? ;
    printStmt      → "print" expression ";" ;
    returnStmt     → "return" expression? ";" ;
    whileStmt      → "while" "(" expression ")" statement ;
    breakStmt      → "break" ";" ;
    continueStmt   → "continue" ";" ;
    block          → "{" declaration* "}" ;

An `else` belongs to the nearest `if` that is open: what stands in front of it has to be closed.
-/

namespace ClassScript.Grammar

/-- expression? -/
inductive Optionally : List Token → List Token → Option Expr → Prop
  | none {a} : Optionally a a none
  | some {b a e} : Derives true .expression b a e → Optionally b a (some e)

inductive Parameters : List Token → List Token → List Token → Prop
  | last {name a} : name.kind = .identifier → Parameters (name :: a) a [name]
  | more {name comma b a names} : name.kind = .identifier → comma.kind = .comma →
      Parameters b a names → Parameters (name :: comma :: b) a (name :: names)

/-- parameters? -/
inductive ParameterList : List Token → List Token → List Token → Prop
  | none {a} : ParameterList a a []
  | some {b a names} : Parameters b a names → names.length ≤ listLimit → ParameterList b a names

/-- ( "<" IDENT )? -/
inductive Superclass : List Token → List Token → Option Occurrence → Prop
  | none {a} : Superclass a a none
  | some {less name a} : less.kind = .less → name.kind = .identifier →
      Superclass (less :: name :: a) a (some ⟨0, name⟩)

inductive VarDecl : List Token → List Token → Stmt → Prop
  | plain {keyword name semicolon a} : keyword.kind = .kwVar → name.kind = .identifier →
      semicolon.kind = .semicolon →
      VarDecl (keyword :: name :: semicolon :: a) a (.varDecl name none)
  | initialized {keyword name equals semicolon b a e} : keyword.kind = .kwVar →
      name.kind = .identifier → equals.kind = .equal →
      Derives true .expression b (semicolon :: a) e → semicolon.kind = .semicolon →
      VarDecl (keyword :: name :: equals :: b) a (.varDecl name (some e))

inductive ExprStmt : List Token → List Token → Stmt → Prop
  | mk {semicolon b a e} : Derives true .expression b (semicolon :: a) e →
      semicolon.kind = .semicolon → ExprStmt b a (.expression e)

/-- varDecl | exprStmt | ";" -/
inductive ForFirst : List Token → List Token → Option Stmt → Prop
  | varDecl {b a s} : VarDecl b a s → ForFirst b a (some s)
  | exprStmt {b a s} : ExprStmt b a s → ForFirst b a (some s)
  | none {semicolon a} : semicolon.kind = .semicolon → ForFirst (semicolon :: a) a none

def forTree (keyword : Token) (first : Option Stmt) (condition : Option Expr) (body : Stmt)
    (increment : Option Expr) : Stmt :=
  let loop := .loop (condition.getD (.literal (.bool true) keyword.line)) body increment
  match first with
  | some s => .block [s, loop] keyword.line
  | none => loop

theorem forTree_unnumbered (keyword : Token) (first : Option Stmt) (condition : Option Expr)
    (body : Stmt) (increment : Option Expr) :
    (forTree keyword first condition body increment).unnumbered =
      forTree keyword (first.map Stmt.unnumbered) (condition.map Expr.unnumbered) body.unnumbered
        (increment.map Expr.unnumbered) := by
  cases first <;> cases condition <;> rfl

inductive StmtSymbol where
  | declarations
  | declaration
  | functions
  | function
  /-- A statement; a closed one does not end with an `if` that could take an `else`. -/
  | statement (closed : Bool)

def StmtSymbol.Tree : StmtSymbol → Type
  | declarations => List Stmt
  | functions => List (FunctionDecl Stmt)
  | function => FunctionDecl Stmt
  | _ => Stmt

inductive DerivesStmt : (X : StmtSymbol) → List Token → List Token → X.Tree → Prop
  -- declaration*
  | noDeclaration {a} : DerivesStmt .declarations a a ([] : List Stmt)
  | declarations {b c a} {s : Stmt} {ss : List Stmt} : DerivesStmt .declaration b c s →
      DerivesStmt .declarations c a ss → DerivesStmt .declarations b a (s :: ss)
  -- declaration → classDecl | funDecl | varDecl | statement
  | classDecl {keyword name start close b c a superclass} {methods : List (FunctionDecl Stmt)} :
      keyword.kind = .kwClass → name.kind = .identifier → Superclass b (start :: c) superclass →
      start.kind = .leftBrace → DerivesStmt .functions c (close :: a) methods →
      close.kind = .rightBrace →
      DerivesStmt .declaration (keyword :: name :: b) a (Stmt.classDecl ⟨name, superclass, methods⟩)
  | funDecl {keyword b a f} : keyword.kind = .kwFun → DerivesStmt .function b a f →
      DerivesStmt .declaration (keyword :: b) a (Stmt.funDecl f)
  | varDecl {b a s} : VarDecl b a s → DerivesStmt .declaration b a s
  | statement {b a s} : DerivesStmt (.statement false) b a s → DerivesStmt .declaration b a s
  -- function*
  | noFunction {a} : DerivesStmt .functions a a ([] : List (FunctionDecl Stmt))
  | functions {b c a} {f : FunctionDecl Stmt} {fs : List (FunctionDecl Stmt)} :
      DerivesStmt .function b c f → DerivesStmt .functions c a fs →
      DerivesStmt .functions b a (f :: fs)
  -- function → IDENT "(" parameters? ")" block
  | function {name paren close start stop b c a params} {body : List Stmt} :
      name.kind = .identifier → paren.kind = .leftParen →
      ParameterList b (close :: start :: c) params → close.kind = .rightParen →
      start.kind = .leftBrace → DerivesStmt .declarations c (stop :: a) body →
      stop.kind = .rightBrace →
      DerivesStmt .function (name :: paren :: b) a (⟨name, params, body⟩ : FunctionDecl Stmt)
  -- statements
  | exprStmt {closed b a s} : ExprStmt b a s → DerivesStmt (.statement closed) b a s
  | forStmt {closed keyword paren semicolon close b c d e a first condition increment body} :
      keyword.kind = .kwFor → paren.kind = .leftParen → ForFirst b c first →
      Optionally c (semicolon :: d) condition → semicolon.kind = .semicolon →
      Optionally d (close :: e) increment → close.kind = .rightParen →
      DerivesStmt (.statement closed) e a body →
      DerivesStmt (.statement closed) (keyword :: paren :: b) a
        (forTree keyword first condition body increment)
  | ifStmt {keyword paren close b c a condition thenBranch} : keyword.kind = .kwIf →
      paren.kind = .leftParen → Derives true .expression b (close :: c) condition →
      close.kind = .rightParen → DerivesStmt (.statement false) c a thenBranch →
      DerivesStmt (.statement false) (keyword :: paren :: b) a
        (Stmt.branch condition thenBranch none)
  | ifElse {closed keyword paren close other b c d a condition thenBranch elseBranch} :
      keyword.kind = .kwIf → paren.kind = .leftParen →
      Derives true .expression b (close :: c) condition → close.kind = .rightParen →
      DerivesStmt (.statement true) c (other :: d) thenBranch → other.kind = .kwElse →
      DerivesStmt (.statement closed) d a elseBranch →
      DerivesStmt (.statement closed) (keyword :: paren :: b) a
        (Stmt.branch condition thenBranch (some elseBranch))
  | printStmt {closed keyword semicolon b a e} : keyword.kind = .kwPrint →
      Derives true .expression b (semicolon :: a) e → semicolon.kind = .semicolon →
      DerivesStmt (.statement closed) (keyword :: b) a (Stmt.print e)
  | returnStmt {closed keyword semicolon b a value} : keyword.kind = .kwReturn →
      Optionally b (semicolon :: a) value → semicolon.kind = .semicolon →
      DerivesStmt (.statement closed) (keyword :: b) a (Stmt.return keyword value)
  | whileStmt {closed keyword paren close b c a condition body} : keyword.kind = .kwWhile →
      paren.kind = .leftParen → Derives true .expression b (close :: c) condition →
      close.kind = .rightParen → DerivesStmt (.statement closed) c a body →
      DerivesStmt (.statement closed) (keyword :: paren :: b) a (Stmt.loop condition body none)
  | breakStmt {closed keyword semicolon a} : keyword.kind = .kwBreak →
      semicolon.kind = .semicolon →
      DerivesStmt (.statement closed) (keyword :: semicolon :: a) a (Stmt.break keyword)
  | continueStmt {closed keyword semicolon a} : keyword.kind = .kwContinue →
      semicolon.kind = .semicolon →
      DerivesStmt (.statement closed) (keyword :: semicolon :: a) a (Stmt.continue keyword)
  | block {closed start stop b a} {body : List Stmt} : start.kind = .leftBrace →
      DerivesStmt .declarations b (stop :: a) body → stop.kind = .rightBrace →
      DerivesStmt (.statement closed) (start :: b) a (Stmt.block body start.line)

end ClassScript.Grammar
