import Mathlib.Tactic.Common
import ClassScript.Proofs.Grammar.Unnumbered

/-!
# The grammar of expressions

    expression     → assignment ;
    assignment     → ( call "." )? IDENT "=" assignment | logic_or ;
    logic_or       → logic_and ( "or" logic_and )* ;
    logic_and      → equality  ( "and" equality )* ;
    equality       → comparison ( ( "!=" | "==" ) comparison )* ;
    comparison     → term ( ( ">" | ">=" | "<" | "<=" ) term )* ;
    term           → factor ( ( "-" | "+" ) factor )* ;
    factor         → unary ( ( "/" | "*" ) unary )* ;
    unary          → ( "!" | "-" ) unary | call ;
    call           → primary ( "(" arguments? ")" | "." IDENT )* ;
    arguments      → expression ( "," expression )* ;
    primary        → NUMBER | STRING | "true" | "false" | "nil" | "this"
                   | IDENT | "(" expression ")" | "super" "." IDENT ;

`Derives limited X before after tree` says that the tokens of `before` up to `after` derive from
`X`, with this tree, in which no occurrence has an identity. What is repeated by a star has a symbol
of its own, which carries the tree of what stands in front.
-/

namespace ClassScript.Grammar

inductive Level where
  | or | and | equality | comparison | term | factor | unary
deriving DecidableEq

def Level.next : Level → Option Level
  | or => some and
  | and => some equality
  | equality => some comparison
  | comparison => some term
  | term => some factor
  | factor => some unary
  | unary => none

def Level.operators : Level → TokenKind → Bool
  | or => fun k => k == .kwOr
  | and => fun k => k == .kwAnd
  | equality => fun k => k == .bangEqual || k == .equalEqual
  | comparison => fun k => k == .greater || k == .greaterEqual || k == .less || k == .lessEqual
  | term => fun k => k == .minus || k == .plus
  | factor => fun k => k == .slash || k == .star
  | unary => fun _ => false

def Level.node : Level → Expr → Token → Expr → Expr
  | or | and => .logical
  | _ => .binary

theorem node_unnumbered (l : Level) (left : Expr) (operator : Token) (right : Expr) :
    (l.node left operator right).unnumbered =
      l.node left.unnumbered operator right.unnumbered := by
  cases l <;> rfl

inductive Symbol where
  | expression
  | level (l : Level)
  /-- Operators and operands behind a tree that groups to the left. -/
  | levelRest (l : Level) (left : Expr)
  | call
  /-- Argument lists and property names behind a tree. -/
  | callRest (left : Expr)
  | arguments
  | primary

def Symbol.Tree : Symbol → Type
  | arguments => List Expr
  | _ => Expr

def listLimit : Nat := 255

/-- The productions. With `limited`, lists of arguments have a greatest length. -/
inductive Derives (limited : Bool) : (X : Symbol) → List Token → List Token → X.Tree → Prop
  -- assignment → ( call "." )? IDENT "=" assignment | logic_or
  | assign {name equals b a value} : name.kind = .identifier → equals.kind = .equal →
      Derives limited .expression b a value →
      Derives limited .expression (name :: equals :: b) a (Expr.assign ⟨0, name⟩ value)
  | set {b dot name equals c a object value} :
      Derives limited .call b (dot :: name :: equals :: c) object → dot.kind = .dot →
      name.kind = .identifier → equals.kind = .equal → Derives limited .expression c a value →
      Derives limited .expression b a (Expr.set object name value)
  | noAssignment {b a e} : Derives limited (.level .or) b a e → Derives limited .expression b a e
  -- level → next ( operator next )*
  | level {l next b c a first e} : l.next = some next → Derives limited (.level next) b c first →
      Derives limited (.levelRest l first) c a e → Derives limited (.level l) b a e
  | levelEnd {l left a} : Derives limited (.levelRest l left) a a left
  | levelOperator {l next operator left b c a right e} : l.next = some next →
      l.operators operator.kind = true → Derives limited (.level next) b c right →
      Derives limited (.levelRest l (l.node left operator right)) c a e →
      Derives limited (.levelRest l left) (operator :: b) a e
  -- unary → ( "!" | "-" ) unary | call
  | unary {operator b a operand} : operator.kind = .bang ∨ operator.kind = .minus →
      Derives limited (.level .unary) b a operand →
      Derives limited (.level .unary) (operator :: b) a (Expr.unary operator operand)
  | noOperator {b a e} : Derives limited .call b a e → Derives limited (.level .unary) b a e
  -- call → primary ( "(" arguments? ")" | "." IDENT )*
  | call {b c a first e} : Derives limited .primary b c first →
      Derives limited (.callRest first) c a e → Derives limited .call b a e
  | callEnd {left a} : Derives limited (.callRest left) a a left
  | callEmpty {left paren close b a e} : paren.kind = .leftParen → close.kind = .rightParen →
      Derives limited (.callRest (.call left close [])) b a e →
      Derives limited (.callRest left) (paren :: close :: b) a e
  | callArguments {left paren close b c a e} {args : List Expr} : paren.kind = .leftParen →
      close.kind = .rightParen → Derives limited .arguments b (close :: c) args →
      (limited = true → args.length ≤ listLimit) →
      Derives limited (.callRest (.call left close args)) c a e →
      Derives limited (.callRest left) (paren :: b) a e
  | callProperty {left dot name b a e} : dot.kind = .dot → name.kind = .identifier →
      Derives limited (.callRest (.get left name)) b a e →
      Derives limited (.callRest left) (dot :: name :: b) a e
  -- arguments → expression ( "," expression )*
  | argument {b a e} : Derives limited .expression b a e →
      Derives limited .arguments b a [e]
  | arguments {comma b c a} {e : Expr} {es : List Expr} :
      Derives limited .expression b (comma :: c) e → comma.kind = .comma →
      Derives limited .arguments c a es → Derives limited .arguments b a (e :: es)
  -- primary
  | literal {t a value} : t.kind = .number ∨ t.kind = .string → t.literal = some value →
      Derives limited .primary (t :: a) a (Expr.literal value t.line)
  | true {t a} : t.kind = .kwTrue →
      Derives limited .primary (t :: a) a (Expr.literal (.bool true) t.line)
  | false {t a} : t.kind = .kwFalse →
      Derives limited .primary (t :: a) a (Expr.literal (.bool false) t.line)
  | nil {t a} : t.kind = .kwNil → Derives limited .primary (t :: a) a (Expr.literal .nil t.line)
  | this {t a} : t.kind = .kwThis → Derives limited .primary (t :: a) a (Expr.this ⟨0, t⟩)
  | identifier {t a} : t.kind = .identifier →
      Derives limited .primary (t :: a) a (Expr.var ⟨0, t⟩)
  | grouping {paren close b a e} : paren.kind = .leftParen →
      Derives limited .expression b (close :: a) e → close.kind = .rightParen →
      Derives limited .primary (paren :: b) a (Expr.grouping e)
  | super {t dot method a} : t.kind = .kwSuper → dot.kind = .dot → method.kind = .identifier →
      Derives limited .primary (t :: dot :: method :: a) a (Expr.super ⟨0, t⟩ method)

variable {limited : Bool} {b a : List Token} {e : Expr}

theorem derives_unary (h : Derives limited (.level .unary) b a e) :
    Derives limited .expression b a e := by
  have factor : Derives limited (.level .factor) b a e := .level rfl h .levelEnd
  have term : Derives limited (.level .term) b a e := .level rfl factor .levelEnd
  have comparison : Derives limited (.level .comparison) b a e := .level rfl term .levelEnd
  have equality : Derives limited (.level .equality) b a e := .level rfl comparison .levelEnd
  have and : Derives limited (.level .and) b a e := .level rfl equality .levelEnd
  exact .noAssignment (.level rfl and .levelEnd)

theorem derives_primary (h : Derives limited .primary b a e) :
    Derives limited .expression b a e :=
  derives_unary (.noOperator (.call h .callEnd))

theorem unlimited_of_derives {X : Symbol} {tree : X.Tree} (h : Derives limited X b a tree) :
    Derives false X b a tree := by
  induction h with
  | assign hn he _ ih => exact .assign hn he ih
  | set _ hd hn he _ ih ih' => exact .set ih hd hn he ih'
  | noAssignment _ ih => exact .noAssignment ih
  | level next _ _ ih ih' => exact .level next ih ih'
  | levelEnd => exact .levelEnd
  | levelOperator next ho _ _ ih ih' => exact .levelOperator next ho ih ih'
  | unary ho _ ih => exact .unary ho ih
  | noOperator _ ih => exact .noOperator ih
  | call _ _ ih ih' => exact .call ih ih'
  | callEnd => exact .callEnd
  | callEmpty hp hc _ ih => exact .callEmpty hp hc ih
  | callArguments hp hc _ _ _ ih ih' => exact .callArguments hp hc ih nofun ih'
  | callProperty hd hn _ ih => exact .callProperty hd hn ih
  | argument _ ih => exact .argument ih
  | arguments _ hc _ ih ih' => exact .arguments ih hc ih'
  | literal kind value => exact .literal kind value
  | true kind => exact .true kind
  | false kind => exact .false kind
  | nil kind => exact .nil kind
  | this kind => exact .this kind
  | identifier kind => exact .identifier kind
  | grouping hp _ hc ih => exact .grouping hp ih hc
  | super ht hd hm => exact .super ht hd hm

end ClassScript.Grammar
