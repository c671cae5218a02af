import ClassScript.Parser.Statement
import ClassScript.Proofs.Grammar.Statements

namespace ClassScript.Grammar

open ClassScript.Parser

variable {limited : Bool} {b a tokens : List Token} {kinds : TokenKind → Bool}

def startsWith (kinds : TokenKind → Bool) (tokens : List Token) : Bool :=
  tokens.head?.any (kinds ·.kind)

@[simp] theorem startsWith_nil : startsWith kinds [] = false := rfl

@[simp] theorem startsWith_cons (t : Token) : startsWith kinds (t :: tokens) = kinds t.kind := rfl

theorem startsWith_of_imp {kinds' : TokenKind → Bool} (imp : ∀ k, kinds k = true → kinds' k = true)
    (h : startsWith kinds tokens = true) : startsWith kinds' tokens = true := by
  cases tokens with
  | nil => simp at h
  | cons t rest => exact imp t.kind h

theorem startsWith_disjoint {kinds' : TokenKind → Bool}
    (disjoint : ∀ k, kinds k = true → kinds' k = false)
    (h : startsWith kinds tokens = true) : startsWith kinds' tokens = false := by
  cases tokens with
  | nil => rfl
  | cons t rest => exact disjoint t.kind h

variable {s : State}

theorem accept?_found {t : Token} (at_ : s.tokens = t :: tokens) (fits : kinds t.kind = true) :
    accept? kinds s = .ok (some t) { s with tokens } := by
  simp [accept?, at_, fits]

theorem accept?_missed (other : startsWith kinds s.tokens = false) :
    accept? kinds s = .ok none s := by
  unfold accept?
  cases at_ : s.tokens with
  | nil => rfl
  | cons t rest =>
      rw [at_, startsWith_cons] at other
      simp [other]

theorem sees_eq (kind : TokenKind) (s : State) :
    sees kind s = .ok (startsWith (· == kind) s.tokens) s := rfl

def Symbol.least : Symbol → Nat
  | levelRest .. | callRest _ => 0
  | _ => 1

def StmtSymbol.least : StmtSymbol → Nat
  | declarations | functions => 0
  | _ => 1

theorem Derives.shorter {X : Symbol} {tree : X.Tree} (h : Derives limited X b a tree) :
    a.length + X.least ≤ b.length := by
  induction h <;> simp only [Symbol.least, List.length_cons] at * <;> omega

theorem Parameters.shorter {names : List Token} (h : Parameters b a names) :
    a.length < b.length := by
  induction h <;> simp only [List.length_cons] at * <;> omega

theorem Superclass.shorter {name : Option Occurrence} (h : Superclass b a name) :
    a.length ≤ b.length := by
  cases h with
  | none => exact Nat.le_refl _
  | some =>
      simp only [List.length_cons]
      omega

def startsPrimary : TokenKind → Bool
  | .number | .string | .kwTrue | .kwFalse | .kwNil | .kwThis | .identifier | .leftParen
  | .kwSuper => true
  | _ => false

def startsExpression (k : TokenKind) : Bool := startsPrimary k || k == .bang || k == .minus

def goesOn (k : TokenKind) : Bool := k == .leftParen || k == .dot

def startsStmt (k : TokenKind) : Bool := startsExpression k || opensStatement k

def startsDeclaration (k : TokenKind) : Bool :=
  startsStmt k || k == .kwClass || k == .kwFun || k == .kwVar

def startsFunction (k : TokenKind) : Bool := k == .identifier

def Symbol.Starts (X : Symbol) (b a : List Token) : Prop :=
  match X with
  | expression | level _ | arguments => startsWith startsExpression b = true
  | call | primary => startsWith startsPrimary b = true
  | levelRest l _ => b = a ∨ startsWith l.operators b = true
  | callRest _ => b = a ∨ startsWith goesOn b = true

def StmtSymbol.Starts (X : StmtSymbol) (b a : List Token) : Prop :=
  match X with
  | declarations => b = a ∨ startsWith startsDeclaration b = true
  | declaration => startsWith startsDeclaration b = true
  | functions => b = a ∨ startsWith startsFunction b = true
  | function => startsWith startsFunction b = true
  | statement _ => startsWith startsStmt b = true

theorem startsWith_of_kind {t : Token} {k : TokenKind} (kind : t.kind = k) (h : kinds k = true) :
    startsWith kinds (t :: tokens) = true := by
  rw [startsWith_cons, kind, h]

theorem startsExpression_of_primary (k : TokenKind) (h : startsPrimary k = true) :
    startsExpression k = true := by
  simp [startsExpression, h]

theorem startsStmt_of_expression (k : TokenKind) (h : startsExpression k = true) :
    startsStmt k = true := by
  simp [startsStmt, h]

theorem startsDeclaration_of_stmt (k : TokenKind) (h : startsStmt k = true) :
    startsDeclaration k = true := by
  simp [startsDeclaration, h]

theorem Derives.starts {X : Symbol} {tree : X.Tree} (h : Derives limited X b a tree) :
    X.Starts b a := by
  induction h with
  | assign kind => exact startsWith_of_kind kind rfl
  | set _ _ _ _ _ ih => exact startsWith_of_imp startsExpression_of_primary ih
  | noAssignment _ ih => exact ih
  | level _ _ _ ih => exact ih
  | levelEnd | callEnd => exact .inl rfl
  | levelOperator _ kind => exact .inr kind
  | unary kind =>
      obtain kind | kind := kind
      · exact startsWith_of_kind kind rfl
      · exact startsWith_of_kind kind rfl
  | noOperator _ ih => exact startsWith_of_imp startsExpression_of_primary ih
  | call _ _ ih => exact ih
  | callEmpty kind | callArguments kind | callProperty kind =>
      exact .inr (startsWith_of_kind kind rfl)
  | argument _ ih => exact ih
  | arguments _ _ _ ih => exact ih
  | literal kind =>
      obtain kind | kind := kind
      · exact startsWith_of_kind kind rfl
      · exact startsWith_of_kind kind rfl
  | true kind | false kind | nil kind | this kind | identifier kind | grouping kind | super kind =>
      exact startsWith_of_kind kind rfl

theorem Parameters.starts {names : List Token} (h : Parameters b a names) :
    startsWith (· == .identifier) b = true := by
  cases h with
  | last kind | more kind => exact startsWith_of_kind kind rfl

end ClassScript.Grammar
