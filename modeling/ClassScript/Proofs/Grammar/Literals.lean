import Mathlib.Tactic.Common
import ClassScript.Proofs.Grammar.Unnumbered

namespace ClassScript

mutual

def Expr.literals : Expr → List Literal
  | .literal value _ => [value]
  | .var _ | .this _ | .super _ _ => []
  | .grouping inner | .assign _ inner | .unary _ inner | .get inner _ => inner.literals
  | .logical left _ right | .binary left _ right | .set left _ right =>
    left.literals ++ right.literals
  | .call callee _ arguments => callee.literals ++ exprsLiterals arguments

def exprsLiterals : List Expr → List Literal
  | [] => []
  | e :: es => e.literals ++ exprsLiterals es

end

def optionalLiterals (e : Option Expr) : List Literal := (e.map Expr.literals).getD []

mutual

def Stmt.literals : Stmt → List Literal
  | .expression e | .print e => e.literals
  | .varDecl _ e | .return _ e => optionalLiterals e
  | .block body _ => stmtsLiterals body
  | .branch condition thenBranch elseBranch =>
    condition.literals ++ (thenBranch.literals ++ optionalStmtLiterals elseBranch)
  | .loop condition body increment =>
    condition.literals ++ (body.literals ++ optionalLiterals increment)
  | .funDecl decl => functionLiterals decl
  | .classDecl ⟨_, _, methods⟩ => methodsLiterals methods
  | .break _ | .continue _ => []

def stmtsLiterals : List Stmt → List Literal
  | [] => []
  | s :: ss => s.literals ++ stmtsLiterals ss

def optionalStmtLiterals : Option Stmt → List Literal
  | none => []
  | some s => s.literals

def functionLiterals : FunctionDecl Stmt → List Literal
  | ⟨_, _, body⟩ => stmtsLiterals body

def methodsLiterals : List (FunctionDecl Stmt) → List Literal
  | [] => []
  | m :: ms => functionLiterals m ++ methodsLiterals ms

end

mutual

theorem literals_unnumbered : (e : Expr) → e.unnumbered.literals = e.literals
  | .literal _ _ | .var _ | .this _ | .super _ _ => rfl
  | .grouping inner | .assign _ inner | .unary _ inner | .get inner _ => literals_unnumbered inner
  | .logical left _ right | .binary left _ right | .set left _ right =>
      congrArg₂ (· ++ ·) (literals_unnumbered left) (literals_unnumbered right)
  | .call callee _ arguments =>
      congrArg₂ (· ++ ·) (literals_unnumbered callee) (exprsLiterals_unnumbered arguments)

theorem exprsLiterals_unnumbered : (es : List Expr) →
    exprsLiterals (exprsUnnumbered es) = exprsLiterals es
  | [] => rfl
  | e :: es => congrArg₂ (· ++ ·) (literals_unnumbered e) (exprsLiterals_unnumbered es)

end

theorem optionalLiterals_unnumbered (e : Option Expr) :
    optionalLiterals (e.map Expr.unnumbered) = optionalLiterals e := by
  cases e with
  | none => rfl
  | some e => exact literals_unnumbered e

mutual

theorem stmtLiterals_unnumbered : (s : Stmt) → s.unnumbered.literals = s.literals
  | .expression e | .print e => literals_unnumbered e
  | .varDecl _ e | .return _ e => optionalLiterals_unnumbered e
  | .block body _ => stmtsLiterals_unnumbered body
  | .branch condition thenBranch elseBranch =>
      congrArg₂ (· ++ ·) (literals_unnumbered condition)
        (congrArg₂ (· ++ ·) (stmtLiterals_unnumbered thenBranch)
          (optionalStmtLiterals_unnumbered elseBranch))
  | .loop condition body increment =>
      congrArg₂ (· ++ ·) (literals_unnumbered condition)
        (congrArg₂ (· ++ ·) (stmtLiterals_unnumbered body) (optionalLiterals_unnumbered increment))
  | .funDecl decl => functionLiterals_unnumbered decl
  | .classDecl ⟨_, _, methods⟩ => methodsLiterals_unnumbered methods
  | .break _ | .continue _ => rfl

theorem stmtsLiterals_unnumbered : (ss : List Stmt) →
    stmtsLiterals (stmtsUnnumbered ss) = stmtsLiterals ss
  | [] => rfl
  | s :: ss => congrArg₂ (· ++ ·) (stmtLiterals_unnumbered s) (stmtsLiterals_unnumbered ss)

theorem optionalStmtLiterals_unnumbered : (s : Option Stmt) →
    optionalStmtLiterals (optionalStmtUnnumbered s) = optionalStmtLiterals s
  | none => rfl
  | some s => stmtLiterals_unnumbered s

theorem functionLiterals_unnumbered : (decl : FunctionDecl Stmt) →
    functionLiterals (functionUnnumbered decl) = functionLiterals decl
  | ⟨_, _, body⟩ => stmtsLiterals_unnumbered body

theorem methodsLiterals_unnumbered : (ms : List (FunctionDecl Stmt)) →
    methodsLiterals (methodsUnnumbered ms) = methodsLiterals ms
  | [] => rfl
  | m :: ms => congrArg₂ (· ++ ·) (functionLiterals_unnumbered m) (methodsLiterals_unnumbered ms)

end

end ClassScript
