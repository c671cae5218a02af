import ClassScript.Proofs.Grammar.Exact

namespace ClassScript

def Stmt.isDeclaration : Stmt → Bool
  | .varDecl _ _ | .funDecl _ | .classDecl _ => true
  | _ => false

mutual

/-- No branch and no body of a loop is a declaration. -/
def Stmt.Proper : Stmt → Prop
  | .block body _ => ProperStmts body
  | .branch _ thenBranch elseBranch =>
    (thenBranch.isDeclaration = false ∧ thenBranch.Proper) ∧ ProperBranch elseBranch
  | .loop _ body _ => body.isDeclaration = false ∧ body.Proper
  | .funDecl decl => ProperFunction decl
  | .classDecl decl => ProperClass decl
  | _ => True

def ProperStmts : List Stmt → Prop
  | [] => True
  | s :: ss => s.Proper ∧ ProperStmts ss

def ProperBranch : Option Stmt → Prop
  | none => True
  | some s => s.isDeclaration = false ∧ s.Proper

def ProperFunction : FunctionDecl Stmt → Prop
  | ⟨_, _, body⟩ => ProperStmts body

def ProperMethods : List (FunctionDecl Stmt) → Prop
  | [] => True
  | m :: ms => ProperFunction m ∧ ProperMethods ms

def ProperClass : ClassDecl Stmt → Prop
  | ⟨_, _, methods⟩ => ProperMethods methods

end

theorem isDeclaration_unnumbered (s : Stmt) : s.unnumbered.isDeclaration = s.isDeclaration := by
  cases s <;> rfl

mutual

theorem proper_unnumbered : (s : Stmt) → s.unnumbered.Proper → s.Proper
  | .block body _, h => properStmts_unnumbered body h
  | .branch _ s other, h =>
      ⟨⟨isDeclaration_unnumbered s ▸ h.1.1, proper_unnumbered s h.1.2⟩,
        properBranch_unnumbered other h.2⟩
  | .loop _ body _, h => ⟨isDeclaration_unnumbered body ▸ h.1, proper_unnumbered body h.2⟩
  | .funDecl decl, h => properFunction_unnumbered decl h
  | .classDecl ⟨_, _, methods⟩, h => properMethods_unnumbered methods h
  | .expression _, _ | .print _, _ | .varDecl _ _, _ | .return _ _, _ | .break _, _
  | .continue _, _ => trivial

theorem properStmts_unnumbered : (ss : List Stmt) → ProperStmts (stmtsUnnumbered ss) →
    ProperStmts ss
  | [], _ => trivial
  | s :: ss, h => ⟨proper_unnumbered s h.1, properStmts_unnumbered ss h.2⟩

theorem properBranch_unnumbered : (s : Option Stmt) → ProperBranch (optionalStmtUnnumbered s) →
    ProperBranch s
  | none, _ => trivial
  | some s, h => ⟨isDeclaration_unnumbered s ▸ h.1, proper_unnumbered s h.2⟩

theorem properFunction_unnumbered : (f : FunctionDecl Stmt) →
    ProperFunction (functionUnnumbered f) → ProperFunction f
  | ⟨_, _, body⟩, h => properStmts_unnumbered body h

theorem properMethods_unnumbered : (ms : List (FunctionDecl Stmt)) →
    ProperMethods (methodsUnnumbered ms) → ProperMethods ms
  | [], _ => trivial
  | m :: ms, h => ⟨properFunction_unnumbered m h.1, properMethods_unnumbered ms h.2⟩

end

namespace Grammar

variable {tokens b a : List Token} {s : Stmt}

def StmtSymbol.Proper : (X : StmtSymbol) → X.Tree → Prop
  | declarations, ss => ProperStmts ss
  | declaration, s => Stmt.Proper s
  | functions, fs => ProperMethods fs
  | function, f => ProperFunction f
  | statement _, s => Stmt.isDeclaration s = false ∧ Stmt.Proper s

theorem VarDecl.proper (h : VarDecl b a s) : s.Proper := by
  cases h <;> exact trivial

theorem ExprStmt.proper (h : ExprStmt b a s) : s.isDeclaration = false ∧ s.Proper := by
  cases h
  exact ⟨rfl, trivial⟩

theorem ForFirst.proper {first : Option Stmt} (h : ForFirst b a first) :
    ∀ s ∈ first, s.Proper := by
  cases h with
  | varDecl h => exact fun s mem => Option.mem_some.mp mem ▸ h.proper
  | exprStmt h => exact fun s mem => Option.mem_some.mp mem ▸ h.proper.2
  | none => exact nofun

theorem DerivesStmt.proper {X : StmtSymbol} {tree : X.Tree} (h : DerivesStmt X b a tree) :
    X.Proper tree := by
  induction h with
  | noDeclaration | noFunction => exact trivial
  | declarations _ _ first rest | functions _ _ first rest => exact ⟨first, rest⟩
  | classDecl _ _ _ _ _ _ methods => exact methods
  | funDecl _ _ function => exact function
  | varDecl h => exact h.proper
  | statement _ inner => exact inner.2
  | function _ _ _ _ _ _ _ body => exact body
  | exprStmt h => exact h.proper
  | forStmt _ _ first _ _ _ _ _ body =>
      unfold forTree
      split
      · exact ⟨rfl, first.proper _ rfl, body, trivial⟩
      · exact ⟨rfl, body⟩
  | ifStmt _ _ _ _ _ thenBranch => exact ⟨rfl, thenBranch, trivial⟩
  | ifElse _ _ _ _ _ _ _ thenBranch elseBranch => exact ⟨rfl, thenBranch, elseBranch⟩
  | whileStmt _ _ _ _ _ body => exact ⟨rfl, body⟩
  | block _ _ _ body => exact ⟨rfl, body⟩
  | printStmt | returnStmt | breakStmt | continueStmt => exact ⟨rfl, trivial⟩

end Grammar

theorem properStmts_of_parseProgram {firstId : Nat} {tokens : List Token} {program : List Stmt}
    (parsed : (parseProgram firstId tokens).result = .ok program) : ProperStmts program :=
  properStmts_unnumbered program (Grammar.derives_of_parseProgram parsed).proper

end ClassScript
