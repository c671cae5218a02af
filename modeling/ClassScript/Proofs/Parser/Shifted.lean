import ClassScript.Syntax

namespace ClassScript

def Occurrence.shifted (k : Nat) (o : Occurrence) : Occurrence := ⟨o.id + k, o.token⟩

mutual

def Expr.shifted (k : Nat) : Expr → Expr
  | .literal value line => .literal value line
  | .grouping inner => .grouping (inner.shifted k)
  | .var name => .var (name.shifted k)
  | .assign name value => .assign (name.shifted k) (value.shifted k)
  | .logical left operator right => .logical (left.shifted k) operator (right.shifted k)
  | .binary left operator right => .binary (left.shifted k) operator (right.shifted k)
  | .unary operator operand => .unary operator (operand.shifted k)
  | .call callee paren arguments => .call (callee.shifted k) paren (exprsShifted k arguments)
  | .get object name => .get (object.shifted k) name
  | .set object name value => .set (object.shifted k) name (value.shifted k)
  | .this keyword => .this (keyword.shifted k)
  | .super keyword method => .super (keyword.shifted k) method

def exprsShifted (k : Nat) : List Expr → List Expr
  | [] => []
  | e :: es => e.shifted k :: exprsShifted k es

end

mutual

def Stmt.shifted (k : Nat) : Stmt → Stmt
  | .expression e => .expression (e.shifted k)
  | .print e => .print (e.shifted k)
  | .varDecl name initializer => .varDecl name (initializer.map (Expr.shifted k))
  | .block body line => .block (stmtsShifted k body) line
  | .branch condition thenBranch elseBranch =>
    .branch (condition.shifted k) (thenBranch.shifted k) (optionalStmtShifted k elseBranch)
  | .loop condition body increment =>
    .loop (condition.shifted k) (body.shifted k) (increment.map (Expr.shifted k))
  | .funDecl decl => .funDecl (functionShifted k decl)
  | .classDecl decl => .classDecl (classShifted k decl)
  | .return keyword value => .return keyword (value.map (Expr.shifted k))
  | .break keyword => .break keyword
  | .continue keyword => .continue keyword

def stmtsShifted (k : Nat) : List Stmt → List Stmt
  | [] => []
  | s :: ss => s.shifted k :: stmtsShifted k ss

def optionalStmtShifted (k : Nat) : Option Stmt → Option Stmt
  | none => none
  | some s => some (s.shifted k)

def functionShifted (k : Nat) : FunctionDecl Stmt → FunctionDecl Stmt
  | ⟨name, params, body⟩ => ⟨name, params, stmtsShifted k body⟩

def methodsShifted (k : Nat) : List (FunctionDecl Stmt) → List (FunctionDecl Stmt)
  | [] => []
  | m :: ms => functionShifted k m :: methodsShifted k ms

def classShifted (k : Nat) : ClassDecl Stmt → ClassDecl Stmt
  | ⟨name, superclass, methods⟩ =>
    ⟨name, superclass.map (Occurrence.shifted k), methodsShifted k methods⟩

end

theorem exprsShifted_eq (k : Nat) (es : List Expr) : exprsShifted k es = es.map (Expr.shifted k) := by
  induction es with
  | nil => rfl
  | cons e es ih => rw [exprsShifted, ih, List.map_cons]

theorem stmtsShifted_eq (k : Nat) (ss : List Stmt) : stmtsShifted k ss = ss.map (Stmt.shifted k) := by
  induction ss with
  | nil => rfl
  | cons s ss ih => rw [stmtsShifted, ih, List.map_cons]

theorem methodsShifted_eq (k : Nat) (ms : List (FunctionDecl Stmt)) :
    methodsShifted k ms = ms.map (functionShifted k) := by
  induction ms with
  | nil => rfl
  | cons m ms ih => rw [methodsShifted, ih, List.map_cons]

theorem Occurrence.shifted_zero (o : Occurrence) : o.shifted 0 = o := rfl

mutual

theorem Expr.shifted_zero : (e : Expr) → e.shifted 0 = e
  | .literal _ _ | .var _ | .this _ | .super _ _ => rfl
  | .grouping e | .unary _ e | .get e _ => by rw [Expr.shifted, Expr.shifted_zero e]
  | .assign o e => by rw [Expr.shifted, Expr.shifted_zero e, o.shifted_zero]
  | .logical l _ r | .binary l _ r | .set l _ r => by
      rw [Expr.shifted, Expr.shifted_zero l, Expr.shifted_zero r]
  | .call e _ es => by rw [Expr.shifted, Expr.shifted_zero e, exprsShifted_zero es]

theorem exprsShifted_zero : (es : List Expr) → exprsShifted 0 es = es
  | [] => rfl
  | e :: es => by rw [exprsShifted, Expr.shifted_zero e, exprsShifted_zero es]

end

theorem optionalShifted_zero (e : Option Expr) : e.map (Expr.shifted 0) = e := by
  cases e with
  | none => rfl
  | some e => rw [Option.map_some, e.shifted_zero]

mutual

theorem Stmt.shifted_zero : (s : Stmt) → s.shifted 0 = s
  | .expression e | .print e => by rw [Stmt.shifted, e.shifted_zero]
  | .varDecl _ e | .return _ e => by rw [Stmt.shifted, optionalShifted_zero]
  | .block body _ => by rw [Stmt.shifted, stmtsShifted_zero body]
  | .branch c s none => by
      rw [Stmt.shifted, c.shifted_zero, Stmt.shifted_zero s, optionalStmtShifted]
  | .branch c s (some other) => by
      rw [Stmt.shifted, c.shifted_zero, Stmt.shifted_zero s, optionalStmtShifted,
        Stmt.shifted_zero other]
  | .loop c s e => by
      rw [Stmt.shifted, c.shifted_zero, Stmt.shifted_zero s, optionalShifted_zero]
  | .funDecl ⟨name, params, body⟩ => by
      rw [Stmt.shifted, functionShifted, stmtsShifted_zero body]
  | .classDecl ⟨_, superclass, methods⟩ => by
      rw [Stmt.shifted, classShifted, methodsShifted_zero methods]
      cases superclass <;> rfl
  | .break _ | .continue _ => rfl

theorem stmtsShifted_zero : (ss : List Stmt) → stmtsShifted 0 ss = ss
  | [] => rfl
  | s :: ss => by rw [stmtsShifted, Stmt.shifted_zero s, stmtsShifted_zero ss]

theorem methodsShifted_zero : (ms : List (FunctionDecl Stmt)) → methodsShifted 0 ms = ms
  | [] => rfl
  | ⟨name, params, body⟩ :: ms => by
      rw [methodsShifted, functionShifted, stmtsShifted_zero body, methodsShifted_zero ms]

end

end ClassScript
