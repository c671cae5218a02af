import ClassScript.Proofs.Binding.Visits

namespace ClassScript

/-- Where code stands: outside of all classes, or in a method of a class, with so many scopes of
blocks and functions around it inside of the one for the receiver. -/
inductive Setting where
  | outside
  | method (decl : ClassDecl Stmt) (depth : Nat)

namespace Setting

def inner : Setting → Setting
  | outside => outside
  | method decl depth => method decl (depth + 1)

def enclosing : Setting → Binding.Enclosing
  | outside => .noClass
  | method decl _ => if decl.superclass.isSome then .subclass else .baseClass

end Setting

inductive Mention where
  | binder (name : String)
  | var (name : Occurrence)
  | this (keyword : Occurrence)
  | super (keyword : Occurrence)

namespace Mention

def id? : Mention → Option Nat
  | binder _ => none
  | var name => some name.id
  | this keyword => some keyword.id
  | super keyword => some keyword.id

/-- No declaration and no variable has a name under which methods find their receiver or their
superclass. -/
def Ordinary : Mention → Prop
  | binder name => name ≠ "this" ∧ name ≠ "super"
  | var name => name.token.lexeme ≠ "this" ∧ name.token.lexeme ≠ "super"
  | _ => True

end Mention

namespace Binding

mutual

def exprMentions (setting : Setting) : Expr → List (Setting × Mention)
  | .literal _ _ => []
  | .grouping inner => exprMentions setting inner
  | .var name => [(setting, .var name)]
  | .assign name value => (setting, .var name) :: exprMentions setting value
  | .logical left _ right => exprMentions setting left ++ exprMentions setting right
  | .binary left _ right => exprMentions setting left ++ exprMentions setting right
  | .unary _ operand => exprMentions setting operand
  | .call callee _ arguments => exprMentions setting callee ++ exprsMentions setting arguments
  | .get object _ => exprMentions setting object
  | .set object _ value => exprMentions setting value ++ exprMentions setting object
  | .this keyword => [(setting, .this keyword)]
  | .super keyword _ => [(setting, .super keyword)]

def exprsMentions (setting : Setting) : List Expr → List (Setting × Mention)
  | [] => []
  | e :: es => exprMentions setting e ++ exprsMentions setting es

end

def optionalMentions (setting : Setting) : Option Expr → List (Setting × Mention)
  | none => []
  | some e => exprMentions setting e

def paramsMentions (setting : Setting) (params : List Token) : List (Setting × Mention) :=
  params.map fun p => (setting, .binder p.lexeme)

def superclassMentions (setting : Setting) : Option Occurrence → List (Setting × Mention)
  | none => []
  | some parent => [(setting, .var parent)]

mutual

def stmtMentions (setting : Setting) : Stmt → List (Setting × Mention)
  | .expression e => exprMentions setting e
  | .print e => exprMentions setting e
  | .varDecl name initializer =>
    (setting, .binder name.lexeme) :: optionalMentions setting initializer
  | .block body _ => stmtsMentions setting.inner body
  | .branch condition thenBranch elseBranch =>
    exprMentions setting condition ++ stmtMentions setting thenBranch ++
      optionalStmtMentions setting elseBranch
  | .loop condition body increment =>
    exprMentions setting condition ++ stmtMentions setting body ++
      optionalMentions setting increment
  | .funDecl decl => (setting, .binder decl.name.lexeme) :: functionMentions setting decl
  | .classDecl decl => classMentions setting decl
  | .return _ value => optionalMentions setting value
  | .break _ => []
  | .continue _ => []

def stmtsMentions (setting : Setting) : List Stmt → List (Setting × Mention)
  | [] => []
  | s :: ss => stmtMentions setting s ++ stmtsMentions setting ss

def optionalStmtMentions (setting : Setting) : Option Stmt → List (Setting × Mention)
  | none => []
  | some s => stmtMentions setting s

def functionMentions (setting : Setting) : FunctionDecl Stmt → List (Setting × Mention)
  | ⟨_, params, body⟩ => paramsMentions setting params ++ stmtsMentions setting.inner body

def methodsMentions (setting : Setting) : List (FunctionDecl Stmt) → List (Setting × Mention)
  | [] => []
  | m :: ms => functionMentions setting m ++ methodsMentions setting ms

def classMentions (setting : Setting) : ClassDecl Stmt → List (Setting × Mention)
  | ⟨name, superclass, methods⟩ =>
    (setting, .binder name.lexeme) :: (superclassMentions setting superclass ++
      methodsMentions (.method ⟨name, superclass, methods⟩ 0) methods)

end

theorem functionMentions_eq (setting : Setting) (decl : FunctionDecl Stmt) :
    functionMentions setting decl =
      paramsMentions setting decl.params ++ stmtsMentions setting.inner decl.body := by
  cases decl
  rfl

theorem classMentions_eq (setting : Setting) (decl : ClassDecl Stmt) :
    classMentions setting decl =
      (setting, .binder decl.name.lexeme) :: (superclassMentions setting decl.superclass ++
        methodsMentions (.method decl 0) decl.methods) := by
  cases decl
  rfl

theorem mem_methodsMentions {setting : Setting} {ms : List (FunctionDecl Stmt)}
    {used : Set (Setting × Mention)} {decl : FunctionDecl Stmt}
    (h : Within used (methodsMentions setting ms)) (mem : decl ∈ ms) :
    Within used (functionMentions setting decl) := by
  induction ms with
  | nil => cases mem
  | cons first rest ih =>
      have both := within_append.mp h
      rcases List.mem_cons.mp mem with rfl | mem
      · exact both.1
      · exact ih both.2 mem

def mentionId (x : Setting × Mention) : Option Nat := x.2.id?

mutual

theorem mentionIds_expr (setting : Setting) : (e : Expr) →
    (exprMentions setting e).filterMap mentionId = e.ids
  | .literal _ _ | .var _ | .this _ | .super _ _ => rfl
  | .grouping inner | .unary _ inner | .get inner _ => mentionIds_expr setting inner
  | .assign name value => congrArg (name.id :: ·) (mentionIds_expr setting value)
  | .logical left _ right | .binary left _ right | .set right _ left => by
      simp only [exprMentions, Expr.ids, List.filterMap_append, mentionIds_expr setting left,
        mentionIds_expr setting right]
  | .call callee _ arguments => by
      simp only [exprMentions, Expr.ids, List.filterMap_append, mentionIds_expr setting callee,
        mentionIds_exprs setting arguments]

theorem mentionIds_exprs (setting : Setting) : (es : List Expr) →
    (exprsMentions setting es).filterMap mentionId = exprsIds es
  | [] => rfl
  | e :: es => by
      simp only [exprsMentions, exprsIds, List.filterMap_append, mentionIds_expr setting e,
        mentionIds_exprs setting es]

end

theorem mentionIds_optional (setting : Setting) (e : Option Expr) :
    (optionalMentions setting e).filterMap mentionId = optionalIds e := by
  cases e with
  | none => rfl
  | some e => exact mentionIds_expr setting e

theorem mentionIds_params (setting : Setting) (params : List Token) :
    (paramsMentions setting params).filterMap mentionId = [] := by
  simp [paramsMentions, mentionId, Mention.id?, Function.comp_def]

theorem mentionIds_superclass (setting : Setting) (superclass : Option Occurrence) :
    (superclassMentions setting superclass).filterMap mentionId =
      (superclass.map Occurrence.id).toList := by
  cases superclass <;> rfl

mutual

theorem mentionIds_stmt : (setting : Setting) → (s : Stmt) →
    (stmtMentions setting s).filterMap mentionId = s.ids
  | setting, .expression e | setting, .print e => mentionIds_expr setting e
  | setting, .varDecl _ e | setting, .return _ e => mentionIds_optional setting e
  | setting, .block body _ => mentionIds_stmts setting.inner body
  | setting, .branch condition thenBranch elseBranch => by
      simp only [stmtMentions, Stmt.ids, List.filterMap_append, mentionIds_expr setting condition,
        mentionIds_stmt setting thenBranch, mentionIds_optionalStmt setting elseBranch]
  | setting, .loop condition body increment => by
      simp only [stmtMentions, Stmt.ids, List.filterMap_append, mentionIds_expr setting condition,
        mentionIds_stmt setting body, mentionIds_optional setting increment]
  | setting, .funDecl decl => mentionIds_function setting decl
  | setting, .classDecl decl => mentionIds_class setting decl
  | _, .break _ | _, .continue _ => rfl

theorem mentionIds_stmts : (setting : Setting) → (ss : List Stmt) →
    (stmtsMentions setting ss).filterMap mentionId = stmtsIds ss
  | _, [] => rfl
  | setting, s :: ss => by
      simp only [stmtsMentions, stmtsIds, List.filterMap_append, mentionIds_stmt setting s,
        mentionIds_stmts setting ss]

theorem mentionIds_optionalStmt : (setting : Setting) → (s : Option Stmt) →
    (optionalStmtMentions setting s).filterMap mentionId = optionalStmtIds s
  | _, none => rfl
  | setting, some s => mentionIds_stmt setting s

theorem mentionIds_function : (setting : Setting) → (decl : FunctionDecl Stmt) →
    (functionMentions setting decl).filterMap mentionId = functionIds decl
  | setting, ⟨_, params, body⟩ => by
      simp only [functionMentions, functionIds, List.filterMap_append, mentionIds_params,
        List.nil_append, mentionIds_stmts setting.inner body]

theorem mentionIds_methods : (setting : Setting) → (ms : List (FunctionDecl Stmt)) →
    (methodsMentions setting ms).filterMap mentionId = methodsIds ms
  | _, [] => rfl
  | setting, m :: ms => by
      simp only [methodsMentions, methodsIds, List.filterMap_append, mentionIds_function setting m,
        mentionIds_methods setting ms]

theorem mentionIds_class : (setting : Setting) → (decl : ClassDecl Stmt) →
    (classMentions setting decl).filterMap mentionId = classIds decl
  | setting, ⟨name, superclass, methods⟩ => by
      have inside := mentionIds_methods (.method ⟨name, superclass, methods⟩ 0) methods
      rw [classMentions, List.filterMap_cons_none rfl, List.filterMap_append,
        mentionIds_superclass, inside, classIds]

end

end Binding

end ClassScript
