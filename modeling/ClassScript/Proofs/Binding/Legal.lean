import ClassScript.Proofs.Binding.Charted

namespace ClassScript.Binding

def Legal : Setting × Mention → Prop
  | (setting, .this _) => ∃ decl depth, setting = .method decl depth
  | (setting, .super _) => ∃ decl depth, setting = .method decl depth ∧
      decl.superclass.isSome = true
  | _ => True

def misuse? : Setting × Mention → Option BindingError
  | (.outside, .this keyword) | (.outside, .super keyword) =>
    some ⟨.outsideClass keyword.token.lexeme, keyword.token.line⟩
  | (.method decl _, .super keyword) =>
    if decl.superclass.isSome then none else some ⟨.noSuperclass, keyword.token.line⟩
  | _ => none

theorem misuse?_eq_none_iff (x : Setting × Mention) : misuse? x = none ↔ Legal x := by
  rcases x with ⟨_ | ⟨decl, depth⟩, _ | _ | keyword | keyword⟩
  case method.super => cases sub : decl.superclass.isSome <;> simp [misuse?, Legal, sub]
  all_goals simp [misuse?, Legal]

theorem legal_binder (setting : Setting) (name : String) : Legal (setting, .binder name) := trivial

theorem legal_var (setting : Setting) (o : Occurrence) : Legal (setting, .var o) := trivial

def Judges (mentions : List (Setting × Mention)) (walk : Walk) : Prop :=
  ∀ d, Ends walk d (fun _ _ => mentions.findSome? misuse? = none) fun e _ =>
    mentions.findSome? misuse? = some e

variable {mentions others : List (Setting × Mention)} {setting : Setting} {scopes : Scopes}
  {x : Setting × Mention}

theorem judges_pure : Judges [] (pure ()) := fun _ => rfl

theorem judges_throw {e : BindingError} (misuse : misuse? x = some e) :
    Judges [x] (throw e) := fun _ => by
  show [x].findSome? misuse? = some e
  rw [List.findSome?_cons, misuse]

theorem judges_note (legal : Legal x) (name : String) (o : Occurrence) :
    Judges [x] (note scopes name o) := by
  intro d
  have none : [x].findSome? misuse? = none := by
    rw [List.findSome?_cons, (misuse?_eq_none_iff x).mpr legal, List.findSome?_nil]
  unfold Ends note
  cases distance? name scopes <;> exact none

theorem Judges.then {first second : Walk} (h : Judges mentions first) (ho : Judges others second) :
    Judges (mentions ++ others) (do first; second) := by
  intro d
  apply ends_bind.mpr
  apply (h d).imp
  · intro _ d' none
    rw [List.findSome?_append, none, Option.none_or]
    exact ho d'
  · intro e _ found
    rw [List.findSome?_append, found, Option.some_or]

theorem Judges.of_same {walk : Walk} (h : Judges mentions walk)
    (same : others.findSome? misuse? = mentions.findSome? misuse?) : Judges others walk :=
  fun d => (h d).imp (fun _ _ none => same.trans none) fun _ _ found => same.trans found

theorem Judges.of_legal {walk : Walk} (legal : Legal x) (h : Judges mentions walk) :
    Judges (x :: mentions) walk := by
  intro d
  rw [List.findSome?_cons, (misuse?_eq_none_iff x).mpr legal]
  exact h d

theorem Judges.of_params {walk : Walk} {params : List Token} (h : Judges mentions walk) :
    Judges (paramsMentions setting params ++ mentions) walk := by
  induction params with
  | nil => exact h
  | cons p params ih => exact ih.of_legal (legal_binder setting p.lexeme)

theorem judges_this (keyword : Occurrence) :
    Judges [(setting, .this keyword)] (walkExpr setting.enclosing scopes (.this keyword)) := by
  cases setting with
  | outside => exact judges_throw rfl
  | method decl depth =>
      have legal : Legal (.method decl depth, .this keyword) := ⟨decl, depth, rfl⟩
      cases sub : decl.superclass.isSome with
      | false =>
          rw [Setting.enclosing_base sub]
          exact judges_note legal "this" keyword
      | true =>
          rw [Setting.enclosing_sub sub]
          exact judges_note legal "this" keyword

theorem judges_super (keyword : Occurrence) (method : Token) :
    Judges [(setting, .super keyword)]
      (walkExpr setting.enclosing scopes (.super keyword method)) := by
  cases setting with
  | outside => exact judges_throw rfl
  | method decl depth =>
      cases sub : decl.superclass.isSome with
      | false =>
          rw [Setting.enclosing_base sub]
          exact judges_throw (by simp [misuse?, sub])
      | true =>
          rw [Setting.enclosing_sub sub]
          have legal : Legal (.method decl depth, .super keyword) := ⟨decl, depth, rfl, sub⟩
          exact judges_note legal "super" keyword

mutual

theorem judges_expr : (e : Expr) →
    Judges (exprMentions setting e) (walkExpr setting.enclosing scopes e)
  | .literal _ _ => judges_pure
  | .grouping inner | .unary _ inner | .get inner _ => judges_expr inner
  | .var name => judges_note (legal_var setting name) _ name
  | .assign name value => by
      -- The value is walked over before the name, which is no misuse in any order.
      have walked : Judges (exprMentions setting value ++ [(setting, .var name)])
          (walkExpr setting.enclosing scopes (.assign name value)) :=
        (judges_expr value).then (judges_note (legal_var setting name) _ name)
      apply walked.of_same
      have none := (misuse?_eq_none_iff _).mpr (legal_var setting name)
      simp only [exprMentions, List.findSome?_cons, List.findSome?_append, none,
        List.findSome?_nil, Option.or_none]
  | .logical left _ right | .binary left _ right | .set right _ left =>
      (judges_expr left).then (judges_expr right)
  | .call callee _ arguments => (judges_expr callee).then (judges_exprs arguments)
  | .this keyword => judges_this keyword
  | .super keyword method => judges_super keyword method

theorem judges_exprs : (es : List Expr) →
    Judges (exprsMentions setting es) (walkExprs setting.enclosing scopes es)
  | [] => judges_pure
  | e :: es => (judges_expr e).then (judges_exprs es)

end

theorem judges_optional (e : Option Expr) :
    Judges (optionalMentions setting e) (walkOptional setting.enclosing scopes e) := by
  cases e with
  | none => exact judges_pure
  | some e => exact judges_expr e

mutual

theorem judges_stmt : {setting : Setting} → {scopes : Scopes} → (s : Stmt) →
    Judges (stmtMentions setting s) (walkStmt setting.enclosing scopes s)
  | _, _, .expression e | _, _, .print e => judges_expr e
  | _, _, .varDecl _ e => (judges_optional e).of_legal (legal_binder _ _)
  | _, _, .return _ e => judges_optional e
  | setting, _, .block body _ => by
      rw [walkStmt, ← Setting.enclosing_inner]
      exact judges_stmts body
  | _, _, .branch condition thenBranch elseBranch => by
      rw [stmtMentions, List.append_assoc]
      exact (judges_expr condition).then
        ((judges_stmt thenBranch).then (judges_optionalStmt elseBranch))
  | _, _, .loop condition body increment => by
      rw [stmtMentions, List.append_assoc]
      exact (judges_expr condition).then ((judges_stmt body).then (judges_optional increment))
  | _, _, .funDecl decl => (judges_function decl).of_legal (legal_binder _ _)
  | _, _, .classDecl decl => judges_class decl
  | _, _, .break _ | _, _, .continue _ => judges_pure

theorem judges_stmts : {setting : Setting} → {scopes : Scopes} → (ss : List Stmt) →
    Judges (stmtsMentions setting ss) (walkStmts setting.enclosing scopes ss)
  | _, _, [] => judges_pure
  | _, _, s :: ss => (judges_stmt s).then (judges_stmts ss)

theorem judges_optionalStmt : {setting : Setting} → {scopes : Scopes} → (s : Option Stmt) →
    Judges (optionalStmtMentions setting s) (walkOptionalStmt setting.enclosing scopes s)
  | _, _, none => judges_pure
  | _, _, some s => judges_stmt s

theorem judges_function : {setting : Setting} → {scopes : Scopes} → (decl : FunctionDecl Stmt) →
    Judges (functionMentions setting decl) (walkFunction setting.enclosing scopes decl)
  | setting, _, ⟨_, _, body⟩ => by
      rw [walkFunction, ← Setting.enclosing_inner]
      exact (judges_stmts body).of_params

theorem judges_methods : (setting : Setting) → {scopes : Scopes} →
    (ms : List (FunctionDecl Stmt)) →
    Judges (methodsMentions setting ms) (walkMethods setting.enclosing scopes ms)
  | _, _, [] => judges_pure
  | setting, _, m :: ms => (judges_function m).then (judges_methods setting ms)

theorem judges_class : {setting : Setting} → {scopes : Scopes} → (decl : ClassDecl Stmt) →
    Judges (classMentions setting decl) (walkClass scopes decl)
  | setting, _, ⟨name, none, methods⟩ =>
      have walked := judges_methods (.method ⟨name, none, methods⟩ 0) methods
      walked.of_legal (legal_binder setting name.lexeme)
  | setting, _, ⟨name, some parent, methods⟩ =>
      have walked := judges_methods (.method ⟨name, some parent, methods⟩ 0) methods
      ((judges_note (legal_var setting parent) _ parent).then walked).of_legal
        (legal_binder setting name.lexeme)

end

theorem judges_program (program : List Stmt) :
    Judges (stmtsMentions .outside program) (walkProgram program) := judges_stmts program

end ClassScript.Binding
