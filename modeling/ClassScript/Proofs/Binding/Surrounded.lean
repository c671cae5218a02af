import ClassScript.Proofs.Binding.Visits

namespace ClassScript.Binding

variable {scopes : Scopes}

def surround (outer : Scopes) (visit : Scopes × Expr) : Scopes × Expr := (visit.1 ++ outer, visit.2)

theorem declare_append (ne : scopes ≠ []) (name : String) (outer : Scopes) :
    declare name (scopes ++ outer) = declare name scopes ++ outer := by
  cases scopes with
  | nil => exact absurd rfl ne
  | cons names rest => rfl

theorem declare_ne_nil (ne : scopes ≠ []) (name : String) : declare name scopes ≠ [] := by
  cases scopes with
  | nil => exact absurd rfl ne
  | cons names rest => exact List.cons_ne_nil _ _

theorem scopesAfter_append (ne : scopes ≠ []) (s : Stmt) (outer : Scopes) :
    scopesAfter (scopes ++ outer) s = scopesAfter scopes s ++ outer := by
  cases s with
  | varDecl name _ => exact declare_append ne _ _
  | funDecl decl => exact declare_append ne _ _
  | classDecl decl => exact declare_append ne _ _
  | _ => rfl

theorem scopesAfter_ne_nil (ne : scopes ≠ []) (s : Stmt) : scopesAfter scopes s ≠ [] := by
  cases s with
  | varDecl name _ => exact declare_ne_nil ne _
  | funDecl decl => exact declare_ne_nil ne _
  | classDecl decl => exact declare_ne_nil ne _
  | _ => exact ne

mutual

theorem surround_expr (scopes outer : Scopes) : (e : Expr) →
    exprVisits (scopes ++ outer) e = (exprVisits scopes e).map (surround outer)
  | .literal _ _ | .var _ | .this _ | .super _ _ => rfl
  | .grouping inner | .assign _ inner | .unary _ inner | .get inner _ =>
      congrArg (_ :: ·) (surround_expr scopes outer inner)
  | .logical left _ right | .binary left _ right | .set right _ left => by
      simp only [exprVisits, List.map_cons, List.map_append, surround_expr scopes outer left,
        surround_expr scopes outer right, surround]
  | .call callee _ arguments => by
      simp only [exprVisits, List.map_cons, List.map_append, surround_expr scopes outer callee,
        surround_exprs scopes outer arguments, surround]

theorem surround_exprs (scopes outer : Scopes) : (es : List Expr) →
    exprsVisits (scopes ++ outer) es = (exprsVisits scopes es).map (surround outer)
  | [] => rfl
  | e :: es => by
      simp only [exprsVisits, List.map_append, surround_expr scopes outer e,
        surround_exprs scopes outer es]

end

theorem surround_optional (scopes outer : Scopes) (e : Option Expr) :
    optionalVisits (scopes ++ outer) e = (optionalVisits scopes e).map (surround outer) := by
  cases e with
  | none => rfl
  | some e => exact surround_expr scopes outer e

mutual

theorem surround_stmt (outer : Scopes) : {scopes : Scopes} → scopes ≠ [] → (s : Stmt) →
    stmtVisits (scopes ++ outer) s = (stmtVisits scopes s).map (surround outer)
  | scopes, _, .expression e | scopes, _, .print e => surround_expr scopes outer e
  | scopes, _, .varDecl _ e | scopes, _, .return _ e => surround_optional scopes outer e
  | scopes, _, .block body _ => surround_stmts outer (List.cons_ne_nil [] scopes) body
  | scopes, ne, .branch condition thenBranch elseBranch => by
      simp only [stmtVisits, List.map_append, surround_expr scopes outer condition,
        surround_stmt outer ne thenBranch, surround_optionalStmt outer ne elseBranch]
  | scopes, ne, .loop condition body increment => by
      simp only [stmtVisits, List.map_append, surround_expr scopes outer condition,
        surround_stmt outer ne body, surround_optional scopes outer increment]
  | _, ne, .funDecl decl => by
      simp only [stmtVisits, declare_append ne,
        surround_function outer (declare_ne_nil ne decl.name.lexeme) decl]
  | _, ne, .classDecl decl => surround_class outer ne decl
  | _, _, .break _ | _, _, .continue _ => rfl

theorem surround_stmts (outer : Scopes) : {scopes : Scopes} → scopes ≠ [] → (ss : List Stmt) →
    stmtsVisits (scopes ++ outer) ss = (stmtsVisits scopes ss).map (surround outer)
  | _, _, [] => rfl
  | _, ne, s :: ss => by
      simp only [stmtsVisits, List.map_append, surround_stmt outer ne s, scopesAfter_append ne,
        surround_stmts outer (scopesAfter_ne_nil ne s) ss]

theorem surround_optionalStmt (outer : Scopes) : {scopes : Scopes} → scopes ≠ [] →
    (s : Option Stmt) →
    optionalStmtVisits (scopes ++ outer) s = (optionalStmtVisits scopes s).map (surround outer)
  | _, _, none => rfl
  | _, ne, some s => surround_stmt outer ne s

theorem surround_function (outer : Scopes) : {scopes : Scopes} → scopes ≠ [] →
    (decl : FunctionDecl Stmt) →
    functionVisits (scopes ++ outer) decl = (functionVisits scopes decl).map (surround outer)
  | _, _, ⟨_, _, body⟩ => surround_stmts outer (List.cons_ne_nil _ _) body

theorem surround_methods (outer : Scopes) : {scopes : Scopes} → scopes ≠ [] →
    (ms : List (FunctionDecl Stmt)) →
    methodsVisits (scopes ++ outer) ms = (methodsVisits scopes ms).map (surround outer)
  | _, _, [] => rfl
  | _, ne, m :: ms => by
      simp only [methodsVisits, List.map_append, surround_function outer ne m,
        surround_methods outer ne ms]

theorem surround_class (outer : Scopes) : {scopes : Scopes} → scopes ≠ [] →
    (decl : ClassDecl Stmt) →
    classVisits (scopes ++ outer) decl = (classVisits scopes decl).map (surround outer)
  | scopes, ne, ⟨name, none, methods⟩ => by
      have inner := surround_methods outer (List.cons_ne_nil ["this"] (declare name.lexeme scopes))
        methods
      simp only [classVisits, declare_append ne]
      exact inner
  | scopes, ne, ⟨name, some parent, methods⟩ => by
      have inner := surround_methods outer
        (List.cons_ne_nil ["this"] (["super"] :: declare name.lexeme scopes)) methods
      simp only [classVisits, declare_append ne, List.map_cons]
      exact congrArg (_ :: ·) inner

end

theorem function_surround (outer : Scopes) (decl : FunctionDecl Stmt) :
    functionVisits outer decl = (functionVisits [] decl).map (surround outer) := by
  rw [functionVisits_eq, functionVisits_eq]
  exact surround_stmts outer (List.cons_ne_nil _ []) decl.body

end ClassScript.Binding
