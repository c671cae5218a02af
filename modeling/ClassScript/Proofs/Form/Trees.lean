import ClassScript.Proofs.Form.Texts
import ClassScript.Proofs.Grammar.Unnumbered

namespace ClassScript

open Form

mutual

def Expr.form : Expr → Form
  | .literal value _ => word value.display
  | .grouping inner => list [word "group", inner.form]
  | .var name => word name.token.lexeme
  | .assign name value => list [word "=", word name.token.lexeme, value.form]
  | .logical left operator right | .binary left operator right =>
    list [word operator.lexeme, left.form, right.form]
  | .unary operator operand => list [word operator.lexeme, operand.form]
  | .call callee _ arguments => list (word "call" :: callee.form :: exprForms arguments)
  | .get object name => list [word ".", object.form, word name.lexeme]
  | .set object name value =>
    list [word "=", list [word ".", object.form, word name.lexeme], value.form]
  | .this _ => word "this"
  | .super _ method => list [word "super", word method.lexeme]

def exprForms : List Expr → List Form
  | [] => []
  | e :: es => e.form :: exprForms es

end

def optionalForms (e : Option Expr) : List Form := (e.map Expr.form).toList

def paramsForm (params : List Token) : Form := list (params.map fun p => word p.lexeme)

mutual

def Stmt.form : Stmt → Form
  | .expression e => list [word ";", e.form]
  | .print e => list [word "print", e.form]
  | .varDecl name initializer => list (word "var" :: word name.lexeme :: optionalForms initializer)
  | .block body _ => list (word "block" :: stmtForms body)
  | .branch condition thenBranch none => list [word "if", condition.form, thenBranch.form]
  | .branch condition thenBranch (some elseBranch) =>
    list [word "if", condition.form, thenBranch.form, elseBranch.form]
  | .loop condition body increment =>
    list (word "while" :: condition.form :: body.form :: optionalForms increment)
  | .funDecl decl => functionForm "fun" decl
  | .classDecl ⟨name, none, methods⟩ =>
    list (word "class" :: word name.lexeme :: methodForms methods)
  | .classDecl ⟨name, some parent, methods⟩ =>
    list (word "class" :: word name.lexeme :: word "<" :: word parent.token.lexeme ::
      methodForms methods)
  | .return _ value => list (word "return" :: optionalForms value)
  | .break _ => list [word "break"]
  | .continue _ => list [word "continue"]

def stmtForms : List Stmt → List Form
  | [] => []
  | s :: ss => s.form :: stmtForms ss

def functionForm (head : String) : FunctionDecl Stmt → Form
  | ⟨name, params, body⟩ =>
    list (word head :: word name.lexeme :: paramsForm params :: stmtForms body)

def methodForms : List (FunctionDecl Stmt) → List Form
  | [] => []
  | m :: ms => functionForm "method" m :: methodForms ms

end

mutual

theorem text_form : (e : Expr) → e.form.text = e.render
  | .literal _ _ | .var _ | .this _ | .super _ _ => rfl
  | .grouping inner => by simp only [Expr.form, text, texts, text_form inner, Expr.render]
  | .assign _ value => by simp only [Expr.form, text, texts, text_form value, Expr.render]
  | .unary _ operand => by simp only [Expr.form, text, texts, text_form operand, Expr.render]
  | .get object _ => by simp only [Expr.form, text, texts, text_form object, Expr.render]
  | .logical left _ right | .binary left _ right => by
      simp only [Expr.form, text, texts, text_form left, text_form right, Expr.render]
  | .set object _ value => by
      simp only [Expr.form, text, texts, text_form object, text_form value, Expr.render]
  | .call callee _ arguments => by
      simp only [Expr.form, text, texts, text_form callee, texts_exprForms arguments, Expr.render]

theorem texts_exprForms : (es : List Expr) → texts (exprForms es) = renderExprs es
  | [] => rfl
  | e :: es => by simp only [exprForms, texts, text_form e, texts_exprForms es, renderExprs]

end

theorem texts_optionalForms (e : Option Expr) : texts (optionalForms e) = renderOptional e := by
  cases e with
  | none => rfl
  | some e => exact congrArg (fun text => [text]) (text_form e)

theorem text_paramsForm (params : List Token) :
    (paramsForm params).text = prefixForm (params.map Token.lexeme) := by
  have words : texts (params.map fun p => word p.lexeme) = params.map Token.lexeme := by
    induction params with
    | nil => rfl
    | cons p params ih => exact congrArg (p.lexeme :: ·) ih
  rw [paramsForm, text, words]

mutual

theorem text_stmtForm : (s : Stmt) → s.form.text = s.render
  | .expression e | .print e => by simp only [Stmt.form, text, texts, text_form e, Stmt.render]
  | .varDecl _ e | .return _ e => by
      simp only [Stmt.form, text, texts, texts_optionalForms e, Stmt.render]
  | .block body _ => by simp only [Stmt.form, text, texts, texts_stmtForms body, Stmt.render]
  | .branch condition thenBranch none => by
      simp only [Stmt.form, text, texts, text_form condition, text_stmtForm thenBranch, Stmt.render]
  | .branch condition thenBranch (some elseBranch) => by
      simp only [Stmt.form, text, texts, text_form condition, text_stmtForm thenBranch,
        text_stmtForm elseBranch, Stmt.render]
  | .loop condition body increment => by
      simp only [Stmt.form, text, texts, text_form condition, text_stmtForm body,
        texts_optionalForms increment, Stmt.render]
  | .funDecl decl => text_functionForm "fun" decl
  | .classDecl ⟨_, none, methods⟩ | .classDecl ⟨_, some _, methods⟩ => by
      simp only [Stmt.form, text, texts, texts_methodForms methods, Stmt.render, renderClass,
        List.nil_append, List.cons_append]
  | .break _ | .continue _ => rfl

theorem texts_stmtForms : (ss : List Stmt) → texts (stmtForms ss) = renderStmts ss
  | [] => rfl
  | s :: ss => by simp only [stmtForms, texts, text_stmtForm s, texts_stmtForms ss, renderStmts]

theorem text_functionForm (head : String) : (decl : FunctionDecl Stmt) →
    (functionForm head decl).text = renderFunction head decl
  | ⟨_, params, body⟩ => by
      simp only [functionForm, text, texts, text_paramsForm params, texts_stmtForms body,
        renderFunction]

theorem texts_methodForms : (ms : List (FunctionDecl Stmt)) →
    texts (methodForms ms) = renderMethods ms
  | [] => rfl
  | m :: ms => by
      simp only [methodForms, texts, text_functionForm "method" m, texts_methodForms ms,
        renderMethods]

end

mutual

theorem form_unnumbered : (e : Expr) → e.unnumbered.form = e.form
  | .literal _ _ | .var _ | .this _ | .super _ _ => rfl
  | .grouping inner => by simp only [Expr.unnumbered, Expr.form, form_unnumbered inner]
  | .assign _ value => by
      simp only [Expr.unnumbered, Expr.form, Occurrence.unnumbered, form_unnumbered value]
  | .unary _ operand => by simp only [Expr.unnumbered, Expr.form, form_unnumbered operand]
  | .get object _ => by simp only [Expr.unnumbered, Expr.form, form_unnumbered object]
  | .logical left _ right | .binary left _ right | .set left _ right => by
      simp only [Expr.unnumbered, Expr.form, form_unnumbered left, form_unnumbered right]
  | .call callee _ arguments => by
      simp only [Expr.unnumbered, Expr.form, form_unnumbered callee,
        exprForms_unnumbered arguments]

theorem exprForms_unnumbered : (es : List Expr) → exprForms (exprsUnnumbered es) = exprForms es
  | [] => rfl
  | e :: es => congrArg₂ List.cons (form_unnumbered e) (exprForms_unnumbered es)

end

theorem optionalForms_unnumbered (e : Option Expr) :
    optionalForms (e.map Expr.unnumbered) = optionalForms e := by
  cases e with
  | none => rfl
  | some e => exact congrArg (fun form => [form]) (form_unnumbered e)

mutual

theorem stmtForm_unnumbered : (s : Stmt) → s.unnumbered.form = s.form
  | .expression e | .print e => by simp only [Stmt.unnumbered, Stmt.form, form_unnumbered e]
  | .varDecl _ e | .return _ e => by
      simp only [Stmt.unnumbered, Stmt.form, optionalForms_unnumbered e]
  | .block body _ => by simp only [Stmt.unnumbered, Stmt.form, stmtForms_unnumbered body]
  | .branch condition thenBranch none => by
      simp only [Stmt.unnumbered, optionalStmtUnnumbered, Stmt.form, form_unnumbered condition,
        stmtForm_unnumbered thenBranch]
  | .branch condition thenBranch (some elseBranch) => by
      simp only [Stmt.unnumbered, optionalStmtUnnumbered, Stmt.form, form_unnumbered condition,
        stmtForm_unnumbered thenBranch, stmtForm_unnumbered elseBranch]
  | .loop condition body increment => by
      simp only [Stmt.unnumbered, Stmt.form, form_unnumbered condition, stmtForm_unnumbered body,
        optionalForms_unnumbered increment]
  | .funDecl decl => functionForm_unnumbered "fun" decl
  | .classDecl ⟨_, none, methods⟩ | .classDecl ⟨_, some _, methods⟩ => by
      simp only [Stmt.unnumbered, classUnnumbered, Option.map_none, Option.map_some, Stmt.form,
        Occurrence.unnumbered, methodForms_unnumbered methods]
  | .break _ | .continue _ => rfl

theorem stmtForms_unnumbered : (ss : List Stmt) → stmtForms (stmtsUnnumbered ss) = stmtForms ss
  | [] => rfl
  | s :: ss => congrArg₂ List.cons (stmtForm_unnumbered s) (stmtForms_unnumbered ss)

theorem functionForm_unnumbered (head : String) : (decl : FunctionDecl Stmt) →
    functionForm head (functionUnnumbered decl) = functionForm head decl
  | ⟨_, _, body⟩ => by simp only [functionUnnumbered, functionForm, stmtForms_unnumbered body]

theorem methodForms_unnumbered : (ms : List (FunctionDecl Stmt)) →
    methodForms (methodsUnnumbered ms) = methodForms ms
  | [] => rfl
  | m :: ms =>
      congrArg₂ List.cons (functionForm_unnumbered "method" m) (methodForms_unnumbered ms)

end

end ClassScript
