import ClassScript.Proofs.Form.Trees
import ClassScript.Proofs.Grammar.Nodes
import ClassScript.Proofs.Grammar.Unlined

namespace ClassScript

open Form

/-! ### The reader -/

def spelled? (text : String) : Option Token :=
  match lex text with
  | .ok (t :: _) => some t.unlined
  | _ => none

namespace Form

def wordExpr? (t : Token) : Option Expr :=
  match t.kind with
  | .number => t.literal.map (.literal · 0)
  | .kwTrue => some (.literal (.bool true) 0)
  | .kwFalse => some (.literal (.bool false) 0)
  | .kwNil => some (.literal .nil 0)
  | .kwThis => some (.this ⟨0, t⟩)
  | .identifier => some (.var ⟨0, t⟩)
  | _ => none

/-- The node with this head and these parts. What is assigned to is read as an expression first. -/
@[simp] def node? (head : Token) (parts : List Expr) : Option Expr :=
  match head.kind, parts with
  | .identifier, first :: rest =>
    if head.lexeme = "group" then some (.grouping first)
    else some (.call first ⟨.rightParen, ")", none, 0⟩ rest)
  | .equal, [.var name, value] => some (.assign name value)
  | .equal, [.get object name, value] => some (.set object name value)
  | .dot, [object, .var name] => some (.get object name.token)
  | .kwSuper, [.var method] => some (.super ⟨0, head⟩ method.token)
  | .kwAnd, [left, right] | .kwOr, [left, right] => some (.logical left head right)
  | _, [operand] => some (.unary head operand)
  | _, [left, right] => some (.binary left head right)
  | _, _ => none

mutual

@[simp] def expr? : Form → Option Expr
  | word text => do wordExpr? (← spelled? text)
  | list (word head :: parts) => do node? (← spelled? head) (← exprs? parts)
  | list _ => none

@[simp] def exprs? : List Form → Option (List Expr)
  | [] => some []
  | f :: fs => return (← f.expr?) :: (← exprs? fs)

end

@[simp] def optional? : List Form → Option (Option Expr)
  | [] => some none
  | [e] => return some (← e.expr?)
  | _ => none

@[simp] def name? : Form → Option Token
  | word text => spelled? text
  | list _ => none

mutual

@[simp] def stmt? : Form → Option Stmt
  | list [word ";", e] => return .expression (← e.expr?)
  | list [word "print", e] => return .print (← e.expr?)
  | list (word "var" :: name :: initializer) =>
    return .varDecl (← name.name?) (← optional? initializer)
  | list (word "block" :: body) => return .block (← stmts? body) 0
  | list [word "if", condition, thenBranch] =>
    return .branch (← condition.expr?) (← thenBranch.stmt?) none
  | list [word "if", condition, thenBranch, elseBranch] =>
    return .branch (← condition.expr?) (← thenBranch.stmt?) (some (← elseBranch.stmt?))
  | list (word "while" :: condition :: body :: increment) =>
    return .loop (← condition.expr?) (← body.stmt?) (← optional? increment)
  | list (word "fun" :: name :: list params :: body) =>
    return .funDecl ⟨← name.name?, ← params.mapM name?, ← stmts? body⟩
  | list (word "class" :: name :: word "<" :: parent :: methods) =>
    return .classDecl ⟨← name.name?, some ⟨0, ← parent.name?⟩, ← methods? methods⟩
  | list (word "class" :: name :: methods) =>
    return .classDecl ⟨← name.name?, none, ← methods? methods⟩
  | list (word "return" :: value) => return .return (← spelled? "return") (← optional? value)
  | list [word "break"] => return .break (← spelled? "break")
  | list [word "continue"] => return .continue (← spelled? "continue")
  | _ => none

@[simp] def stmts? : List Form → Option (List Stmt)
  | [] => some []
  | f :: fs => return (← f.stmt?) :: (← stmts? fs)

@[simp] def methods? : List Form → Option (List (FunctionDecl Stmt))
  | [] => some []
  | list (word "method" :: name :: list params :: body) :: fs =>
    return ⟨← name.name?, ← params.mapM name?, ← stmts? body⟩ :: (← methods? fs)
  | _ => none

end

end Form

/-! ### Words -/

namespace Form

structure Spells (text : String) (t : Token) : Prop where
  isWord : IsWord text
  scanned : spelled? text = some t

def fixedWords : List (String × TokenKind) :=
  [("group", .identifier), ("call", .identifier), ("=", .equal), (".", .dot), ("this", .kwThis),
    ("super", .kwSuper), ("nil", .kwNil), ("true", .kwTrue), ("false", .kwFalse),
    (";", .semicolon), ("print", .kwPrint), ("var", .kwVar), ("block", .identifier),
    ("if", .kwIf), ("while", .kwWhile), ("fun", .kwFun), ("class", .kwClass), ("<", .less),
    ("method", .identifier), ("return", .kwReturn), ("break", .kwBreak),
    ("continue", .kwContinue)]

theorem spells_fixed {text : String} (kind : TokenKind) (mem : (text, kind) ∈ fixedWords) :
    Spells text ⟨kind, text, none, 0⟩ := by
  have plain : ∀ entry ∈ fixedWords, entry.1.toList ≠ [] ∧ entry.1.toList.all inWord = true := by
    decide
  obtain ⟨some, only⟩ := plain _ mem
  refine ⟨⟨some, List.all_eq_true.mp only⟩, ?_⟩
  fin_cases mem <;> cbv

end Form

abbrev Token.Legible (t : Token) : Prop := Spells t.lexeme t.unlined

structure Token.IsName (t : Token) : Prop where
  legible : t.Legible
  kind : t.kind = .identifier

def Token.Fixed (kind : TokenKind) (text : String) (t : Token) : Prop :=
  t.unlined = ⟨kind, text, none, 0⟩

namespace Form

structure Reads (f : Form) (e : Expr) : Prop where
  readable : f.Readable
  read : f.expr? = some e

structure AllRead (fs : List Form) (es : List Expr) : Prop where
  readable : ∀ f ∈ fs, f.Readable
  read : exprs? fs = some es

variable {f : Form} {fs : List Form} {e : Expr} {es : List Expr} {t : Token} {text : String}

theorem allRead_nil : AllRead [] [] := ⟨nofun, rfl⟩

theorem Readable.cons (h : f.Readable) (hs : ∀ f ∈ fs, f.Readable) : ∀ g ∈ f :: fs, g.Readable :=
  List.forall_mem_cons.mpr ⟨h, hs⟩

theorem Reads.cons (h : f.Reads e) (hs : AllRead fs es) : AllRead (f :: fs) (e :: es) where
  readable := h.readable.cons hs.readable
  read := by
    rw [exprs?, h.read, hs.read]
    rfl

theorem Spells.readable_list (head : Spells text t) (hs : ∀ f ∈ fs, f.Readable) :
    (list (word text :: fs)).Readable := .list ((Readable.word head.isWord).cons hs)

theorem Spells.reads_list (head : Spells text t) (parts : AllRead fs es)
    (node : node? t es = some e) : (list (word text :: fs)).Reads e where
  readable := head.readable_list parts.readable
  read := by
    rw [expr?, head.scanned, parts.read]
    exact node

theorem Spells.reads_word (h : Spells text t) (read : wordExpr? t = some e) :
    (word text).Reads e where
  readable := .word h.isWord
  read := by
    rw [expr?, h.scanned]
    exact read

end Form

theorem Token.IsName.reads {name : Token} (h : name.IsName) :
    (word name.lexeme).Reads (.var ⟨0, name.unlined⟩) := by
  apply h.legible.reads_word
  have kind : name.unlined.kind = .identifier := h.kind
  rw [wordExpr?, kind]

/-! ### Expressions -/

abbrev Expr.ReadBack (e : Expr) : Prop := e.form.Reads e.unlined

variable {e left right callee object value : Expr} {es : List Expr}
  {operator name keyword method paren : Token} {line : Nat}

theorem node_logical (kind : operator.kind ∈ logicalOperators) :
    node? operator [left, right] = some (.logical left operator right) := by
  simp only [logicalOperators, List.mem_cons, List.not_mem_nil, or_false] at kind
  unfold node?
  rcases kind with kind | kind <;> rw [kind]

theorem node_binary (kind : operator.kind ∈ binaryOperators) :
    node? operator [left, right] = some (.binary left operator right) := by
  simp only [binaryOperators, List.mem_cons, List.not_mem_nil, or_false] at kind
  unfold node?
  rcases kind with kind | kind | kind | kind | kind | kind | kind | kind | kind | kind <;> rw [kind]

theorem node_unary (kind : operator.kind ∈ unaryOperators) :
    node? operator [e] = some (.unary operator e) := by
  simp only [unaryOperators, List.mem_cons, List.not_mem_nil, or_false] at kind
  unfold node?
  rcases kind with kind | kind <;> rw [kind]

theorem allRead_exprForms (h : ∀ e ∈ es, e.ReadBack) :
    AllRead (exprForms es) (exprsUnlined es) := by
  induction es with
  | nil => exact allRead_nil
  | cons e es ih =>
      rw [List.forall_mem_cons] at h
      exact h.1.cons (ih h.2)

theorem readBack_nil : (Expr.literal .nil line).ReadBack :=
  (spells_fixed .kwNil (by decide)).reads_word rfl

theorem readBack_bool (b : Bool) : (Expr.literal (.bool b) line).ReadBack := by
  cases b with
  | true => exact (spells_fixed .kwTrue (by decide)).reads_word rfl
  | false => exact (spells_fixed .kwFalse (by decide)).reads_word rfl

theorem readBack_grouping (h : e.ReadBack) : (Expr.grouping e).ReadBack := by
  apply (spells_fixed .identifier (by decide)).reads_list (h.cons allRead_nil)
  simp only [node?, if_true, Expr.unlined]

theorem readBack_var (h : name.IsName) : (Expr.var ⟨0, name⟩).ReadBack := h.reads

theorem readBack_assign (hn : name.IsName) (hv : value.ReadBack) :
    (Expr.assign ⟨0, name⟩ value).ReadBack :=
  (spells_fixed .equal (by decide)).reads_list
    (hn.reads.cons (hv.cons allRead_nil)) rfl

theorem readBack_logical (ho : operator.Legible) (kind : operator.kind ∈ logicalOperators)
    (hl : left.ReadBack) (hr : right.ReadBack) : (Expr.logical left operator right).ReadBack :=
  ho.reads_list (hl.cons (hr.cons allRead_nil)) (node_logical kind)

theorem readBack_binary (ho : operator.Legible) (kind : operator.kind ∈ binaryOperators)
    (hl : left.ReadBack) (hr : right.ReadBack) : (Expr.binary left operator right).ReadBack :=
  ho.reads_list (hl.cons (hr.cons allRead_nil)) (node_binary kind)

theorem readBack_unary (ho : operator.Legible) (kind : operator.kind ∈ unaryOperators)
    (h : e.ReadBack) : (Expr.unary operator e).ReadBack :=
  ho.reads_list (h.cons allRead_nil) (node_unary kind)

theorem readBack_call (hc : callee.ReadBack) (hp : paren.Fixed .rightParen ")")
    (hs : ∀ e ∈ es, e.ReadBack) : (Expr.call callee paren es).ReadBack := by
  apply (spells_fixed .identifier (by decide)).reads_list
    (hc.cons (allRead_exprForms hs))
  rw [Expr.unlined, hp]
  simp [node?]

theorem readBack_get (ho : object.ReadBack) (hn : name.IsName) : (Expr.get object name).ReadBack :=
  (spells_fixed .dot (by decide)).reads_list (ho.cons (hn.reads.cons allRead_nil)) rfl

theorem readBack_set (ho : object.ReadBack) (hn : name.IsName) (hv : value.ReadBack) :
    (Expr.set object name value).ReadBack :=
  (spells_fixed .equal (by decide)).reads_list
    ((readBack_get ho hn).cons (hv.cons allRead_nil)) rfl

theorem readBack_this (hk : keyword.Fixed .kwThis "this") : (Expr.this ⟨0, keyword⟩).ReadBack := by
  apply (spells_fixed .kwThis (by decide)).reads_word
  rw [Expr.unlined, Occurrence.unlined, hk]
  rfl

theorem readBack_super (hk : keyword.Fixed .kwSuper "super") (hm : method.IsName) :
    (Expr.super ⟨0, keyword⟩ method).ReadBack := by
  apply (spells_fixed .kwSuper (by decide)).reads_list (hm.reads.cons allRead_nil)
  rw [Expr.unlined, Occurrence.unlined, hk]
  rfl

/-! ### Statements -/

structure Stmt.ReadBack (s : Stmt) : Prop where
  readable : s.form.Readable
  read : s.form.stmt? = some s.unlined

structure FunctionDecl.ReadBack (decl : FunctionDecl Stmt) : Prop where
  name : decl.name.IsName
  params : ∀ p ∈ decl.params, p.IsName
  body : ∀ s ∈ decl.body, s.ReadBack

variable {s thenBranch elseBranch body : Stmt} {ss : List Stmt} {condition : Expr}
  {initializer increment result : Option Expr} {parent : Token} {decl : FunctionDecl Stmt}
  {methods : List (FunctionDecl Stmt)} {params : List Token}

theorem readable_optionalForms {e : Option Expr} (h : ∀ e' ∈ e, e'.ReadBack) :
    ∀ f ∈ optionalForms e, f.Readable := by
  cases e with
  | none => exact nofun
  | some e => exact (h e rfl).readable.cons nofun

theorem optional_forms {e : Option Expr} (h : ∀ e' ∈ e, e'.ReadBack) :
    optional? (optionalForms e) = some (e.map Expr.unlined) := by
  cases e with
  | none => rfl
  | some e =>
      have read := (h e rfl).read
      simp only [optionalForms, Option.map_some, Option.toList_some, optional?, read]
      rfl

theorem readable_stmtForms (h : ∀ s ∈ ss, s.ReadBack) : ∀ f ∈ stmtForms ss, f.Readable := by
  induction ss with
  | nil => exact nofun
  | cons s ss ih =>
      rw [List.forall_mem_cons] at h
      exact h.1.readable.cons (ih h.2)

theorem stmts_forms (h : ∀ s ∈ ss, s.ReadBack) :
    stmts? (stmtForms ss) = some (stmtsUnlined ss) := by
  induction ss with
  | nil => rfl
  | cons s ss ih =>
      rw [List.forall_mem_cons] at h
      rw [stmtForms, stmts?, h.1.read, ih h.2]
      rfl

theorem Token.IsName.readable (h : name.IsName) : (word name.lexeme).Readable := h.reads.readable

theorem Token.IsName.read (h : name.IsName) : (word name.lexeme).name? = some name.unlined :=
  h.legible.scanned

theorem readBack_expression (h : e.ReadBack) : (Stmt.expression e).ReadBack where
  readable := (spells_fixed .semicolon (by decide)).readable_list (h.readable.cons nofun)
  read := by
    rw [Stmt.form, stmt?, h.read]
    rfl

theorem readBack_print (h : e.ReadBack) : (Stmt.print e).ReadBack where
  readable := (spells_fixed .kwPrint (by decide)).readable_list (h.readable.cons nofun)
  read := by
    rw [Stmt.form, stmt?, h.read]
    rfl

theorem readBack_varDecl (hn : name.IsName) (hi : ∀ e ∈ initializer, e.ReadBack) :
    (Stmt.varDecl name initializer).ReadBack where
  readable := (spells_fixed .kwVar (by decide)).readable_list
    (hn.readable.cons (readable_optionalForms hi))
  read := by
    rw [Stmt.form, stmt?, hn.read, optional_forms hi]
    rfl

theorem readBack_block (h : ∀ s ∈ ss, s.ReadBack) : (Stmt.block ss line).ReadBack where
  readable := (spells_fixed .identifier (by decide)).readable_list (readable_stmtForms h)
  read := by
    rw [Stmt.form, stmt?, stmts_forms h]
    rfl

theorem readBack_if (hc : condition.ReadBack) (ht : thenBranch.ReadBack) :
    (Stmt.branch condition thenBranch none).ReadBack where
  readable := (spells_fixed .kwIf (by decide)).readable_list
    (hc.readable.cons (ht.readable.cons nofun))
  read := by
    rw [Stmt.form, stmt?, hc.read, ht.read]
    rfl

theorem readBack_ifElse (hc : condition.ReadBack) (ht : thenBranch.ReadBack)
    (he : elseBranch.ReadBack) : (Stmt.branch condition thenBranch (some elseBranch)).ReadBack where
  readable := (spells_fixed .kwIf (by decide)).readable_list
    (hc.readable.cons (ht.readable.cons (he.readable.cons nofun)))
  read := by
    rw [Stmt.form, stmt?, hc.read, ht.read, he.read]
    rfl

theorem readBack_loop (hc : condition.ReadBack) (hb : body.ReadBack)
    (hi : ∀ e ∈ increment, e.ReadBack) : (Stmt.loop condition body increment).ReadBack where
  readable := (spells_fixed .kwWhile (by decide)).readable_list
    (hc.readable.cons (hb.readable.cons (readable_optionalForms hi)))
  read := by
    rw [Stmt.form, stmt?, hc.read, hb.read, optional_forms hi]
    rfl

theorem readBack_return (hk : keyword.Fixed .kwReturn "return") (hr : ∀ e ∈ result, e.ReadBack) :
    (Stmt.return keyword result).ReadBack where
  readable := (spells_fixed .kwReturn (by decide)).readable_list (readable_optionalForms hr)
  read := by
    rw [Stmt.form, stmt?, (spells_fixed .kwReturn (by decide)).scanned, optional_forms hr,
      Stmt.unlined, hk]
    rfl

theorem readBack_break (hk : keyword.Fixed .kwBreak "break") :
    (Stmt.break keyword).ReadBack where
  readable := (spells_fixed .kwBreak (by decide)).readable_list nofun
  read := by
    rw [Stmt.form, stmt?, (spells_fixed .kwBreak (by decide)).scanned, Stmt.unlined, hk]
    rfl

theorem readBack_continue (hk : keyword.Fixed .kwContinue "continue") :
    (Stmt.continue keyword).ReadBack where
  readable := (spells_fixed .kwContinue (by decide)).readable_list nofun
  read := by
    rw [Stmt.form, stmt?, (spells_fixed .kwContinue (by decide)).scanned, Stmt.unlined, hk]
    rfl

/-! ### Functions and classes -/

theorem readable_paramsForm (h : ∀ p ∈ params, p.IsName) : (paramsForm params).Readable := by
  refine .list fun f mem => ?_
  obtain ⟨p, inside, rfl⟩ := List.mem_map.mp mem
  exact (h p inside).readable

theorem names_params (h : ∀ p ∈ params, p.IsName) :
    (params.map fun p => word p.lexeme).mapM name? = some (params.map Token.unlined) := by
  induction params with
  | nil => rfl
  | cons p params ih =>
      rw [List.forall_mem_cons] at h
      rw [List.map_cons, List.mapM_cons, h.1.read, ih h.2]
      rfl

theorem FunctionDecl.ReadBack.readable {head : String} {t : Token} (h : decl.ReadBack)
    (spells : Spells head t) : (functionForm head decl).Readable := by
  cases decl with
  | mk name params body =>
      exact spells.readable_list (h.name.readable.cons
        ((readable_paramsForm h.params).cons (readable_stmtForms h.body)))

theorem readBack_funDecl (h : decl.ReadBack) : (Stmt.funDecl decl).ReadBack where
  readable := h.readable (spells_fixed .kwFun (by decide))
  read := by
    cases decl with
    | mk name params body =>
        rw [Stmt.form, functionForm, paramsForm, stmt?, h.name.read, names_params h.params,
          stmts_forms h.body]
        rfl

theorem readable_methodForms (h : ∀ m ∈ methods, m.ReadBack) :
    ∀ f ∈ methodForms methods, f.Readable := by
  induction methods with
  | nil => exact nofun
  | cons m ms ih =>
      rw [List.forall_mem_cons] at h
      exact (h.1.readable (spells_fixed .identifier (by decide))).cons (ih h.2)

theorem methods_forms (h : ∀ m ∈ methods, m.ReadBack) :
    methods? (methodForms methods) = some (methodsUnlined methods) := by
  induction methods with
  | nil => rfl
  | cons m ms ih =>
      rw [List.forall_mem_cons] at h
      cases m with
      | mk name params body =>
          rw [methodForms, functionForm, paramsForm, methods?, h.1.name.read,
            names_params h.1.params, stmts_forms h.1.body, ih h.2]
          rfl

theorem readBack_class (hn : name.IsName) (hm : ∀ m ∈ methods, m.ReadBack) :
    (Stmt.classDecl ⟨name, none, methods⟩).ReadBack where
  readable := (spells_fixed .kwClass (by decide)).readable_list
    (hn.readable.cons (readable_methodForms hm))
  read := by
    -- A method is no word, so that the first one is not taken for the mark of a superclass.
    have plain : ∀ parent fs, methodForms methods ≠ word "<" :: parent :: fs := by
      cases methods with
      | nil => exact nofun
      | cons m ms =>
          cases m
          exact nofun
    rw [Stmt.form, stmt?, hn.read, methods_forms hm]
    · rfl
    · exact plain

theorem readBack_subclass (hn : name.IsName) (hp : parent.IsName)
    (hm : ∀ m ∈ methods, m.ReadBack) :
    (Stmt.classDecl ⟨name, some ⟨0, parent⟩, methods⟩).ReadBack where
  readable := (spells_fixed .kwClass (by decide)).readable_list (hn.readable.cons
    ((Readable.word (spells_fixed .less (by decide)).isWord).cons
      (hp.readable.cons (readable_methodForms hm))))
  read := by
    rw [Stmt.form, stmt?, hn.read, hp.read, methods_forms hm]
    rfl

end ClassScript
