import ClassScript.Proofs.Binding.Mentions
import ClassScript.Proofs.Grammar.Exact

namespace ClassScript

def unaryOperators : List TokenKind := [.bang, .minus]

def binaryOperators : List TokenKind :=
  [.plus, .minus, .star, .slash, .greater, .greaterEqual, .less, .lessEqual, .equalEqual,
    .bangEqual]

def logicalOperators : List TokenKind := [.kwAnd, .kwOr]

variable {P : Token → Prop}

/-- The token of a node has a kind that the grammar allows there. Keywords satisfy `P`. -/
def Expr.Formed (P : Token → Prop) : Expr → Prop
  | .unary operator _ => operator.kind ∈ unaryOperators
  | .binary _ operator _ => operator.kind ∈ binaryOperators
  | .logical _ operator _ => operator.kind ∈ logicalOperators
  | .this keyword => P keyword.token ∧ keyword.token.kind = .kwThis
  | .super keyword _ => P keyword.token ∧ keyword.token.kind = .kwSuper
  | _ => True

theorem Expr.formed_unnumbered (e : Expr) : e.unnumbered.Formed P ↔ e.Formed P := by
  cases e <;> rfl

def Mention.Formed (P : Token → Prop) : Mention → Prop
  | .this keyword => P keyword.token ∧ keyword.token.kind = .kwThis
  | .super keyword => P keyword.token ∧ keyword.token.kind = .kwSuper
  | _ => True

namespace Binding

/-! ## Identities -/

def unnumberedVisit (visit : Scopes × Expr) : Scopes × Expr := (visit.1, visit.2.unnumbered)

mutual

theorem exprVisits_unnumbered (scopes : Scopes) : (e : Expr) →
    exprVisits scopes e.unnumbered = (exprVisits scopes e).map unnumberedVisit
  | .literal _ _ | .var _ | .this _ | .super _ _ => rfl
  | .grouping inner | .unary _ inner | .get inner _ | .assign _ inner =>
      congrArg (_ :: ·) (exprVisits_unnumbered scopes inner)
  | .logical left _ right | .binary left _ right | .set right _ left => by
      simp only [Expr.unnumbered, exprVisits, List.map_cons, List.map_append, unnumberedVisit,
        exprVisits_unnumbered scopes left, exprVisits_unnumbered scopes right]
  | .call callee _ arguments => by
      simp only [Expr.unnumbered, exprVisits, List.map_cons, List.map_append, unnumberedVisit,
        exprVisits_unnumbered scopes callee, exprsVisits_unnumbered scopes arguments]

theorem exprsVisits_unnumbered (scopes : Scopes) : (es : List Expr) →
    exprsVisits scopes (exprsUnnumbered es) = (exprsVisits scopes es).map unnumberedVisit
  | [] => rfl
  | e :: es => by
      simp only [exprsUnnumbered, exprsVisits, List.map_append, exprVisits_unnumbered scopes e,
        exprsVisits_unnumbered scopes es]

end

theorem optionalVisits_unnumbered (scopes : Scopes) (e : Option Expr) :
    optionalVisits scopes (e.map Expr.unnumbered) =
      (optionalVisits scopes e).map unnumberedVisit := by
  cases e with
  | none => rfl
  | some e => exact exprVisits_unnumbered scopes e

theorem scopesAfter_unnumbered (scopes : Scopes) (s : Stmt) :
    scopesAfter scopes s.unnumbered = scopesAfter scopes s := by
  rcases s with _ | _ | _ | _ | _ | _ | ⟨⟨⟩⟩ | ⟨⟨⟩⟩ | _ | _ | _ <;> rfl

mutual

theorem stmtVisits_unnumbered : (scopes : Scopes) → (s : Stmt) →
    stmtVisits scopes s.unnumbered = (stmtVisits scopes s).map unnumberedVisit
  | scopes, .expression e | scopes, .print e => exprVisits_unnumbered scopes e
  | scopes, .varDecl _ e => optionalVisits_unnumbered scopes e
  | scopes, .return _ e => optionalVisits_unnumbered scopes e
  | scopes, .block body _ => stmtsVisits_unnumbered ([] :: scopes) body
  | scopes, .branch condition thenBranch elseBranch => by
      simp only [Stmt.unnumbered, stmtVisits, List.map_append,
        exprVisits_unnumbered scopes condition, stmtVisits_unnumbered scopes thenBranch,
        optionalStmtVisits_unnumbered scopes elseBranch]
  | scopes, .loop condition body increment => by
      simp only [Stmt.unnumbered, stmtVisits, List.map_append,
        exprVisits_unnumbered scopes condition, stmtVisits_unnumbered scopes body,
        optionalVisits_unnumbered scopes increment]
  | scopes, .funDecl ⟨name, params, body⟩ =>
      functionVisits_unnumbered (declare name.lexeme scopes) ⟨name, params, body⟩
  | scopes, .classDecl decl => classVisits_unnumbered scopes decl
  | _, .break _ | _, .continue _ => rfl

theorem stmtsVisits_unnumbered : (scopes : Scopes) → (ss : List Stmt) →
    stmtsVisits scopes (stmtsUnnumbered ss) = (stmtsVisits scopes ss).map unnumberedVisit
  | _, [] => rfl
  | scopes, s :: ss => by
      simp only [stmtsUnnumbered, stmtsVisits, List.map_append, stmtVisits_unnumbered scopes s,
        scopesAfter_unnumbered, stmtsVisits_unnumbered (scopesAfter scopes s) ss]

theorem optionalStmtVisits_unnumbered : (scopes : Scopes) → (s : Option Stmt) →
    optionalStmtVisits scopes (optionalStmtUnnumbered s) =
      (optionalStmtVisits scopes s).map unnumberedVisit
  | _, none => rfl
  | scopes, some s => stmtVisits_unnumbered scopes s

theorem functionVisits_unnumbered : (scopes : Scopes) → (decl : FunctionDecl Stmt) →
    functionVisits scopes (functionUnnumbered decl) =
      (functionVisits scopes decl).map unnumberedVisit
  | _, ⟨_, _, body⟩ => stmtsVisits_unnumbered _ body

theorem methodsVisits_unnumbered : (scopes : Scopes) → (ms : List (FunctionDecl Stmt)) →
    methodsVisits scopes (methodsUnnumbered ms) = (methodsVisits scopes ms).map unnumberedVisit
  | _, [] => rfl
  | scopes, m :: ms => by
      simp only [methodsUnnumbered, methodsVisits, List.map_append,
        functionVisits_unnumbered scopes m, methodsVisits_unnumbered scopes ms]

theorem classVisits_unnumbered : (scopes : Scopes) → (decl : ClassDecl Stmt) →
    classVisits scopes (classUnnumbered decl) = (classVisits scopes decl).map unnumberedVisit
  | _, ⟨_, none, methods⟩ => methodsVisits_unnumbered _ methods
  | _, ⟨_, some _, methods⟩ => congrArg (_ :: ·) (methodsVisits_unnumbered _ methods)

end

/-! ## Nodes -/

def formed (P : Token → Prop) : Set (Scopes × Expr) := {visit | visit.2.Formed P}

def Formed (P : Token → Prop) (visits : Scopes → List (Scopes × Expr)) : Prop :=
  ∀ scopes, Within (formed P) (visits scopes)

abbrev FormedExpr (P : Token → Prop) (e : Expr) : Prop :=
  Formed P fun scopes => exprVisits scopes e

abbrev FormedStmt (P : Token → Prop) (s : Stmt) : Prop :=
  Formed P fun scopes => stmtVisits scopes s

variable {visits others : Scopes → List (Scopes × Expr)}

theorem formed_nil : Formed P fun _ => [] := fun _ _ mem => by cases mem

theorem Formed.append (h : Formed P visits) (ho : Formed P others) :
    Formed P fun scopes => visits scopes ++ others scopes :=
  fun scopes => within_append.mpr ⟨h scopes, ho scopes⟩

theorem Formed.cons {node : Expr} (formed : node.Formed P) (h : Formed P visits) :
    Formed P fun scopes => (scopes, node) :: visits scopes :=
  fun scopes => within_cons.mpr ⟨formed, h scopes⟩

def formedMentions (P : Token → Prop) : Set (Setting × Mention) := {x | x.2.Formed P}

mutual

theorem formedMentions_expr {scopes : Scopes} {setting : Setting} : (e : Expr) →
    Within (formed P) (exprVisits scopes e) → Within (formedMentions P) (exprMentions setting e)
  | .literal _ _, _ => fun _ mem => by cases mem
  | .grouping inner, h | .unary _ inner, h | .get inner _, h =>
      formedMentions_expr inner (within_cons.mp h).2
  | .assign _ value, h =>
      within_cons.mpr ⟨trivial, formedMentions_expr value (within_cons.mp h).2⟩
  | .logical left _ right, h | .binary left _ right, h | .set right _ left, h =>
      have both := within_append.mp (within_cons.mp h).2
      within_append.mpr ⟨formedMentions_expr left both.1, formedMentions_expr right both.2⟩
  | .call callee _ arguments, h =>
      have both := within_append.mp (within_cons.mp h).2
      within_append.mpr ⟨formedMentions_expr callee both.1, formedMentions_exprs arguments both.2⟩
  | .var _, _ => within_cons.mpr ⟨trivial, fun _ mem => by cases mem⟩
  | .this _, h | .super _ _, h =>
      within_cons.mpr ⟨(within_cons.mp h).1, fun _ mem => by cases mem⟩

theorem formedMentions_exprs {scopes : Scopes} {setting : Setting} : (es : List Expr) →
    Within (formed P) (exprsVisits scopes es) →
      Within (formedMentions P) (exprsMentions setting es)
  | [], _ => fun _ mem => by cases mem
  | e :: es, h =>
      have both := within_append.mp h
      within_append.mpr ⟨formedMentions_expr e both.1, formedMentions_exprs es both.2⟩

end

theorem formedMentions_optional {scopes : Scopes} {setting : Setting} (e : Option Expr)
    (h : Within (formed P) (optionalVisits scopes e)) :
    Within (formedMentions P) (optionalMentions setting e) := by
  cases e with
  | none => exact fun _ mem => by cases mem
  | some e => exact formedMentions_expr e h

theorem formedMentions_params (setting : Setting) (params : List Token) :
    Within (formedMentions P) (paramsMentions setting params) := by
  intro x mem
  obtain ⟨p, -, rfl⟩ := List.mem_map.mp mem
  exact trivial

theorem formedMentions_superclass (setting : Setting) (superclass : Option Occurrence) :
    Within (formedMentions P) (superclassMentions setting superclass) := by
  cases superclass with
  | none => exact fun _ mem => by cases mem
  | some parent => exact within_cons.mpr ⟨trivial, fun _ mem => by cases mem⟩

mutual

theorem formedMentions_stmt : {scopes : Scopes} → {setting : Setting} → (s : Stmt) →
    Within (formed P) (stmtVisits scopes s) → Within (formedMentions P) (stmtMentions setting s)
  | _, _, .expression e, h | _, _, .print e, h => formedMentions_expr e h
  | _, _, .varDecl _ e, h => within_cons.mpr ⟨trivial, formedMentions_optional e h⟩
  | _, _, .return _ e, h => formedMentions_optional e h
  | _, _, .block body _, h => formedMentions_stmts body h
  | _, _, .branch condition thenBranch elseBranch, h =>
      have all := within_append.mp h
      have both := within_append.mp all.1
      within_append.mpr ⟨within_append.mpr ⟨formedMentions_expr condition both.1,
        formedMentions_stmt thenBranch both.2⟩, formedMentions_optionalStmt elseBranch all.2⟩
  | _, _, .loop condition body increment, h =>
      have all := within_append.mp h
      have both := within_append.mp all.1
      within_append.mpr ⟨within_append.mpr ⟨formedMentions_expr condition both.1,
        formedMentions_stmt body both.2⟩, formedMentions_optional increment all.2⟩
  | _, _, .funDecl decl, h => within_cons.mpr ⟨trivial, formedMentions_function decl h⟩
  | _, _, .classDecl decl, h => formedMentions_class decl h
  | _, _, .break _, _ | _, _, .continue _, _ => fun _ mem => by cases mem

theorem formedMentions_stmts : {scopes : Scopes} → {setting : Setting} → (ss : List Stmt) →
    Within (formed P) (stmtsVisits scopes ss) →
      Within (formedMentions P) (stmtsMentions setting ss)
  | _, _, [], _ => fun _ mem => by cases mem
  | _, _, s :: ss, h =>
      have both := within_append.mp h
      within_append.mpr ⟨formedMentions_stmt s both.1, formedMentions_stmts ss both.2⟩

theorem formedMentions_optionalStmt : {scopes : Scopes} → {setting : Setting} →
    (s : Option Stmt) → Within (formed P) (optionalStmtVisits scopes s) →
      Within (formedMentions P) (optionalStmtMentions setting s)
  | _, _, none, _ => fun _ mem => by cases mem
  | _, _, some s, h => formedMentions_stmt s h

theorem formedMentions_function : {scopes : Scopes} → {setting : Setting} →
    (decl : FunctionDecl Stmt) → Within (formed P) (functionVisits scopes decl) →
      Within (formedMentions P) (functionMentions setting decl)
  | _, _, ⟨_, params, body⟩, h =>
      within_append.mpr ⟨formedMentions_params _ params, formedMentions_stmts body h⟩

theorem formedMentions_methods : {scopes : Scopes} → {setting : Setting} →
    (ms : List (FunctionDecl Stmt)) → Within (formed P) (methodsVisits scopes ms) →
      Within (formedMentions P) (methodsMentions setting ms)
  | _, _, [], _ => fun _ mem => by cases mem
  | _, _, m :: ms, h =>
      have both := within_append.mp h
      within_append.mpr ⟨formedMentions_function m both.1, formedMentions_methods ms both.2⟩

theorem formedMentions_class : {scopes : Scopes} → {setting : Setting} →
    (decl : ClassDecl Stmt) → Within (formed P) (classVisits scopes decl) →
      Within (formedMentions P) (classMentions setting decl)
  | _, _, ⟨_, none, methods⟩, h =>
      within_cons.mpr ⟨trivial, within_append.mpr
        ⟨formedMentions_superclass _ none, formedMentions_methods methods h⟩⟩
  | _, _, ⟨_, some parent, methods⟩, h =>
      within_cons.mpr ⟨trivial, within_append.mpr ⟨formedMentions_superclass _ (some parent),
        formedMentions_methods methods (within_cons.mp h).2⟩⟩

end

end Binding

/-! ## Derivations -/

namespace Grammar

open Binding

variable {limited : Bool} {b a : List Token}

def Symbol.Formed (P : Token → Prop) : (X : Symbol) → X.Tree → Prop
  | levelRest _ left, e | callRest left, e => FormedExpr P left → FormedExpr P e
  | arguments, es => Binding.Formed P fun scopes => exprsVisits scopes es
  | expression, e | level _, e | call, e | primary, e => FormedExpr P e

theorem formed_node {l next : Level} {left right : Expr} {operator : Token}
    (hn : l.next = some next) (kind : l.operators operator.kind = true)
    (hl : FormedExpr P left) (hr : FormedExpr P right) :
    FormedExpr P (l.node left operator right) := by
  cases l with
  | or | and =>
      refine (hl.append hr).cons ?_
      simp only [Level.operators, beq_iff_eq] at kind
      simp [Expr.Formed, kind, logicalOperators]
  | equality | comparison | term | factor =>
      refine (hl.append hr).cons ?_
      simp only [Level.operators, Bool.or_eq_true, beq_iff_eq] at kind
      simp only [Expr.Formed, binaryOperators, List.mem_cons]
      tauto
  | unary => cases hn

theorem Derives.formed {X : Symbol} {tree : X.Tree} (h : Derives limited X b a tree)
    (all : ∀ t ∈ b, P t) : (∀ t ∈ a, P t) ∧ X.Formed P tree := by
  induction h with
  | assign _ _ _ value =>
      rw [List.forall_mem_cons, List.forall_mem_cons] at all
      have inner := value all.2.2
      exact ⟨inner.1, inner.2.cons trivial⟩
  | set _ _ _ _ _ object value =>
      have first := object all
      simp only [List.forall_mem_cons] at first
      have second := value first.1.2.2.2
      exact ⟨second.1, (second.2.append first.2).cons trivial⟩
  | noAssignment _ inner | noOperator _ inner => exact inner all
  | level _ _ _ first rest =>
      have front := first all
      have behind := rest front.1
      exact ⟨behind.1, behind.2 front.2⟩
  | levelEnd | callEnd => exact ⟨all, id⟩
  | levelOperator next kind _ _ right rest =>
      rw [List.forall_mem_cons] at all
      have operand := right all.2
      have behind := rest operand.1
      exact ⟨behind.1, fun left => behind.2 (formed_node next kind left operand.2)⟩
  | @unary operator _ _ _ kind _ operand =>
      rw [List.forall_mem_cons] at all
      have inner := operand all.2
      have known : operator.kind ∈ unaryOperators := by
        simpa only [unaryOperators, List.mem_cons, List.not_mem_nil, or_false] using kind
      exact ⟨inner.1, inner.2.cons known⟩
  | call _ _ first rest =>
      have front := first all
      have behind := rest front.1
      exact ⟨behind.1, behind.2 front.2⟩
  | callEmpty _ _ _ rest =>
      simp only [List.forall_mem_cons] at all
      have behind := rest all.2.2
      exact ⟨behind.1, fun left => behind.2 ((left.append formed_nil).cons trivial)⟩
  | callArguments _ _ _ _ _ arguments rest =>
      rw [List.forall_mem_cons] at all
      have inside := arguments all.2
      rw [List.forall_mem_cons] at inside
      have behind := rest inside.1.2
      exact ⟨behind.1, fun left => behind.2 ((left.append inside.2).cons trivial)⟩
  | callProperty _ _ _ rest =>
      simp only [List.forall_mem_cons] at all
      have behind := rest all.2.2
      exact ⟨behind.1, fun left => behind.2 (left.cons trivial)⟩
  | argument _ inner =>
      have only := inner all
      exact ⟨only.1, only.2.append formed_nil⟩
  | arguments _ _ _ first rest =>
      have front := first all
      rw [List.forall_mem_cons] at front
      have behind := rest front.1.2
      exact ⟨behind.1, front.2.append behind.2⟩
  | literal | true | false | nil | identifier =>
      rw [List.forall_mem_cons] at all
      exact ⟨all.2, formed_nil.cons trivial⟩
  | this kind =>
      rw [List.forall_mem_cons] at all
      exact ⟨all.2, formed_nil.cons ⟨all.1, kind⟩⟩
  | grouping _ _ _ inner =>
      rw [List.forall_mem_cons] at all
      have inside := inner all.2
      rw [List.forall_mem_cons] at inside
      exact ⟨inside.1.2, inside.2.cons trivial⟩
  | super kind =>
      simp only [List.forall_mem_cons] at all
      exact ⟨all.2.2.2, formed_nil.cons ⟨all.1, kind⟩⟩

theorem Optionally.formed {e : Option Expr} (h : Optionally b a e) (all : ∀ t ∈ b, P t) :
    (∀ t ∈ a, P t) ∧ Binding.Formed P fun scopes => optionalVisits scopes e := by
  cases h with
  | none => exact ⟨all, formed_nil⟩
  | some h => exact h.formed all

theorem Parameters.all {names : List Token} (h : Parameters b a names) (all : ∀ t ∈ b, P t) :
    ∀ t ∈ a, P t := by
  induction h with
  | last =>
      rw [List.forall_mem_cons] at all
      exact all.2
  | more _ _ _ ih =>
      simp only [List.forall_mem_cons] at all
      exact ih all.2.2

theorem ParameterList.all {names : List Token} (h : ParameterList b a names)
    (all : ∀ t ∈ b, P t) : ∀ t ∈ a, P t := by
  cases h with
  | none => exact all
  | some h => exact h.all all

theorem Superclass.all {parent : Option Occurrence} (h : Superclass b a parent)
    (all : ∀ t ∈ b, P t) : ∀ t ∈ a, P t := by
  cases h with
  | none => exact all
  | some =>
      simp only [List.forall_mem_cons] at all
      exact all.2.2

theorem VarDecl.formed {s : Stmt} (h : VarDecl b a s) (all : ∀ t ∈ b, P t) :
    (∀ t ∈ a, P t) ∧ FormedStmt P s := by
  cases h with
  | plain =>
      simp only [List.forall_mem_cons] at all
      exact ⟨all.2.2.2, formed_nil⟩
  | initialized _ _ _ h =>
      simp only [List.forall_mem_cons] at all
      have inside := h.formed all.2.2.2
      rw [List.forall_mem_cons] at inside
      exact ⟨inside.1.2, inside.2⟩

theorem ExprStmt.formed {s : Stmt} (h : ExprStmt b a s) (all : ∀ t ∈ b, P t) :
    (∀ t ∈ a, P t) ∧ FormedStmt P s := by
  cases h with
  | mk h =>
      have inside := h.formed all
      rw [List.forall_mem_cons] at inside
      exact ⟨inside.1.2, inside.2⟩

theorem ForFirst.formed {first : Option Stmt} (h : ForFirst b a first) (all : ∀ t ∈ b, P t) :
    (∀ t ∈ a, P t) ∧ ∀ s ∈ first, FormedStmt P s := by
  cases h with
  | varDecl h => exact ⟨(h.formed all).1, fun s mem => Option.mem_some.mp mem ▸ (h.formed all).2⟩
  | exprStmt h => exact ⟨(h.formed all).1, fun s mem => Option.mem_some.mp mem ▸ (h.formed all).2⟩
  | none =>
      rw [List.forall_mem_cons] at all
      exact ⟨all.2, nofun⟩

def StmtSymbol.Formed (P : Token → Prop) : (X : StmtSymbol) → X.Tree → Prop
  | declarations, ss => Binding.Formed P fun scopes => stmtsVisits scopes ss
  | functions, fs => Binding.Formed P fun scopes => methodsVisits scopes fs
  | function, f => Binding.Formed P fun scopes => functionVisits scopes f
  | declaration, s | statement _, s => FormedStmt P s

theorem formed_class {name : Token} {parent : Option Occurrence}
    {methods : List (FunctionDecl Stmt)}
    (h : Binding.Formed P fun scopes => methodsVisits scopes methods) :
    FormedStmt P (.classDecl ⟨name, parent, methods⟩) := by
  intro scopes
  cases parent with
  | none => exact h _
  | some parent => exact within_cons.mpr ⟨trivial, h _⟩

theorem formed_forTree {keyword : Token} {first : Option Stmt} {condition increment : Option Expr}
    {body : Stmt} (hf : ∀ s ∈ first, FormedStmt P s)
    (hc : Binding.Formed P fun scopes => optionalVisits scopes condition)
    (hi : Binding.Formed P fun scopes => optionalVisits scopes increment)
    (hb : FormedStmt P body) : FormedStmt P (forTree keyword first condition body increment) := by
  have test : FormedExpr P (condition.getD (.literal (.bool true) keyword.line)) := by
    cases condition with
    | none => exact formed_nil.cons trivial
    | some e => exact hc
  have loop : FormedStmt P (.loop (condition.getD (.literal (.bool true) keyword.line)) body
    increment) := (test.append hb).append hi
  cases first with
  | none => exact loop
  | some s =>
      intro scopes
      exact within_append.mpr ⟨hf s rfl _, within_append.mpr ⟨loop _, formed_nil scopes⟩⟩

theorem DerivesStmt.formed {X : StmtSymbol} {tree : X.Tree} (h : DerivesStmt X b a tree)
    (all : ∀ t ∈ b, P t) : (∀ t ∈ a, P t) ∧ X.Formed P tree := by
  induction h with
  | noDeclaration | noFunction => exact ⟨all, formed_nil⟩
  | declarations _ _ first rest =>
      have front := first all
      have behind := rest front.1
      exact ⟨behind.1, fun scopes => within_append.mpr ⟨front.2 scopes, behind.2 _⟩⟩
  | functions _ _ first rest =>
      have front := first all
      have behind := rest front.1
      exact ⟨behind.1, front.2.append behind.2⟩
  | classDecl _ _ parent _ _ _ methods =>
      simp only [List.forall_mem_cons] at all
      have start := parent.all all.2.2
      rw [List.forall_mem_cons] at start
      have inside := methods start.2
      rw [List.forall_mem_cons] at inside
      exact ⟨inside.1.2, formed_class inside.2⟩
  | funDecl _ _ function =>
      rw [List.forall_mem_cons] at all
      have inside := function all.2
      exact ⟨inside.1, fun scopes => inside.2 _⟩
  | varDecl h => exact h.formed all
  | exprStmt h => exact h.formed all
  | statement _ inner => exact inner all
  | function _ _ params _ _ _ _ body =>
      simp only [List.forall_mem_cons] at all
      have start := params.all all.2.2
      simp only [List.forall_mem_cons] at start
      have inside := body start.2.2
      rw [List.forall_mem_cons] at inside
      exact ⟨inside.1.2, fun scopes => inside.2 _⟩
  | forStmt _ _ first condition _ increment _ _ body =>
      simp only [List.forall_mem_cons] at all
      have start := first.formed all.2.2
      have test := condition.formed start.1
      rw [List.forall_mem_cons] at test
      have counter := increment.formed test.1.2
      rw [List.forall_mem_cons] at counter
      have inside := body counter.1.2
      exact ⟨inside.1, formed_forTree start.2 test.2 counter.2 inside.2⟩
  | ifStmt _ _ condition _ _ thenBranch =>
      simp only [List.forall_mem_cons] at all
      have test := condition.formed all.2.2
      rw [List.forall_mem_cons] at test
      have inside := thenBranch test.1.2
      exact ⟨inside.1, (test.2.append inside.2).append formed_nil⟩
  | ifElse _ _ condition _ _ _ _ thenBranch elseBranch =>
      simp only [List.forall_mem_cons] at all
      have test := condition.formed all.2.2
      rw [List.forall_mem_cons] at test
      have first := thenBranch test.1.2
      rw [List.forall_mem_cons] at first
      have second := elseBranch first.1.2
      exact ⟨second.1, (test.2.append first.2).append second.2⟩
  | printStmt _ e =>
      rw [List.forall_mem_cons] at all
      have inside := e.formed all.2
      rw [List.forall_mem_cons] at inside
      exact ⟨inside.1.2, inside.2⟩
  | returnStmt _ value =>
      rw [List.forall_mem_cons] at all
      have inside := value.formed all.2
      rw [List.forall_mem_cons] at inside
      exact ⟨inside.1.2, inside.2⟩
  | whileStmt _ _ condition _ _ body =>
      simp only [List.forall_mem_cons] at all
      have test := condition.formed all.2.2
      rw [List.forall_mem_cons] at test
      have inside := body test.1.2
      exact ⟨inside.1, (test.2.append inside.2).append formed_nil⟩
  | breakStmt | continueStmt =>
      simp only [List.forall_mem_cons] at all
      exact ⟨all.2.2, formed_nil⟩
  | block _ _ _ body =>
      rw [List.forall_mem_cons] at all
      have inside := body all.2
      rw [List.forall_mem_cons] at inside
      exact ⟨inside.1.2, fun scopes => inside.2 _⟩

end Grammar

open Binding in
theorem formed_of_parseProgram {firstId : Nat} {tokens : List Token} {program : List Stmt}
    (parsed : (parseProgram firstId tokens).result = .ok program) (all : ∀ t ∈ tokens, P t)
    (scopes : Scopes) : Within (formed P) (stmtsVisits scopes program) := by
  have derives := Grammar.derives_of_parseProgram parsed
  have good := (derives.formed fun t mem => all t (List.takeWhile_subset _ mem)).2 scopes
  intro visit mem
  have listed : unnumberedVisit visit ∈ stmtsVisits scopes (stmtsUnnumbered program) := by
    rw [stmtsVisits_unnumbered]
    exact List.mem_map_of_mem mem
  exact visit.2.formed_unnumbered.mp (good _ listed)

end ClassScript
