import Mathlib.Logic.Equiv.Basic
import ClassScript.Binding
import ClassScript.Proofs.Run.Continues

/-!
# Similar programs

Two programs are similar if they differ only in what their local names are, in scopes that nothing
is declared in, and in where the increments of loops stand. Corresponding places of them see the
same scopes: `ScopePairs` lists these scopes innermost first, with the names that they declare so
far and with what the second program calls them, and also those that only one of the programs has.
What is to be known of corresponding occurrences is a relation `R`, so that similarity can be about
the places of occurrences as well as about distances that are recorded for them.
-/

namespace ClassScript

open Binding

/-- A scope at corresponding places of two programs, or an empty one that only one of them has. -/
inductive ScopePair where
  | both (ρ : Equiv.Perm String) (names : List String)
  | left
  | right

abbrev ScopePairs := List ScopePair

namespace ScopePair

abbrev single (name : String) : ScopePair := .both (.refl String) [name]

def swap : ScopePair → ScopePair
  | both ρ names => both ρ.symm (names.map ρ)
  | left => right
  | right => left

end ScopePair

namespace ScopePairs

def left : ScopePairs → Scopes
  | [] => []
  | .both _ names :: Γ => names :: left Γ
  | .left :: Γ => [] :: left Γ
  | .right :: Γ => left Γ

def right : ScopePairs → Scopes
  | [] => []
  | .both ρ names :: Γ => names.map ρ :: right Γ
  | .left :: Γ => right Γ
  | .right :: Γ => [] :: right Γ

def swap (Γ : ScopePairs) : ScopePairs := Γ.map ScopePair.swap

def declare (name : String) : ScopePairs → ScopePairs
  | .both ρ names :: Γ => .both ρ (name :: names) :: Γ
  | Γ => Γ

/-- Where the first program declares a name here, the second one can declare this name. -/
def Declares : ScopePairs → String → String → Prop
  | [], name, name' => name' = name
  | .both ρ _ :: _, name, name' => name' = ρ name
  | .left :: _, _, _ => False
  | .right :: _, _, _ => False

def after (Γ : ScopePairs) : Stmt → ScopePairs
  | .varDecl name _ => Γ.declare name.lexeme
  | .funDecl decl => Γ.declare decl.name.lexeme
  | .classDecl decl => Γ.declare decl.name.lexeme
  | _ => Γ

/-- The scope at one distance in the first program and at another one in the second. -/
inductive At : ScopePairs → Nat → Nat → Equiv.Perm String → List String → Prop
  | here {Γ ρ names} : At (.both ρ names :: Γ) 0 0 ρ names
  | both {Γ d d' ρ names σ others} : At Γ d d' ρ names →
      At (.both σ others :: Γ) (d + 1) (d' + 1) ρ names
  | left {Γ d d' ρ names} : At Γ d d' ρ names → At (.left :: Γ) (d + 1) d' ρ names
  | right {Γ d d' ρ names} : At Γ d d' ρ names → At (.right :: Γ) d (d' + 1) ρ names

/-- Only the scope in front of the methods of a subclass declares `super`, and right inside of it is
the one for `this`. -/
inductive Regular : ScopePairs → Prop
  | nil : Regular []
  | both {Γ ρ names} : "super" ∉ names → "super" ∉ names.map ρ → Regular Γ →
      Regular (.both ρ names :: Γ)
  | left {Γ} : Regular Γ → Regular (.left :: Γ)
  | right {Γ} : Regular Γ → Regular (.right :: Γ)
  | methods {Γ} : Regular Γ → Regular (.single "this" :: .single "super" :: Γ)

/-- A name in each of two programs refers to the same: both to the same scope, where the second name
is what the first one is called, or both to a global of the same name. -/
inductive Meets (Γ : ScopePairs) (name name' : String) : Option Nat → Option Nat → Prop
  | global : name' = name → Meets Γ name name' none none
  | scope {d d' ρ names} : At Γ d d' ρ names → name ∈ names → name' = ρ name →
      Meets Γ name name' (some d) (some d')

end ScopePairs

def increments (e : Option Expr) : List Stmt := e.toList.map .expression

/-- What is known of two occurrences at a place, with the names that they look up. -/
abbrev OccurrencePairs := ScopePairs → Occurrence → Occurrence → String → String → Prop

section

variable (R : OccurrencePairs) (wraps : Prop)

mutual

inductive SimilarExpr : ScopePairs → Expr → Expr → Prop
  | literal {Γ} (value : Literal) (line : Nat) :
      SimilarExpr Γ (.literal value line) (.literal value line)
  | grouping {Γ e e'} : SimilarExpr Γ e e' → SimilarExpr Γ (.grouping e) (.grouping e')
  | var {Γ o o'} : R Γ o o' o.token.lexeme o'.token.lexeme → SimilarExpr Γ (.var o) (.var o')
  | assign {Γ o o' e e'} : R Γ o o' o.token.lexeme o'.token.lexeme → SimilarExpr Γ e e' →
      SimilarExpr Γ (.assign o e) (.assign o' e')
  | logical {Γ l l' r r'} (operator : Token) : SimilarExpr Γ l l' → SimilarExpr Γ r r' →
      SimilarExpr Γ (.logical l operator r) (.logical l' operator r')
  | binary {Γ l l' r r'} (operator : Token) : SimilarExpr Γ l l' → SimilarExpr Γ r r' →
      SimilarExpr Γ (.binary l operator r) (.binary l' operator r')
  | unary {Γ e e'} (operator : Token) : SimilarExpr Γ e e' →
      SimilarExpr Γ (.unary operator e) (.unary operator e')
  | call {Γ e e' es es'} (paren : Token) : SimilarExpr Γ e e' → SimilarExprs Γ es es' →
      SimilarExpr Γ (.call e paren es) (.call e' paren es')
  | get {Γ e e'} (name : Token) : SimilarExpr Γ e e' → SimilarExpr Γ (.get e name) (.get e' name)
  | set {Γ e e' v v'} (name : Token) : SimilarExpr Γ e e' → SimilarExpr Γ v v' →
      SimilarExpr Γ (.set e name v) (.set e' name v')
  | this {Γ o o'} : R Γ o o' "this" "this" → SimilarExpr Γ (.this o) (.this o')
  | super {Γ o o'} (method : Token) : R Γ o o' "super" "super" → Γ.Regular →
      SimilarExpr Γ (.super o method) (.super o' method)

inductive SimilarExprs : ScopePairs → List Expr → List Expr → Prop
  | nil {Γ} : SimilarExprs Γ [] []
  | cons {Γ e e' es es'} : SimilarExpr Γ e e' → SimilarExprs Γ es es' →
      SimilarExprs Γ (e :: es) (e' :: es')

end

inductive SimilarOptional (Γ : ScopePairs) : Option Expr → Option Expr → Prop
  | none : SimilarOptional Γ none none
  | some {e e'} : SimilarExpr R Γ e e' → SimilarOptional Γ (some e) (some e')

inductive SimilarCondition (Γ : ScopePairs) : Expr → Expr → Prop
  | same {c c'} : SimilarExpr R Γ c c' → SimilarCondition Γ c c'
  | constant (value : Literal) (line line' : Nat) :
      SimilarCondition Γ (.literal value line) (.literal value line')

mutual

/-- Similar statements, one of which may stand in a block of its own. -/
inductive SimilarStmt : ScopePairs → Stmt → Stmt → Prop
  | plain {Γ s s'} : SimilarPlain Γ s s' → SimilarStmt Γ s s'
  | wrapLeft {Γ s s'} (line : Nat) : wraps → SimilarPlain (.left :: Γ) s s' →
      SimilarStmt Γ (.block [s] line) s'
  | wrapRight {Γ s s'} (line : Nat) : wraps → SimilarPlain (.right :: Γ) s s' →
      SimilarStmt Γ s (.block [s'] line)

inductive SimilarPlain : ScopePairs → Stmt → Stmt → Prop
  | expression {Γ e e'} : SimilarExpr R Γ e e' → SimilarPlain Γ (.expression e) (.expression e')
  | print {Γ e e'} : SimilarExpr R Γ e e' → SimilarPlain Γ (.print e) (.print e')
  | varDecl {Γ} {name name' : Token} {e e'} : name'.line = name.line →
      Γ.Declares name.lexeme name'.lexeme → SimilarOptional R Γ e e' →
      SimilarPlain Γ (.varDecl name e) (.varDecl name' e')
  | scope {Γ body body'} {line line' : Nat} (ρ : Equiv.Perm String) : line' = line ∨ wraps →
      SimilarStmts (.both ρ [] :: Γ) body body' →
      SimilarPlain Γ (.block body line) (.block body' line')
  | branch {Γ c c' s s' other other'} : SimilarExpr R Γ c c' → SimilarStmt Γ s s' →
      SimilarOptionalStmt Γ other other' →
      SimilarPlain Γ (.branch c s other) (.branch c' s' other')
  | loop {Γ c c' s s' e e'} : SimilarExpr R Γ c c' → SimilarStmt Γ s s' →
      SimilarOptional R Γ e e' → SimilarPlain Γ (.loop c s e) (.loop c' s' e')
  /-- In the second program, the increment stands behind the body, in a block with it. -/
  | expandRight {Γ c c' s s' e e'} (line : Nat) : wraps → s.continues = false →
      SimilarCondition R Γ c c' → SimilarPlain (.right :: Γ) s s' →
      SimilarOptional R (.right :: Γ) e e' →
      SimilarPlain Γ (.loop c s e) (.loop c' (.block (s' :: increments e') line) none)
  | expandLeft {Γ c c' s s' e e'} (line : Nat) : wraps → s'.continues = false →
      SimilarCondition R Γ c c' → SimilarPlain (.left :: Γ) s s' →
      SimilarOptional R (.left :: Γ) e e' →
      SimilarPlain Γ (.loop c (.block (s :: increments e) line) none) (.loop c' s' e')
  | funDecl {Γ f f'} : Γ.Declares f.name.lexeme f.name.lexeme →
      SimilarFunction (Γ.declare f.name.lexeme) f f' → SimilarPlain Γ (.funDecl f) (.funDecl f')
  | classDecl {Γ c c'} : Γ.Declares c.name.lexeme c.name.lexeme →
      SimilarClass (Γ.declare c.name.lexeme) c c' → SimilarPlain Γ (.classDecl c) (.classDecl c')
  | return {Γ e e'} (keyword : Token) : SimilarOptional R Γ e e' →
      SimilarPlain Γ (.return keyword e) (.return keyword e')
  | break {Γ} (keyword : Token) : SimilarPlain Γ (.break keyword) (.break keyword)
  | continue {Γ} (keyword : Token) : SimilarPlain Γ (.continue keyword) (.continue keyword)

inductive SimilarStmts : ScopePairs → List Stmt → List Stmt → Prop
  | nil {Γ} : SimilarStmts Γ [] []
  | cons {Γ s s' ss ss'} : SimilarStmt Γ s s' → SimilarStmts (Γ.after s) ss ss' →
      SimilarStmts Γ (s :: ss) (s' :: ss')

inductive SimilarOptionalStmt : ScopePairs → Option Stmt → Option Stmt → Prop
  | none {Γ} : SimilarOptionalStmt Γ none none
  | some {Γ s s'} : SimilarStmt Γ s s' → SimilarOptionalStmt Γ (some s) (some s')

inductive SimilarFunction : ScopePairs → FunctionDecl Stmt → FunctionDecl Stmt → Prop
  | intro {Γ name body body'} {params params' : List Token} (ρ : Equiv.Perm String) :
      params'.map Token.lexeme = (params.map Token.lexeme).map ρ →
      SimilarStmts (.both ρ (params.map Token.lexeme).reverse :: Γ) body body' →
      SimilarFunction Γ ⟨name, params, body⟩ ⟨name, params', body'⟩

inductive SimilarMethods : ScopePairs → List (FunctionDecl Stmt) → List (FunctionDecl Stmt) → Prop
  | nil {Γ} : SimilarMethods Γ [] []
  | cons {Γ f f' ms ms'} : SimilarFunction Γ f f' → SimilarMethods Γ ms ms' →
      SimilarMethods Γ (f :: ms) (f' :: ms')

inductive SimilarClass : ScopePairs → ClassDecl Stmt → ClassDecl Stmt → Prop
  | base {Γ name ms ms'} : SimilarMethods (.single "this" :: Γ) ms ms' →
      SimilarClass Γ ⟨name, none, ms⟩ ⟨name, none, ms'⟩
  | sub {Γ ms ms'} {name : Token} {parent parent' : Occurrence} :
      R Γ parent parent' parent.token.lexeme parent'.token.lexeme →
      (parent'.token.lexeme == name.lexeme) = (parent.token.lexeme == name.lexeme) →
      SimilarMethods (.single "this" :: .single "super" :: Γ) ms ms' →
      SimilarClass Γ ⟨name, some parent, ms⟩ ⟨name, some parent', ms'⟩

end

end

variable {R : OccurrencePairs} {wraps : Prop}
  {Γ : ScopePairs} {name name' : String} {s s' : Stmt} {d d' : Nat}
  {ρ : Equiv.Perm String} {names : List String}

namespace ScopePairs

theorem Declares.left (h : Γ.Declares name name') :
    (Γ.declare name).left = Binding.declare name Γ.left := by
  match Γ, h with
  | [], _ => rfl
  | .both ρ names :: Γ, _ => rfl

theorem Declares.right (h : Γ.Declares name name') :
    (Γ.declare name).right = Binding.declare name' Γ.right := by
  match Γ, h with
  | [], _ => rfl
  | .both ρ names :: Γ, h => rw [h]; rfl

theorem Meets.of_declare {own : String} {found found' : Option Nat} (ne : name ≠ own)
    (h : (Γ.declare own).Meets name name' found found') : Γ.Meets name name' found found' := by
  cases h with
  | global same => exact .global same
  | scope place mem called =>
      match Γ, place with
      | .both ρ names :: Γ, .here =>
          exact .scope .here ((List.mem_cons.mp mem).resolve_left ne) called
      | .both ρ names :: Γ, .both place => exact .scope (.both place) mem called
      | .left :: Γ, place | .right :: Γ, place => exact .scope place mem called

theorem Regular.receiver (h : Γ.Regular) (found : At Γ d d' ρ names) (mem : "super" ∈ names) :
    ∃ i i', d = i + 1 ∧ d' = i' + 1 ∧ At Γ i i' (.refl String) ["this"] := by
  induction h generalizing d d' with
  | nil => cases found
  | both absent _ _ ih =>
      cases found with
      | here => exact absurd mem absent
      | both found =>
          obtain ⟨i, i', rfl, rfl, inner⟩ := ih found
          exact ⟨_, _, rfl, rfl, .both inner⟩
  | left _ ih =>
      cases found with
      | left found =>
          obtain ⟨i, i', rfl, rfl, inner⟩ := ih found
          exact ⟨_, _, rfl, rfl, .left inner⟩
  | right _ ih =>
      cases found with
      | right found =>
          obtain ⟨i, i', rfl, rfl, inner⟩ := ih found
          exact ⟨_, _, rfl, rfl, .right inner⟩
  | methods _ ih =>
      cases found with
      | here => exact absurd mem (by decide)
      | both found =>
          cases found with
          | here => exact ⟨0, 0, rfl, rfl, .here⟩
          | both found =>
              obtain ⟨i, i', rfl, rfl, inner⟩ := ih found
              exact ⟨_, _, rfl, rfl, .both (.both inner)⟩

end ScopePairs

theorem SimilarPlain.block {body body' : List Stmt} (ρ : Equiv.Perm String) (line : Nat)
    (h : SimilarStmts R wraps (.both ρ [] :: Γ) body body') :
    SimilarPlain R wraps Γ (.block body line) (.block body' line) := .scope ρ (.inl rfl) h

theorem SimilarPlain.after_wrapped {pair : ScopePair} (one : pair = .left ∨ pair = .right)
    (h : SimilarPlain R wraps (pair :: Γ) s s') (Δ : ScopePairs) (scopes : Scopes) :
    Δ.after s = Δ ∧ scopesAfter scopes s = scopes ∧ scopesAfter scopes s' = scopes := by
  rcases one with rfl | rfl <;> cases h <;> first | exact ⟨rfl, rfl, rfl⟩ | contradiction

theorem SimilarPlain.left_after (h : SimilarPlain R wraps Γ s s') :
    (Γ.after s).left = scopesAfter Γ.left s := by
  cases h with
  | varDecl _ declares _ | funDecl declares _ | classDecl declares _ => exact declares.left
  | _ => rfl

theorem SimilarStmt.left_after (h : SimilarStmt R wraps Γ s s') :
    (Γ.after s).left = scopesAfter Γ.left s := by
  cases h with
  | plain h => exact h.left_after
  | wrapLeft => rfl
  | wrapRight line _ h =>
      obtain ⟨same, same', -⟩ := h.after_wrapped (.inr rfl) Γ Γ.left
      rw [same, same']

theorem SimilarFunction.same_name {f f' : FunctionDecl Stmt} (h : SimilarFunction R wraps Γ f f') :
    f'.name = f.name := by
  cases h
  rfl

theorem SimilarClass.same_name {c c' : ClassDecl Stmt} (h : SimilarClass R wraps Γ c c') :
    c'.name = c.name := by
  cases h <;> rfl

theorem SimilarPlain.right_after (h : SimilarPlain R wraps Γ s s') :
    (Γ.after s).right = scopesAfter Γ.right s' := by
  cases h with
  | varDecl _ declares _ => exact declares.right
  | funDecl declares h =>
      rw [scopesAfter, h.same_name]
      exact declares.right
  | classDecl declares h =>
      rw [scopesAfter, h.same_name]
      exact declares.right
  | _ => rfl

theorem SimilarStmt.right_after (h : SimilarStmt R wraps Γ s s') :
    (Γ.after s).right = scopesAfter Γ.right s' := by
  cases h with
  | plain h => exact h.right_after
  | wrapRight line _ h =>
      obtain ⟨same, -⟩ := h.after_wrapped (.inr rfl) Γ Γ.left
      rw [same]
      rfl
  | wrapLeft line _ h =>
      obtain ⟨-, -, same⟩ := h.after_wrapped (.inl rfl) Γ Γ.right
      rw [same]
      rfl

theorem SimilarExpr.line (lines : ∀ {Γ o o' n n'}, R Γ o o' n n' → o'.token.line = o.token.line) :
    {e e' : Expr} → SimilarExpr R Γ e e' → e'.line = e.line
  | _, _, .grouping h => h.line lines
  | _, _, .var h | _, _, .assign h _ | _, _, .this h | _, _, .super _ h _ => lines h
  | _, _, .literal _ _ | _, _, .logical _ _ _ | _, _, .binary _ _ _ | _, _, .unary _ _
  | _, _, .call _ _ _ | _, _, .get _ _ | _, _, .set _ _ _ => rfl

theorem SimilarPlain.line (lines : ∀ {Γ o o' n n'}, R Γ o o' n n' → o'.token.line = o.token.line)
    (h : SimilarPlain R wraps Γ s s') : s'.line = s.line ∨ wraps := by
  cases h with
  | expression h | print h | branch h | loop h => exact .inl (h.line lines)
  | varDecl line => exact .inl line
  | scope _ same => exact same
  | expandRight _ allowed | expandLeft _ allowed => exact .inr allowed
  | funDecl _ h => exact .inl (congrArg Token.line h.same_name)
  | classDecl _ h => exact .inl (congrArg Token.line h.same_name)
  | «return» | «break» | «continue» => exact .inl rfl

end ClassScript
