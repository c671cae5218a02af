import Mathlib.Logic.Equiv.Basic
import ClassScript.Proofs.Similar.OnePlace

namespace ClassScript

open Binding

/-! ## Renaming -/

section

variable (d : Distances) (x y : String)

def Token.renamed (name : Token) : Token :=
  if name.lexeme = x then { name with lexeme := y } else name

def Occurrence.renamed (depth : Nat) (o : Occurrence) : Occurrence :=
  if d[o.id]? = some depth then ⟨o.id, o.token.renamed x y⟩ else o

mutual

def Expr.renamed (depth : Nat) : Expr → Expr
  | .literal value line => .literal value line
  | .grouping inner => .grouping (inner.renamed depth)
  | .var name => .var (name.renamed d x y depth)
  | .assign name value => .assign (name.renamed d x y depth) (value.renamed depth)
  | .logical left operator right => .logical (left.renamed depth) operator (right.renamed depth)
  | .binary left operator right => .binary (left.renamed depth) operator (right.renamed depth)
  | .unary operator operand => .unary operator (operand.renamed depth)
  | .call callee paren arguments =>
    .call (callee.renamed depth) paren (exprsRenamed depth arguments)
  | .get object name => .get (object.renamed depth) name
  | .set object name value => .set (object.renamed depth) name (value.renamed depth)
  | .this keyword => .this keyword
  | .super keyword method => .super keyword method

def exprsRenamed (depth : Nat) : List Expr → List Expr
  | [] => []
  | e :: es => e.renamed depth :: exprsRenamed depth es

end

def optionalRenamed (depth : Nat) : Option Expr → Option Expr
  | none => none
  | some e => some (e.renamed d x y depth)

mutual

def Stmt.renamed (depth : Nat) : Stmt → Stmt
  | .expression e => .expression (e.renamed d x y depth)
  | .print e => .print (e.renamed d x y depth)
  | .varDecl name initializer =>
    .varDecl (if depth = 0 then name.renamed x y else name)
      (optionalRenamed d x y depth initializer)
  | .block body line => .block (stmtsRenamed (depth + 1) body) line
  | .branch condition thenBranch elseBranch =>
    .branch (condition.renamed d x y depth) (thenBranch.renamed depth)
      (optionalStmtRenamed depth elseBranch)
  | .loop condition body increment =>
    .loop (condition.renamed d x y depth) (body.renamed depth)
      (optionalRenamed d x y depth increment)
  | .funDecl decl => .funDecl (functionRenamed depth decl)
  | .classDecl decl => .classDecl (classRenamed depth decl)
  | .return keyword value => .return keyword (optionalRenamed d x y depth value)
  | .break keyword => .break keyword
  | .continue keyword => .continue keyword

def stmtsRenamed (depth : Nat) : List Stmt → List Stmt
  | [] => []
  | s :: ss => s.renamed depth :: stmtsRenamed depth ss

def optionalStmtRenamed (depth : Nat) : Option Stmt → Option Stmt
  | none => none
  | some s => some (s.renamed depth)

def functionRenamed (depth : Nat) : FunctionDecl Stmt → FunctionDecl Stmt
  | ⟨name, params, body⟩ => ⟨name, params, stmtsRenamed (depth + 1) body⟩

def methodsRenamed (depth : Nat) : List (FunctionDecl Stmt) → List (FunctionDecl Stmt)
  | [] => []
  | m :: ms => functionRenamed depth m :: methodsRenamed depth ms

def classRenamed (depth : Nat) : ClassDecl Stmt → ClassDecl Stmt
  | ⟨name, none, methods⟩ => ⟨name, none, methodsRenamed (depth + 1) methods⟩
  | ⟨name, some parent, methods⟩ =>
    ⟨name, some (parent.renamed d x y depth), methodsRenamed (depth + 2) methods⟩

end

end

def Stmt.definedName? : Stmt → Option String
  | .funDecl decl => some decl.name.lexeme
  | .classDecl decl => some decl.name.lexeme
  | _ => none

def Stmt.variableName? : Stmt → Option String
  | .varDecl name _ => some name.lexeme
  | _ => none

section

variable (d : Distances) (x y : String)

/-- A block that declares a name only as a variable, and the block with this name changed. -/
inductive RenamedBlock : Stmt → Stmt → Prop
  | intro {body} (line : Nat) : (∃ s ∈ body, s.variableName? = some x) →
      (∀ s ∈ body, s.definedName? ≠ some x) →
      RenamedBlock (.block body line) (.block (stmtsRenamed d x y 0 body) line)

/-- A function that declares a name only as a parameter or as a variable, and the function with this
name changed. -/
inductive RenamedFunction : FunctionDecl Stmt → FunctionDecl Stmt → Prop
  | intro {name params body} :
      (∃ p ∈ params, p.lexeme = x) ∨ (∃ s ∈ body, s.variableName? = some x) →
      (∀ s ∈ body, s.definedName? ≠ some x) →
      RenamedFunction ⟨name, params, body⟩
        ⟨name, params.map (Token.renamed x y), stmtsRenamed d x y 0 body⟩

end

/-! ## Places around which a scope is renamed -/

namespace ScopePairs

/-- At this distance is the scope in which one name is called like another one, which is declared
neither there nor further inside. -/
inductive Renames (x y : String) : Nat → ScopePairs → Prop
  | here {names Γ} : (Mention.binder x).Ordinary → (Mention.binder y).Ordinary → y ∉ names →
      Same Γ → Renames x y 0 (.both (.swap x y) names :: Γ)
  | inner {n names Γ} : y ∉ names → Renames x y n Γ →
      Renames x y (n + 1) (.both (.refl String) names :: Γ)

end ScopePairs

variable {wraps : Prop} {d : Distances} {x y name : String} {n : Nat} {Γ : ScopePairs}

theorem Token.lexeme_renamed (t : Token) (ne : t.lexeme ≠ y) :
    (t.renamed x y).lexeme = Equiv.swap x y t.lexeme := by
  unfold Token.renamed
  split
  · rename_i eq
    rw [eq, Equiv.swap_apply_left]
  · rename_i other
    rw [Equiv.swap_apply_of_ne_of_ne other ne]

theorem Token.line_renamed (t : Token) : (t.renamed x y).line = t.line := by
  unfold Token.renamed
  split <;> rfl

namespace ScopePairs.Renames

theorem ordinary (h : Γ.Renames x y n) :
    (Mention.binder x).Ordinary ∧ (Mention.binder y).Ordinary := by
  induction h with
  | here hx hy _ _ => exact ⟨hx, hy⟩
  | inner _ _ ih => exact ih

theorem declare (h : Γ.Renames x y n) (ne : name ≠ y) : (Γ.declare name).Renames x y n := by
  cases h with
  | here hx hy absent same =>
      exact .here hx hy (List.not_mem_cons_of_ne_of_not_mem ne.symm absent) same
  | inner absent h => exact .inner (List.not_mem_cons_of_ne_of_not_mem ne.symm absent) h

theorem declares (h : Γ.Renames x y n) {name : Token} (ne : name.lexeme ≠ y) :
    Γ.Declares name.lexeme (if n = 0 then name.renamed x y else name).lexeme := by
  cases h with
  | here => exact name.lexeme_renamed ne
  | inner => exact rfl

theorem declares_other (h : Γ.Renames x y n) (ne : name ≠ y) (other : n = 0 → name ≠ x) :
    Γ.Declares name name := by
  cases h with
  | here => exact (Equiv.swap_apply_of_ne_of_ne (other rfl) ne).symm
  | inner => exact rfl

theorem distance?_declare (h : Γ.Renames x y n) (name : String) :
    distance? name (Γ.declare name).left = some 0 := by
  cases h <;> exact distance?_here List.mem_cons_self _

theorem swap_not_mem {names : List String} (ne : name ≠ y) (absent : y ∉ names)
    (mem : name ∉ names) : Equiv.swap x y name ∉ names := by
  by_cases eq : name = x
  · rwa [eq, Equiv.swap_apply_left]
  · rwa [Equiv.swap_apply_of_ne_of_ne eq ne]

theorem mem_map_swap {names : List String} :
    name ∈ names.map (Equiv.swap x y) ↔ Equiv.swap x y name ∈ names := by
  constructor
  · intro mem
    obtain ⟨other, mem, rfl⟩ := List.mem_map.mp mem
    rwa [Equiv.swap_apply_self]
  · intro mem
    exact List.mem_map.mpr ⟨_, mem, Equiv.swap_apply_self ..⟩

theorem meets_renamed (h : Γ.Renames x y n) (ne : name ≠ y)
    (found : distance? name Γ.left = some n) :
    Γ.Meets name (Equiv.swap x y name) (some n) (distance? (Equiv.swap x y name) Γ.right) := by
  induction h with
  | @here names Γ _ _ absent same =>
      by_cases mem : name ∈ names
      · rw [right, distance?_here (List.mem_map_of_mem mem)]
        exact .scope .here mem rfl
      · rw [left, distance?_inner mem] at found
        simp at found
  | @inner n names Γ absent h ih =>
      by_cases mem : name ∈ names
      · rw [left, distance?_here mem] at found
        cases found
      · rw [left, distance?_inner mem] at found
        have found : distance? name Γ.left = some n := by simpa using found
        rw [right, Equiv.coe_refl, List.map_id, distance?_inner (swap_not_mem ne absent mem)]
        exact (ih found).both

theorem meets_other (h : Γ.Renames x y n) (ne : name ≠ y)
    (other : distance? name Γ.left ≠ some n) :
    Γ.Meets name name (distance? name Γ.left) (distance? name Γ.right) := by
  induction h with
  | @here names Γ _ _ absent same =>
      by_cases mem : name ∈ names
      · rw [left, distance?_here mem] at other
        exact absurd rfl other
      · have mem' : name ∉ names.map (Equiv.swap x y) :=
          mem_map_swap.not.mpr (swap_not_mem ne absent mem)
        rw [left, right, distance?_inner mem, distance?_inner mem']
        exact (same.meets name).both
  | @inner n names Γ absent h ih =>
      rw [left, right, Equiv.coe_refl, List.map_id]
      by_cases mem : name ∈ names
      · rw [distance?_here mem, distance?_here mem]
        exact .scope .here mem rfl
      · rw [left, distance?_inner mem] at other
        rw [distance?_inner mem, distance?_inner mem]
        exact (ih fun found => other (by rw [found]; rfl)).both

end ScopePairs.Renames

/-! ## Similarity of renamed code -/

theorem placedAlike_renamed (h : Γ.Renames x y n) {o : Occurrence}
    (exact : d[o.id]? = distance? o.token.lexeme Γ.left) (ne : o.token.lexeme ≠ y) :
    PlacedAlike Γ o (o.renamed d x y n) o.token.lexeme (o.renamed d x y n).token.lexeme := by
  unfold Occurrence.renamed
  split
  · rename_i found
    rw [exact] at found
    refine ⟨rfl, o.token.line_renamed, ?_⟩
    rw [o.token.lexeme_renamed ne, found]
    exact h.meets_renamed ne found
  · rename_i other
    rw [exact] at other
    exact ⟨rfl, rfl, h.meets_other ne other⟩

theorem placedAlike_reserved (h : Γ.Renames x y n) (o : Occurrence)
    (reserved : name = "this" ∨ name = "super") : PlacedAlike Γ o o name name := by
  obtain ⟨hx, hy⟩ := h.ordinary
  have ne : name ≠ y := by
    rintro rfl
    exact reserved.elim hy.1 hy.2
  have ne' : name ≠ x := by
    rintro rfl
    exact reserved.elim hx.1 hx.2
  refine ⟨rfl, rfl, ?_⟩
  by_cases found : distance? name Γ.left = some n
  · have meets := h.meets_renamed ne found
    rw [Equiv.swap_apply_of_ne_of_ne ne' ne] at meets
    rw [found]
    exact meets
  · exact h.meets_other ne found

theorem placedAlike_visited (h : Γ.Renames x y n) {setting : Setting} {e : Expr} {o : Occurrence}
    (exact : (Γ.left, e) ∈ exactIn d) (occurs : e.occurrence? = some (o, o.token.lexeme))
    (mentioned : (setting, .var o) ∈ avoiding [y]) :
    PlacedAlike Γ o (o.renamed d x y n) o.token.lexeme (o.renamed d x y n).token.lexeme :=
  placedAlike_renamed h (exact o _ occurs) (List.ne_of_not_mem_cons (mentioned _ rfl).2)

mutual

theorem similarExpr_renamed (h : Γ.Renames x y n) (regular : Γ.Regular) {setting : Setting} :
    (e : Expr) → Within (exactIn d) (exprVisits Γ.left e) →
    Within (avoiding [y]) (exprMentions setting e) →
    SimilarExpr PlacedAlike Γ e (e.renamed d x y n)
  | .literal value line, _, _ => .literal value line
  | .grouping e, ex, av => .grouping (similarExpr_renamed h regular e (within_cons.mp ex).2 av)
  | .var _, ex, av =>
      .var (placedAlike_visited h (within_cons.mp ex).1 rfl (within_cons.mp av).1)
  | .assign _ e, ex, av =>
      .assign (placedAlike_visited h (within_cons.mp ex).1 rfl (within_cons.mp av).1)
        (similarExpr_renamed h regular e (within_cons.mp ex).2 (within_cons.mp av).2)
  | .logical l operator r, ex, av =>
      have both := within_append.mp (within_cons.mp ex).2
      have both' := within_append.mp av
      .logical operator (similarExpr_renamed h regular l both.1 both'.1)
        (similarExpr_renamed h regular r both.2 both'.2)
  | .binary l operator r, ex, av =>
      have both := within_append.mp (within_cons.mp ex).2
      have both' := within_append.mp av
      .binary operator (similarExpr_renamed h regular l both.1 both'.1)
        (similarExpr_renamed h regular r both.2 both'.2)
  | .unary operator e, ex, av =>
      .unary operator (similarExpr_renamed h regular e (within_cons.mp ex).2 av)
  | .call e paren es, ex, av =>
      have both := within_append.mp (within_cons.mp ex).2
      have both' := within_append.mp av
      .call paren (similarExpr_renamed h regular e both.1 both'.1)
        (similarExprs_renamed h regular es both.2 both'.2)
  | .get e name, ex, av => .get name (similarExpr_renamed h regular e (within_cons.mp ex).2 av)
  | .set e name v, ex, av =>
      have both := within_append.mp (within_cons.mp ex).2
      have both' := within_append.mp av
      .set name (similarExpr_renamed h regular e both.2 both'.2)
        (similarExpr_renamed h regular v both.1 both'.1)
  | .this o, _, _ => .this (placedAlike_reserved h o (.inl rfl))
  | .super o method, _, _ => .super method (placedAlike_reserved h o (.inr rfl)) regular

theorem similarExprs_renamed (h : Γ.Renames x y n) (regular : Γ.Regular) {setting : Setting} :
    (es : List Expr) → Within (exactIn d) (exprsVisits Γ.left es) →
    Within (avoiding [y]) (exprsMentions setting es) →
    SimilarExprs PlacedAlike Γ es (exprsRenamed d x y n es)
  | [], _, _ => .nil
  | e :: es, ex, av =>
      have both := within_append.mp ex
      have both' := within_append.mp av
      .cons (similarExpr_renamed h regular e both.1 both'.1)
        (similarExprs_renamed h regular es both.2 both'.2)

end

theorem similarOptional_renamed (h : Γ.Renames x y n) (regular : Γ.Regular) {setting : Setting} :
    (e : Option Expr) → Within (exactIn d) (optionalVisits Γ.left e) →
    Within (avoiding [y]) (optionalMentions setting e) →
    SimilarOptional PlacedAlike Γ e (optionalRenamed d x y n e)
  | none, _, _ => .none
  | some e, ex, av => .some (similarExpr_renamed h regular e ex av)

theorem self_renamed (h : Γ.Renames x y n) {parent : Occurrence} {own : String}
    (exact : d[parent.id]? = distance? parent.token.lexeme (Γ.declare own).left)
    (ne : own ≠ y) (other : n = 0 → own ≠ x) :
    ((parent.renamed d x y n).token.lexeme == own) = (parent.token.lexeme == own) := by
  unfold Occurrence.renamed Token.renamed
  split
  · rename_i found
    split
    · rename_i called
      -- Its own name is found in the scope that declares the class, which is another one.
      have other : x ≠ own := by
        rintro rfl
        rw [exact, called, h.distance?_declare] at found
        exact other (Option.some.inj found).symm rfl
      rw [called, beq_eq_false_iff_ne.mpr ne.symm, beq_eq_false_iff_ne.mpr other]
    · rfl
  · rfl

theorem definedName?_of_plain {s : Stmt} (plain : s.isDeclaration = false) :
    s.definedName? = none := by
  cases s <;> first | rfl | cases plain

section

variable {V : Set (Scopes × Expr)} {setting : Setting} {mentions : List (Setting × Mention)}

theorem ne_of_binder (h : Within (avoiding [y]) ((setting, .binder name) :: mentions)) :
    name ≠ y :=
  List.ne_of_not_mem_cons ((within_cons.mp h).1 name rfl).2

theorem fresh_params {params : List Token}
    (h : Within (avoiding [y]) (paramsMentions setting params)) :
    y ∉ (params.map Token.lexeme).reverse :=
  not_mem_params fun _ mem =>
    List.ne_of_not_mem_cons (h _ (List.mem_map_of_mem mem) _ rfl).2

theorem ScopePairs.Renames.after (h : Γ.Renames x y n) {s : Stmt} (stands : Stands [y] V Γ s) :
    (Γ.after s).Renames x y n := by
  obtain ⟨setting, mentions⟩ := stands.mentions
  cases s with
  | varDecl | funDecl => exact h.declare (ne_of_binder mentions)
  | classDecl decl =>
      rw [stmtMentions, classMentions_eq] at mentions
      exact h.declare (ne_of_binder mentions)
  | _ => exact h

end

mutual

theorem similarPlain_renamed : {n : Nat} → {Γ : ScopePairs} → Γ.Renames x y n → (s : Stmt) →
    Stands [y] (exactIn d) Γ s → (n = 0 → s.definedName? ≠ some x) →
    SimilarPlain PlacedAlike wraps Γ s (s.renamed d x y n)
  | _, _, renames, .expression e, h, _ => by
      obtain ⟨setting, mentions⟩ := h.mentions
      exact .expression (similarExpr_renamed renames h.regular e h.visits mentions)
  | _, _, renames, .print e, h, _ => by
      obtain ⟨setting, mentions⟩ := h.mentions
      exact .print (similarExpr_renamed renames h.regular e h.visits mentions)
  | _, _, renames, .varDecl name e, h, _ => by
      obtain ⟨setting, mentions⟩ := h.mentions
      have value := similarOptional_renamed renames h.regular e h.visits (within_cons.mp mentions).2
      refine .varDecl ?_ (renames.declares (ne_of_binder mentions)) value
      split
      · exact name.line_renamed
      · rfl
  | _, _, renames, .block body line, h, _ =>
      .block (.refl _) line
        (similarStmts_renamed (.inner List.not_mem_nil renames) body (h.block rfl) nofun)
  | _, _, renames, .branch c s other, h, _ => by
      obtain ⟨setting, mentions⟩ := h.mentions
      have visited := within_append.mp (within_append.mp h.visits).1
      have mentioned := within_append.mp (within_append.mp mentions).1
      have plain := definedName?_of_plain h.proper.1.1
      exact .branch (similarExpr_renamed renames h.regular c visited.1 mentioned.1)
        (.plain (similarPlain_renamed renames s h.thenBranch fun _ => by rw [plain]; exact nofun))
        (similarBranch_renamed renames other h.elseBranch h.proper.2)
  | _, _, renames, .loop c s e, h, _ => by
      obtain ⟨setting, mentions⟩ := h.mentions
      have visited := within_append.mp h.visits
      have mentioned := within_append.mp mentions
      have first := within_append.mp visited.1
      have first' := within_append.mp mentioned.1
      have plain := definedName?_of_plain h.proper.1
      exact .loop (similarExpr_renamed renames h.regular c first.1 first'.1)
        (.plain (similarPlain_renamed renames s h.body fun _ => by rw [plain]; exact nofun))
        (similarOptional_renamed renames h.regular e visited.2 mentioned.2)
  | _, _, renames, .funDecl f, h, others => by
      obtain ⟨setting, mentions⟩ := h.mentions
      have ne := ne_of_binder mentions
      have other zero : f.name.lexeme ≠ x := fun eq => others zero (congrArg some eq)
      exact .funDecl (renames.declares_other ne other)
        (similarFunction_renamed (renames.declare ne) f h.function)
  | _, _, renames, .classDecl ⟨name, none, ms⟩, h, others => by
      obtain ⟨setting, mentions⟩ := h.mentions
      have ne := ne_of_binder mentions
      have other zero : name.lexeme ≠ x := fun eq => others zero (congrArg some eq)
      have absent := List.mem_singleton.not.mpr renames.ordinary.2.1
      exact .classDecl (renames.declares_other ne other)
        (.base (similarMethods_renamed (.inner absent (renames.declare ne)) ms h.base))
  | _, _, renames, .classDecl ⟨name, some parent, ms⟩, h, others => by
      obtain ⟨setting, mentions⟩ := h.mentions
      obtain ⟨here, mentions'⟩ := within_cons.mp mentions
      have ne := ne_of_binder mentions
      have other zero : name.lexeme ≠ x := fun eq => others zero (congrArg some eq)
      have absent := List.mem_singleton.not.mpr renames.ordinary.2.1
      have absent' := List.mem_singleton.not.mpr renames.ordinary.2.2
      have visits := h.visits
      rw [stmtVisits, classVisits, ← (h.opens rfl).left_declare] at visits
      have exact := (within_cons.mp visits).1
      exact .classDecl (renames.declares_other ne other)
        (.sub (placedAlike_visited (renames.declare ne) exact rfl (within_cons.mp mentions').1)
          (self_renamed renames (exact _ _ rfl) ne other)
          (similarMethods_renamed (.inner absent (.inner absent' (renames.declare ne))) ms h.sub))
  | _, _, renames, .return keyword e, h, _ => by
      obtain ⟨setting, mentions⟩ := h.mentions
      exact .return keyword (similarOptional_renamed renames h.regular e h.visits mentions)
  | _, _, _, .break keyword, _, _ => .break keyword
  | _, _, _, .continue keyword, _, _ => .continue keyword

theorem similarStmts_renamed : {n : Nat} → {Γ : ScopePairs} → Γ.Renames x y n →
    (ss : List Stmt) → StandsAll [y] (exactIn d) Γ ss →
    (n = 0 → ∀ s ∈ ss, s.definedName? ≠ some x) →
    SimilarStmts PlacedAlike wraps Γ ss (stmtsRenamed d x y n ss)
  | _, _, _, [], _, _ => .nil
  | _, _, renames, s :: ss, h, others =>
      have other zero := others zero s List.mem_cons_self
      have others zero s mem := others zero s (List.mem_cons_of_mem _ mem)
      .cons (.plain (similarPlain_renamed renames s h.first other))
        (similarStmts_renamed (renames.after h.first) ss h.rest others)

theorem similarBranch_renamed : {n : Nat} → {Γ : ScopePairs} → Γ.Renames x y n →
    (s : Option Stmt) → (∀ s' ∈ s, Stands [y] (exactIn d) Γ s') → ProperBranch s →
    SimilarOptionalStmt PlacedAlike wraps Γ s (optionalStmtRenamed d x y n s)
  | _, _, _, none, _, _ => .none
  | _, _, renames, some s, h, proper => by
      have plain := definedName?_of_plain proper.1
      exact .some (.plain (similarPlain_renamed renames s (h s rfl)
        fun _ => by rw [plain]; exact nofun))

theorem similarFunction_renamed : {n : Nat} → {Γ : ScopePairs} → Γ.Renames x y n →
    (f : FunctionDecl Stmt) → StandsFunction [y] (exactIn d) Γ f →
    SimilarFunction PlacedAlike wraps Γ f (functionRenamed d x y n f)
  | _, _, renames, ⟨_, _, body⟩, h => by
      obtain ⟨setting, mentions⟩ := h.mentions
      have absent := fresh_params (within_append.mp mentions).1
      exact .intro (.refl _) (List.map_id _).symm
        (similarStmts_renamed (.inner absent renames) body (h.body rfl) nofun)

theorem similarMethods_renamed : {n : Nat} → {Γ : ScopePairs} → Γ.Renames x y n →
    (ms : List (FunctionDecl Stmt)) → StandsMethods [y] (exactIn d) Γ ms →
    SimilarMethods PlacedAlike wraps Γ ms (methodsRenamed d x y n ms)
  | _, _, _, [], _ => .nil
  | _, _, renames, f :: ms, h =>
      .cons (similarFunction_renamed renames f h.first)
        (similarMethods_renamed renames ms h.rest)

end

end ClassScript
