import ClassScript.Proofs.Binding.Charted
import ClassScript.Proofs.Grammar.Proper
import ClassScript.Proofs.Similar.Analysis

namespace ClassScript

open Binding

def Mention.name? : Mention → Option String
  | binder name => some name
  | var name => some name.token.lexeme
  | this _ | super _ => none

namespace ScopePairs

/-- The scopes around code that is the same in both programs, where the second program may have
empty scopes in between. -/
inductive Same : ScopePairs → Prop
  | nil : Same []
  | both {Γ names} : Same Γ → Same (.both (.refl String) names :: Γ)
  | right {Γ} : Same Γ → Same (.right :: Γ)

inductive Open : ScopePairs → Prop
  | nil : Open []
  | both {Γ ρ names} : "super" ∉ names → ρ "super" = "super" → Regular Γ →
      Open (.both ρ names :: Γ)

end ScopePairs

variable {wraps : Prop} {Γ : ScopePairs} {name name' : String} {names others : List String}
  {ρ : Equiv.Perm String} {V : Set (Scopes × Expr)}

namespace ScopePairs

theorem Open.regular (h : Γ.Open) : Γ.Regular := by
  cases h with
  | nil => exact .nil
  | @both Γ ρ names absent fixed regular =>
      refine .both absent (fun mem => ?_) regular
      obtain ⟨name, mem, called⟩ := List.mem_map.mp mem
      obtain rfl : name = "super" := ρ.injective (called.trans fixed.symm)
      exact absent mem

theorem Open.declare (h : Γ.Open) (ne : name ≠ "super") : (Γ.declare name).Open := by
  cases h with
  | nil => exact .nil
  | both absent fixed regular =>
      exact .both (List.not_mem_cons_of_ne_of_not_mem ne.symm absent) fixed regular

theorem Open.left_declare (h : Γ.Open) (name : String) :
    (Γ.declare name).left = Binding.declare name Γ.left := by
  cases h <;> rfl

theorem Same.declare (h : Γ.Same) (name : String) : (Γ.declare name).Same := by
  cases h with
  | nil => exact .nil
  | both h => exact .both h
  | right h => exact .right h

theorem Same.after (h : Γ.Same) (s : Stmt) : (Γ.after s).Same := by
  cases s with
  | varDecl | funDecl | classDecl => exact h.declare _
  | _ => exact h

theorem Same.declares (h : Γ.Same) (opens : Γ.Open) (name : String) : Γ.Declares name name := by
  cases opens with
  | nil => exact rfl
  | both => cases h; exact rfl

theorem Meets.both {found found' : Option Nat} (h : Γ.Meets name name' found found') :
    Meets (.both ρ names :: Γ) name name' (found.map (· + 1)) (found'.map (· + 1)) := by
  cases h with
  | global same => exact .global same
  | scope place mem called => exact .scope (.both place) mem called

theorem Meets.right {found found' : Option Nat} (h : Γ.Meets name name' found found') :
    Meets (.right :: Γ) name name' found (found'.map (· + 1)) := by
  cases h with
  | global same => exact .global same
  | scope place mem called => exact .scope (.right place) mem called

theorem distance?_here (mem : name ∈ names) (scopes : Scopes) :
    distance? name (names :: scopes) = some 0 := by
  simp [distance?, List.findIdx?_cons, mem]

theorem Same.meets (h : Γ.Same) (name : String) :
    Γ.Meets name name (distance? name Γ.left) (distance? name Γ.right) := by
  induction h with
  | nil => exact .global rfl
  | @both Γ names _ ih =>
      rw [ScopePairs.left, ScopePairs.right, Equiv.coe_refl, List.map_id]
      by_cases mem : name ∈ names
      · rw [distance?_here mem, distance?_here mem]
        exact .scope .here mem rfl
      · rw [distance?_inner mem, distance?_inner mem]
        exact ih.both
  | right _ ih =>
      rw [ScopePairs.left, ScopePairs.right, distance?_inner List.not_mem_nil]
      exact ih.right

end ScopePairs

def avoiding (others : List String) : Set (Setting × Mention) :=
  {x | ∀ name ∈ x.2.name?, (Mention.binder name).Ordinary ∧ name ∉ others}

/-- A statement that mentions none of these names and can stand at a place. -/
structure Stands (others : List String) (V : Set (Scopes × Expr)) (Γ : ScopePairs) (s : Stmt) :
    Prop where
  regular : Γ.Regular
  opens : s.isDeclaration = true → Γ.Open
  proper : s.Proper
  mentions : ∃ setting, Within (avoiding others) (stmtMentions setting s)
  visits : Within V (stmtVisits Γ.left s)

structure StandsAll (others : List String) (V : Set (Scopes × Expr)) (Γ : ScopePairs)
    (ss : List Stmt) : Prop where
  opens : Γ.Open
  proper : ProperStmts ss
  mentions : ∃ setting, Within (avoiding others) (stmtsMentions setting ss)
  visits : Within V (stmtsVisits Γ.left ss)

structure StandsFunction (others : List String) (V : Set (Scopes × Expr)) (Γ : ScopePairs)
    (f : FunctionDecl Stmt) : Prop where
  regular : Γ.Regular
  proper : ProperFunction f
  mentions : ∃ setting, Within (avoiding others) (functionMentions setting f)
  visits : Within V (functionVisits Γ.left f)

structure StandsMethods (others : List String) (V : Set (Scopes × Expr)) (Γ : ScopePairs)
    (ms : List (FunctionDecl Stmt)) : Prop where
  regular : Γ.Regular
  proper : ProperMethods ms
  mentions : ∃ setting, Within (avoiding others) (methodsMentions setting ms)
  visits : Within V (methodsVisits Γ.left ms)

section

variable {s : Stmt} {ss : List Stmt} {f : FunctionDecl Stmt} {ms : List (FunctionDecl Stmt)}

theorem ne_super_of_binder {setting : Setting} {mentions : List (Setting × Mention)}
    (h : Within (avoiding others) ((setting, .binder name) :: mentions)) : name ≠ "super" :=
  ((within_cons.mp h).1 name rfl).1.2

theorem StandsAll.first (h : StandsAll others V Γ (s :: ss)) : Stands others V Γ s := by
  obtain ⟨setting, mentions⟩ := h.mentions
  exact ⟨h.opens.regular, fun _ => h.opens, h.proper.1, ⟨setting, (within_append.mp mentions).1⟩,
    (within_append.mp h.visits).1⟩

theorem StandsAll.rest (h : StandsAll others V Γ (s :: ss)) :
    StandsAll others V (Γ.after s) ss := by
  obtain ⟨setting, mentions⟩ := h.mentions
  obtain ⟨here, others⟩ := within_append.mp mentions
  have visits := (within_append.mp h.visits).2
  refine ⟨?_, h.proper.2, ⟨setting, others⟩, ?_⟩
  · cases s with
    | varDecl | funDecl => exact h.opens.declare (ne_super_of_binder here)
    | classDecl decl =>
        rw [stmtMentions, classMentions_eq] at here
        exact h.opens.declare (ne_super_of_binder here)
    | _ => exact h.opens
  · cases s with
    | varDecl | funDecl | classDecl =>
        rw [ScopePairs.after, h.opens.left_declare]
        exact visits
    | _ => exact visits

theorem Stands.block {body : List Stmt} {line : Nat} (h : Stands others V Γ (.block body line))
    (fixed : ρ "super" = "super") : StandsAll others V (.both ρ [] :: Γ) body := by
  obtain ⟨setting, mentions⟩ := h.mentions
  exact ⟨.both List.not_mem_nil fixed h.regular, h.proper, ⟨setting.inner, mentions⟩, h.visits⟩

theorem Stands.thenBranch {c : Expr} {other : Option Stmt}
    (h : Stands others V Γ (.branch c s other)) : Stands others V Γ s := by
  obtain ⟨setting, mentions⟩ := h.mentions
  refine ⟨h.regular, fun declares => ?_, h.proper.1.2,
    ⟨setting, (within_append.mp (within_append.mp mentions).1).2⟩,
    (within_append.mp (within_append.mp h.visits).1).2⟩
  rw [h.proper.1.1] at declares
  cases declares

theorem Stands.elseBranch {c : Expr} {other : Option Stmt}
    (h : Stands others V Γ (.branch c s other)) : ∀ s' ∈ other, Stands others V Γ s' := by
  rintro s' rfl
  obtain ⟨setting, mentions⟩ := h.mentions
  refine ⟨h.regular, fun declares => ?_, h.proper.2.2,
    ⟨setting, (within_append.mp mentions).2⟩, (within_append.mp h.visits).2⟩
  rw [h.proper.2.1] at declares
  cases declares

theorem Stands.body {c : Expr} {e : Option Expr} (h : Stands others V Γ (.loop c s e)) :
    Stands others V Γ s := by
  obtain ⟨setting, mentions⟩ := h.mentions
  refine ⟨h.regular, fun declares => ?_, h.proper.2,
    ⟨setting, (within_append.mp (within_append.mp mentions).1).2⟩,
    (within_append.mp (within_append.mp h.visits).1).2⟩
  rw [h.proper.1] at declares
  cases declares

theorem Stands.inBlock (h : Stands others V Γ s) (plain : s.isDeclaration = false) :
    Stands others V (.right :: Γ) s where
  regular := .right h.regular
  opens declares := by
    rw [plain] at declares
    cases declares
  proper := h.proper
  mentions := h.mentions
  visits := h.visits

theorem Stands.function (h : Stands others V Γ (.funDecl f)) :
    StandsFunction others V (Γ.declare f.name.lexeme) f := by
  obtain ⟨setting, mentions⟩ := h.mentions
  have opens := h.opens rfl
  refine ⟨(opens.declare (ne_super_of_binder mentions)).regular, h.proper,
    ⟨setting, (within_cons.mp mentions).2⟩, ?_⟩
  rw [opens.left_declare]
  exact h.visits

theorem StandsFunction.body (h : StandsFunction others V Γ f)
    (fixed : ρ "super" = "super") :
    StandsAll others V (.both ρ (f.params.map Token.lexeme).reverse :: Γ) f.body := by
  obtain ⟨name, params, body⟩ := f
  obtain ⟨setting, mentions⟩ := h.mentions
  obtain ⟨binders, mentions⟩ := within_append.mp mentions
  have absent : "super" ∉ (params.map Token.lexeme).reverse :=
    not_mem_params fun _ mem => (binders _ (List.mem_map_of_mem mem) _ rfl).1.2
  exact ⟨.both absent fixed h.regular, h.proper, ⟨setting.inner, mentions⟩, h.visits⟩

theorem StandsMethods.first (h : StandsMethods others V Γ (f :: ms)) :
    StandsFunction others V Γ f := by
  obtain ⟨setting, mentions⟩ := h.mentions
  exact ⟨h.regular, h.proper.1, ⟨setting, (within_append.mp mentions).1⟩,
    (within_append.mp h.visits).1⟩

theorem StandsMethods.rest (h : StandsMethods others V Γ (f :: ms)) :
    StandsMethods others V Γ ms := by
  obtain ⟨setting, mentions⟩ := h.mentions
  exact ⟨h.regular, h.proper.2, ⟨setting, (within_append.mp mentions).2⟩,
    (within_append.mp h.visits).2⟩

theorem Stands.base {name : Token}
    (h : Stands others V Γ (.classDecl ⟨name, none, ms⟩)) :
    StandsMethods others V (.single "this" :: Γ.declare name.lexeme) ms := by
  obtain ⟨setting, mentions⟩ := h.mentions
  have opens := h.opens rfl
  have regular := (opens.declare (ne_super_of_binder mentions)).regular
  refine ⟨.both (by decide) (by simp) regular, h.proper,
    ⟨.method ⟨name, none, ms⟩ 0, (within_cons.mp mentions).2⟩, ?_⟩
  rw [ScopePairs.left, opens.left_declare]
  exact h.visits

theorem Stands.sub {name : Token} {parent : Occurrence}
    (h : Stands others V Γ (.classDecl ⟨name, some parent, ms⟩)) :
    StandsMethods others V (.single "this" :: .single "super" :: Γ.declare name.lexeme) ms := by
  obtain ⟨setting, mentions⟩ := h.mentions
  have opens := h.opens rfl
  have regular := (opens.declare (ne_super_of_binder mentions)).regular
  refine ⟨.methods regular, h.proper,
    ⟨.method ⟨name, some parent, ms⟩ 0, (within_append.mp (within_cons.mp mentions).2).2⟩, ?_⟩
  rw [ScopePairs.left, ScopePairs.left, opens.left_declare]
  exact (within_cons.mp h.visits).2

end

theorem placedAlike_self (same : Γ.Same) (o : Occurrence) (name : String) :
    PlacedAlike Γ o o name name :=
  ⟨rfl, rfl, same.meets name⟩

mutual

theorem similarExpr_self (same : Γ.Same) (regular : Γ.Regular) :
    (e : Expr) → SimilarExpr PlacedAlike Γ e e
  | .literal value line => .literal value line
  | .grouping e => .grouping (similarExpr_self same regular e)
  | .var o => .var (placedAlike_self same o _)
  | .assign o e => .assign (placedAlike_self same o _) (similarExpr_self same regular e)
  | .logical l operator r =>
      .logical operator (similarExpr_self same regular l) (similarExpr_self same regular r)
  | .binary l operator r =>
      .binary operator (similarExpr_self same regular l) (similarExpr_self same regular r)
  | .unary operator e => .unary operator (similarExpr_self same regular e)
  | .call e paren es =>
      .call paren (similarExpr_self same regular e) (similarExprs_self same regular es)
  | .get e name => .get name (similarExpr_self same regular e)
  | .set e name v => .set name (similarExpr_self same regular e) (similarExpr_self same regular v)
  | .this o => .this (placedAlike_self same o _)
  | .super o method => .super method (placedAlike_self same o _) regular

theorem similarExprs_self (same : Γ.Same) (regular : Γ.Regular) :
    (es : List Expr) → SimilarExprs PlacedAlike Γ es es
  | [] => .nil
  | e :: es => .cons (similarExpr_self same regular e) (similarExprs_self same regular es)

end

theorem similarOptional_self (same : Γ.Same) (regular : Γ.Regular) :
    (e : Option Expr) → SimilarOptional PlacedAlike Γ e e
  | none => .none
  | some e => .some (similarExpr_self same regular e)

mutual

theorem similarPlain_self : {Γ : ScopePairs} → Γ.Same → (s : Stmt) →
    Stands others V Γ s → SimilarPlain PlacedAlike wraps Γ s s
  | _, same, .expression e, h => .expression (similarExpr_self same h.regular e)
  | _, same, .print e, h => .print (similarExpr_self same h.regular e)
  | _, same, .varDecl _ e, h =>
      .varDecl rfl (same.declares (h.opens rfl) _) (similarOptional_self same h.regular e)
  | _, same, .block body line, h =>
      .block (.refl _) line (similarStmts_self (.both same) body (h.block rfl))
  | _, same, .branch c s other, h =>
      .branch (similarExpr_self same h.regular c) (.plain (similarPlain_self same s h.thenBranch))
        (similarBranch_self same other h.elseBranch)
  | _, same, .loop c s e, h =>
      .loop (similarExpr_self same h.regular c) (.plain (similarPlain_self same s h.body))
        (similarOptional_self same h.regular e)
  | _, same, .funDecl f, h =>
      .funDecl (same.declares (h.opens rfl) _)
        (similarFunction_self (same.declare _) f h.function)
  | _, same, .classDecl ⟨_, none, ms⟩, h =>
      .classDecl (same.declares (h.opens rfl) _)
        (.base (similarMethods_self (.both (same.declare _)) ms h.base))
  | _, same, .classDecl ⟨_, some parent, ms⟩, h =>
      .classDecl (same.declares (h.opens rfl) _)
        (.sub (placedAlike_self (same.declare _) parent _) rfl
          (similarMethods_self (.both (.both (same.declare _))) ms h.sub))
  | _, same, .return keyword e, h => .return keyword (similarOptional_self same h.regular e)
  | _, _, .break keyword, _ => .break keyword
  | _, _, .continue keyword, _ => .continue keyword

theorem similarStmts_self : {Γ : ScopePairs} → Γ.Same → (ss : List Stmt) →
    StandsAll others V Γ ss → SimilarStmts PlacedAlike wraps Γ ss ss
  | _, _, [], _ => .nil
  | _, same, s :: ss, h =>
      .cons (.plain (similarPlain_self same s h.first))
        (similarStmts_self (same.after s) ss h.rest)

theorem similarBranch_self : {Γ : ScopePairs} → Γ.Same → (s : Option Stmt) →
    (∀ s' ∈ s, Stands others V Γ s') → SimilarOptionalStmt PlacedAlike wraps Γ s s
  | _, _, none, _ => .none
  | _, same, some s, h => .some (.plain (similarPlain_self same s (h s rfl)))

theorem similarFunction_self : {Γ : ScopePairs} → Γ.Same → (f : FunctionDecl Stmt) →
    StandsFunction others V Γ f → SimilarFunction PlacedAlike wraps Γ f f
  | _, same, ⟨_, _, body⟩, h =>
      .intro (.refl _) (List.map_id _).symm
        (similarStmts_self (.both same) body (h.body rfl))

theorem similarMethods_self : {Γ : ScopePairs} → Γ.Same → (ms : List (FunctionDecl Stmt)) →
    StandsMethods others V Γ ms → SimilarMethods PlacedAlike wraps Γ ms ms
  | _, _, [], _ => .nil
  | _, same, f :: ms, h =>
      .cons (similarFunction_self same f h.first) (similarMethods_self same ms h.rest)

end

end ClassScript
