import ClassScript.Proofs.Binding.Noted
import ClassScript.Proofs.Similar.Programs

namespace ClassScript

open Binding

/-- Occurrences with one identity, which find the same in the scopes around them. -/
structure PlacedAlike (Γ : ScopePairs) (o o' : Occurrence) (name name' : String) : Prop where
  id : o'.id = o.id
  line : o'.token.line = o.token.line
  meets : Γ.Meets name name' (distance? name Γ.left) (distance? name' Γ.right)

structure SeenAlike (Γ : ScopePairs) (o o' : Occurrence) (name name' : String) : Prop where
  line : o'.token.line = o.token.line
  meets : Γ.Meets name name' (distance? name Γ.left) (distance? name' Γ.right)

theorem PlacedAlike.seen {Γ : ScopePairs} {o o' : Occurrence} {name name' : String}
    (h : PlacedAlike Γ o o' name name') : SeenAlike Γ o o' name name' := ⟨h.line, h.meets⟩

structure RecordedAlike (d d' : Distances) (Γ : ScopePairs) (o o' : Occurrence)
    (name name' : String) : Prop where
  line : o'.token.line = o.token.line
  meets : Γ.Meets name name' d[o.id]? d'[o'.id]?

variable {R : OccurrencePairs} {wraps : Prop} {Γ : ScopePairs} {d d' : Distances}

/-! ## Acceptance -/

namespace Binding

def Follows (first second : Walk) : Prop :=
  ∀ d d' e, first d = .ok () d' → ∃ e', second e = .ok () e'

variable {one two one' two' walk : Walk} {around : Enclosing} {scopes scopes' : Scopes}

theorem follows_note (name : String) (o : Occurrence) : Follows walk (note scopes name o) := by
  intro d d' e _
  unfold note
  cases distance? name scopes <;> exact ⟨_, rfl⟩

theorem follows_pure : Follows walk (pure ()) := fun _ _ e _ => ⟨e, rfl⟩

theorem follows_throw (e : BindingError) : Follows (throw e) walk := nofun

theorem Follows.then (h : Follows one one') (h' : Follows two two') :
    Follows (do one; two) (do one'; two') := by
  intro d d' e run
  obtain ⟨middle, ran, rest⟩ := walk_then.mp run
  obtain ⟨middle', ran'⟩ := h _ _ e ran
  obtain ⟨last, rest'⟩ := h' _ _ middle' rest
  exact ⟨last, walk_then.mpr ⟨middle', ran', rest'⟩⟩

mutual

theorem follows_expr : {e e' : Expr} → SimilarExpr R Γ e e' →
    Follows (walkExpr around scopes e) (walkExpr around scopes' e')
  | _, _, .literal _ _ => follows_pure
  | _, _, .grouping h | _, _, .unary _ h | _, _, .get _ h => (follows_expr h :)
  | _, _, .var _ => follows_note _ _
  | _, _, .assign _ h => (follows_expr h).then (follows_note _ _)
  | _, _, .logical _ l r | _, _, .binary _ l r | _, _, .set _ r l =>
      (follows_expr l).then (follows_expr r)
  | _, _, .call _ h hs => (follows_expr h).then (follows_exprs hs)
  | _, _, .this _ => by
      cases around with
      | noClass => exact follows_throw _
      | baseClass | subclass => exact follows_note _ _
  | _, _, .super _ _ _ => by
      cases around with
      | noClass | baseClass => exact follows_throw _
      | subclass => exact follows_note _ _

theorem follows_exprs : {es es' : List Expr} → SimilarExprs R Γ es es' →
    Follows (walkExprs around scopes es) (walkExprs around scopes' es')
  | _, _, .nil => follows_pure
  | _, _, .cons h hs => (follows_expr h).then (follows_exprs hs)

end

theorem follows_optional {e e' : Option Expr} (h : SimilarOptional R Γ e e') :
    Follows (walkOptional around scopes e) (walkOptional around scopes' e') := by
  cases h with
  | none => exact follows_pure
  | some h => exact follows_expr h

theorem Follows.single (h : Follows one one') : Follows one (do one'; pure ()) := by
  intro d d' e run
  obtain ⟨last, run'⟩ := h _ _ e run
  exact ⟨last, walk_then.mpr ⟨last, run', rfl⟩⟩

theorem Follows.of_single (h : Follows one one') : Follows (do one; pure ()) one' := by
  intro d d' e run
  obtain ⟨middle, ran, -⟩ := walk_then.mp run
  exact h _ _ e ran

theorem follows_condition {c c' : Expr} (h : SimilarCondition R Γ c c') :
    Follows (walkExpr around scopes c) (walkExpr around scopes' c') := by
  cases h with
  | same h => exact follows_expr h
  | constant => exact follows_pure

theorem follows_increments {e e' : Option Expr} (h : SimilarOptional R Γ e e') :
    Follows (walkOptional around scopes e) (walkStmts around scopes' (increments e')) := by
  cases h with
  | none => exact follows_pure
  | some h => exact (follows_expr h).single

theorem increments_follow {e e' : Option Expr} (h : SimilarOptional R Γ e e') :
    Follows (walkStmts around scopes (increments e)) (walkOptional around scopes' e') := by
  cases h with
  | none => exact follows_pure
  | some h => exact (follows_expr h).of_single

mutual

theorem follows_stmt {around : Enclosing} : {Γ : ScopePairs} → {scopes scopes' : Scopes} →
    {s s' : Stmt} → SimilarStmt R wraps Γ s s' →
    Follows (walkStmt around scopes s) (walkStmt around scopes' s')
  | _, _, _, _, _, .plain h => follows_plain h
  | _, _, _, _, _, .wrapLeft _ _ h => (follows_plain h).of_single
  | _, _, _, _, _, .wrapRight _ _ h => (follows_plain h).single

theorem follows_plain {around : Enclosing} : {Γ : ScopePairs} → {scopes scopes' : Scopes} →
    {s s' : Stmt} → SimilarPlain R wraps Γ s s' →
    Follows (walkStmt around scopes s) (walkStmt around scopes' s')
  | _, _, _, _, _, .expression h | _, _, _, _, _, .print h => follows_expr h
  | _, _, _, _, _, .varDecl _ _ h | _, _, _, _, _, .return _ h => follows_optional h
  | _, _, _, _, _, .scope _ _ h => follows_stmts h
  | _, _, _, _, _, .branch c h other =>
      (follows_expr c).then ((follows_stmt h).then (follows_optionalStmt other))
  | _, _, _, _, _, .loop c h e =>
      (follows_expr c).then ((follows_stmt h).then (follows_optional e))
  | _, _, _, _, _, .expandRight _ _ _ c h e =>
      (follows_condition c).then ((follows_plain h).then (follows_increments e)).single
  | _, _, _, _, _, .expandLeft _ _ _ c h e =>
      (follows_condition c).then ((follows_plain h).then (increments_follow e)).of_single
  | _, _, _, _, _, .funDecl _ h => follows_function h
  | _, _, _, _, _, .classDecl _ h => follows_class h
  | _, _, _, _, _, .break _ | _, _, _, _, _, .continue _ => follows_pure

theorem follows_stmts {around : Enclosing} : {Γ : ScopePairs} → {scopes scopes' : Scopes} →
    {ss ss' : List Stmt} → SimilarStmts R wraps Γ ss ss' →
    Follows (walkStmts around scopes ss) (walkStmts around scopes' ss')
  | _, _, _, _, _, .nil => follows_pure
  | _, _, _, _, _, .cons h hs => (follows_stmt h).then (follows_stmts hs)

theorem follows_optionalStmt {around : Enclosing} : {Γ : ScopePairs} → {scopes scopes' : Scopes} →
    {s s' : Option Stmt} → SimilarOptionalStmt R wraps Γ s s' →
    Follows (walkOptionalStmt around scopes s) (walkOptionalStmt around scopes' s')
  | _, _, _, _, _, .none => follows_pure
  | _, _, _, _, _, .some h => follows_stmt h

theorem follows_function {around : Enclosing} : {Γ : ScopePairs} → {scopes scopes' : Scopes} →
    {f f' : FunctionDecl Stmt} → SimilarFunction R wraps Γ f f' →
    Follows (walkFunction around scopes f) (walkFunction around scopes' f')
  | _, _, _, _, _, .intro _ _ h => follows_stmts h

theorem follows_methods {around : Enclosing} : {Γ : ScopePairs} → {scopes scopes' : Scopes} →
    {ms ms' : List (FunctionDecl Stmt)} → SimilarMethods R wraps Γ ms ms' →
    Follows (walkMethods around scopes ms) (walkMethods around scopes' ms')
  | _, _, _, _, _, .nil => follows_pure
  | _, _, _, _, _, .cons h hs => (follows_function h).then (follows_methods hs)

theorem follows_class : {Γ : ScopePairs} → {scopes scopes' : Scopes} → {c c' : ClassDecl Stmt} →
    SimilarClass R wraps Γ c c' → Follows (walkClass scopes c) (walkClass scopes' c')
  | _, _, _, _, _, .base h => follows_methods h
  | _, _, _, _, _, .sub _ _ h => (follows_note _ _).then (follows_methods h)

end

end Binding

/-! ## Identities -/

def SameIds (R : OccurrencePairs) : Prop := ∀ {Γ o o' n n'}, R Γ o o' n n' → o'.id = o.id

mutual

theorem SimilarExpr.ids (same : SameIds R) : {Γ : ScopePairs} → {e e' : Expr} →
    SimilarExpr R Γ e e' → e'.ids = e.ids
  | _, _, _, .literal _ _ => rfl
  | _, _, _, .grouping h | _, _, _, .unary _ h | _, _, _, .get _ h => h.ids same
  | _, _, _, .var h | _, _, _, .this h | _, _, _, .super _ h _ => congrArg ([·]) (same h)
  | _, _, _, .assign o h => congrArg₂ (· :: ·) (same o) (h.ids same)
  | _, _, _, .logical _ l r | _, _, _, .binary _ l r | _, _, _, .set _ r l =>
      congrArg₂ (· ++ ·) (l.ids same) (r.ids same)
  | _, _, _, .call _ h hs => congrArg₂ (· ++ ·) (h.ids same) (hs.ids same)

theorem SimilarExprs.ids (same : SameIds R) : {Γ : ScopePairs} → {es es' : List Expr} →
    SimilarExprs R Γ es es' → exprsIds es' = exprsIds es
  | _, _, _, .nil => rfl
  | _, _, _, .cons h hs => congrArg₂ (· ++ ·) (h.ids same) (hs.ids same)

end

theorem SimilarOptional.ids (same : SameIds R) {e e' : Option Expr} (h : SimilarOptional R Γ e e') :
    optionalIds e' = optionalIds e := by
  cases h with
  | none => rfl
  | some h => exact h.ids same

theorem SimilarCondition.ids (same : SameIds R) {c c' : Expr} (h : SimilarCondition R Γ c c') :
    c'.ids = c.ids := by
  cases h with
  | same h => exact h.ids same
  | constant => rfl

theorem ids_expanded (c : Expr) (s : Stmt) (e : Option Expr) (line : Nat) :
    (Stmt.loop c (.block (s :: increments e) line) none).ids = (Stmt.loop c s e).ids := by
  cases e with
  | none => simp [increments, Stmt.ids, stmtsIds, optionalIds]
  | some e => simp [increments, Stmt.ids, stmtsIds, optionalIds]

mutual

theorem SimilarStmt.ids (same : SameIds R) : {Γ : ScopePairs} → {s s' : Stmt} →
    SimilarStmt R wraps Γ s s' → s'.ids = s.ids
  | _, _, _, .plain h => h.ids same
  | _, _, _, .wrapLeft _ _ h => (h.ids same).trans (List.append_nil _).symm
  | _, _, _, .wrapRight _ _ h => (List.append_nil _).trans (h.ids same)

theorem SimilarPlain.ids (same : SameIds R) : {Γ : ScopePairs} → {s s' : Stmt} →
    SimilarPlain R wraps Γ s s' → s'.ids = s.ids
  | _, _, _, .expression h | _, _, _, .print h => h.ids same
  | _, _, _, .varDecl _ _ h | _, _, _, .return _ h => h.ids same
  | _, _, _, .scope _ _ h => h.ids same
  | _, _, _, .branch c h other =>
      congrArg₂ (· ++ ·) (congrArg₂ (· ++ ·) (c.ids same) (h.ids same)) (other.ids same)
  | _, _, _, .loop c h e =>
      congrArg₂ (· ++ ·) (congrArg₂ (· ++ ·) (c.ids same) (h.ids same)) (e.ids same)
  | _, _, _, .expandRight _ _ _ c h e =>
      (ids_expanded _ _ _ _).trans
        (congrArg₂ (· ++ ·) (congrArg₂ (· ++ ·) (c.ids same) (h.ids same)) (e.ids same))
  | _, _, _, .expandLeft _ _ _ c h e =>
      (congrArg₂ (· ++ ·) (congrArg₂ (· ++ ·) (c.ids same) (h.ids same)) (e.ids same)).trans
        (ids_expanded _ _ _ _).symm
  | _, _, _, .funDecl _ h => h.ids same
  | _, _, _, .classDecl _ h => h.ids same
  | _, _, _, .break _ | _, _, _, .continue _ => rfl

theorem SimilarStmts.ids (same : SameIds R) : {Γ : ScopePairs} → {ss ss' : List Stmt} →
    SimilarStmts R wraps Γ ss ss' → stmtsIds ss' = stmtsIds ss
  | _, _, _, .nil => rfl
  | _, _, _, .cons h hs => congrArg₂ (· ++ ·) (h.ids same) (hs.ids same)

theorem SimilarOptionalStmt.ids (same : SameIds R) : {Γ : ScopePairs} → {s s' : Option Stmt} →
    SimilarOptionalStmt R wraps Γ s s' → optionalStmtIds s' = optionalStmtIds s
  | _, _, _, .none => rfl
  | _, _, _, .some h => h.ids same

theorem SimilarFunction.ids (same : SameIds R) : {Γ : ScopePairs} → {f f' : FunctionDecl Stmt} →
    SimilarFunction R wraps Γ f f' → functionIds f' = functionIds f
  | _, _, _, .intro _ _ h => h.ids same

theorem SimilarMethods.ids (same : SameIds R) : {Γ : ScopePairs} →
    {ms ms' : List (FunctionDecl Stmt)} → SimilarMethods R wraps Γ ms ms' →
    methodsIds ms' = methodsIds ms
  | _, _, _, .nil => rfl
  | _, _, _, .cons h hs => congrArg₂ (· ++ ·) (h.ids same) (hs.ids same)

theorem SimilarClass.ids (same : SameIds R) : {Γ : ScopePairs} → {c c' : ClassDecl Stmt} →
    SimilarClass R wraps Γ c c' → classIds c' = classIds c
  | _, _, _, .base h => h.ids same
  | _, _, _, .sub parent _ h => congrArg₂ (· :: ·) (same parent) (h.ids same)

end

/-! ## Recorded distances -/

def exactIn (d : Distances) : Set (Scopes × Expr) :=
  {x | ∀ o name, x.2.occurrence? = some (o, name) → d[o.id]? = distance? name x.1}

def Sees (R : OccurrencePairs) : Prop :=
  ∀ {Γ o o' name name'}, R Γ o o' name name' → SeenAlike Γ o o' name name'

theorem SeenAlike.recorded {o o' : Occurrence} {name name' : String} {e e' : Expr}
    (h : SeenAlike Γ o o' name name') (exact : (Γ.left, e) ∈ exactIn d)
    (exact' : (Γ.right, e') ∈ exactIn d') (occurs : e.occurrence? = some (o, name))
    (occurs' : e'.occurrence? = some (o', name')) : RecordedAlike d d' Γ o o' name name' := by
  refine ⟨h.line, ?_⟩
  rw [exact o name occurs, exact' o' name' occurs']
  exact h.meets

mutual

theorem SimilarExpr.recorded (seen : Sees R) : {e e' : Expr} → SimilarExpr R Γ e e' →
    Within (exactIn d) (exprVisits Γ.left e) → Within (exactIn d') (exprVisits Γ.right e') →
    SimilarExpr (RecordedAlike d d') Γ e e'
  | _, _, .literal value line, _, _ => .literal value line
  | _, _, .grouping h, ex, ex' =>
      .grouping (h.recorded seen (within_cons.mp ex).2 (within_cons.mp ex').2)
  | _, _, .var h, ex, ex' =>
      .var ((seen h).recorded (within_cons.mp ex).1 (within_cons.mp ex').1 rfl rfl)
  | _, _, .assign o h, ex, ex' =>
      .assign ((seen o).recorded (within_cons.mp ex).1 (within_cons.mp ex').1 rfl rfl)
        (h.recorded seen (within_cons.mp ex).2 (within_cons.mp ex').2)
  | _, _, .logical operator l r, ex, ex' =>
      have both := within_append.mp (within_cons.mp ex).2
      have both' := within_append.mp (within_cons.mp ex').2
      .logical operator (l.recorded seen both.1 both'.1) (r.recorded seen both.2 both'.2)
  | _, _, .binary operator l r, ex, ex' =>
      have both := within_append.mp (within_cons.mp ex).2
      have both' := within_append.mp (within_cons.mp ex').2
      .binary operator (l.recorded seen both.1 both'.1) (r.recorded seen both.2 both'.2)
  | _, _, .unary operator h, ex, ex' =>
      .unary operator (h.recorded seen (within_cons.mp ex).2 (within_cons.mp ex').2)
  | _, _, .call paren h hs, ex, ex' =>
      have both := within_append.mp (within_cons.mp ex).2
      have both' := within_append.mp (within_cons.mp ex').2
      .call paren (h.recorded seen both.1 both'.1) (hs.recorded seen both.2 both'.2)
  | _, _, .get name h, ex, ex' =>
      .get name (h.recorded seen (within_cons.mp ex).2 (within_cons.mp ex').2)
  | _, _, .set name h v, ex, ex' =>
      have both := within_append.mp (within_cons.mp ex).2
      have both' := within_append.mp (within_cons.mp ex').2
      .set name (h.recorded seen both.2 both'.2) (v.recorded seen both.1 both'.1)
  | _, _, .this h, ex, ex' =>
      .this ((seen h).recorded (within_cons.mp ex).1 (within_cons.mp ex').1 rfl rfl)
  | _, _, .super method h regular, ex, ex' =>
      .super method ((seen h).recorded (within_cons.mp ex).1 (within_cons.mp ex').1 rfl rfl) regular

theorem SimilarExprs.recorded (seen : Sees R) : {es es' : List Expr} → SimilarExprs R Γ es es' →
    Within (exactIn d) (exprsVisits Γ.left es) → Within (exactIn d') (exprsVisits Γ.right es') →
    SimilarExprs (RecordedAlike d d') Γ es es'
  | _, _, .nil, _, _ => .nil
  | _, _, .cons h hs, ex, ex' =>
      have both := within_append.mp ex
      have both' := within_append.mp ex'
      .cons (h.recorded seen both.1 both'.1) (hs.recorded seen both.2 both'.2)

end

theorem SimilarOptional.recorded (seen : Sees R) {e e' : Option Expr} (h : SimilarOptional R Γ e e')
    (ex : Within (exactIn d) (optionalVisits Γ.left e))
    (ex' : Within (exactIn d') (optionalVisits Γ.right e')) :
    SimilarOptional (RecordedAlike d d') Γ e e' := by
  cases h with
  | none => exact .none
  | some h => exact .some (h.recorded seen ex ex')

theorem SimilarCondition.recorded (seen : Sees R) {c c' : Expr} (h : SimilarCondition R Γ c c')
    (ex : Within (exactIn d) (exprVisits Γ.left c))
    (ex' : Within (exactIn d') (exprVisits Γ.right c')) :
    SimilarCondition (RecordedAlike d d') Γ c c' := by
  cases h with
  | same h => exact .same (h.recorded seen ex ex')
  | constant value line line' => exact .constant value line line'

theorem within_expanded {V : Set (Scopes × Expr)} {scopes : Scopes} {c : Expr} {s : Stmt}
    {e : Option Expr} {line : Nat} (plain : scopesAfter ([] :: scopes) s = [] :: scopes)
    (h : Within V (stmtVisits scopes (.loop c (.block (s :: increments e) line) none))) :
    Within V (exprVisits scopes c) ∧ Within V (stmtVisits ([] :: scopes) s) ∧
      Within V (optionalVisits ([] :: scopes) e) := by
  obtain ⟨condition, block⟩ := within_append.mp (within_append.mp h).1
  obtain ⟨body, rest⟩ := within_append.mp block
  refine ⟨condition, body, ?_⟩
  rw [plain] at rest
  cases e with
  | none => exact rest
  | some e => exact (within_append.mp rest).1

mutual

theorem SimilarStmt.recorded (seen : Sees R) : {Γ : ScopePairs} → {s s' : Stmt} →
    SimilarStmt R wraps Γ s s' → Within (exactIn d) (stmtVisits Γ.left s) →
    Within (exactIn d') (stmtVisits Γ.right s') → SimilarStmt (RecordedAlike d d') wraps Γ s s'
  | _, _, _, .plain h, ex, ex' => .plain (h.recorded seen ex ex')
  | _, _, _, .wrapLeft line allowed h, ex, ex' =>
      .wrapLeft line allowed (h.recorded seen (within_append.mp ex).1 ex')
  | _, _, _, .wrapRight line allowed h, ex, ex' =>
      .wrapRight line allowed (h.recorded seen ex (within_append.mp ex').1)

theorem SimilarPlain.recorded (seen : Sees R) : {Γ : ScopePairs} → {s s' : Stmt} →
    SimilarPlain R wraps Γ s s' → Within (exactIn d) (stmtVisits Γ.left s) →
    Within (exactIn d') (stmtVisits Γ.right s') → SimilarPlain (RecordedAlike d d') wraps Γ s s'
  | _, _, _, .expression h, ex, ex' => .expression (h.recorded seen ex ex')
  | _, _, _, .print h, ex, ex' => .print (h.recorded seen ex ex')
  | _, _, _, .varDecl line declares h, ex, ex' => .varDecl line declares (h.recorded seen ex ex')
  | _, _, _, .scope ρ same h, ex, ex' => .scope ρ same (h.recorded seen ex ex')
  | _, _, _, .branch c h other, ex, ex' =>
      have all := within_append.mp ex
      have all' := within_append.mp ex'
      have both := within_append.mp all.1
      have both' := within_append.mp all'.1
      .branch (c.recorded seen both.1 both'.1) (h.recorded seen both.2 both'.2) (other.recorded seen all.2 all'.2)
  | _, _, _, .loop c h e, ex, ex' =>
      have all := within_append.mp ex
      have all' := within_append.mp ex'
      have both := within_append.mp all.1
      have both' := within_append.mp all'.1
      .loop (c.recorded seen both.1 both'.1) (h.recorded seen both.2 both'.2)
        (e.recorded seen all.2 all'.2)
  | _, _, _, .expandRight line allowed absent c h e, ex, ex' =>
      have all := within_append.mp ex
      have both := within_append.mp all.1
      have all' := within_expanded (h.after_wrapped (.inr rfl) [] _).2.2 ex'
      .expandRight line allowed absent (c.recorded seen both.1 all'.1)
        (h.recorded seen both.2 all'.2.1) (e.recorded seen all.2 all'.2.2)
  | _, _, _, .expandLeft line allowed absent c h e, ex, ex' =>
      have all := within_expanded (h.after_wrapped (.inl rfl) [] _).2.1 ex
      have all' := within_append.mp ex'
      have both' := within_append.mp all'.1
      .expandLeft line allowed absent (c.recorded seen all.1 both'.1)
        (h.recorded seen all.2.1 both'.2) (e.recorded seen all.2.2 all'.2)
  | _, _, _, .funDecl declares h, ex, ex' => by
      refine .funDecl declares (h.recorded seen ?_ ?_)
      · rw [declares.left]
        exact ex
      · rw [declares.right, ← h.same_name]
        exact ex'
  | _, _, _, .classDecl declares h, ex, ex' =>
      .classDecl declares (h.recorded seen declares.left declares.right ex ex')
  | _, _, _, .return keyword h, ex, ex' => .return keyword (h.recorded seen ex ex')
  | _, _, _, .break keyword, _, _ => .break keyword
  | _, _, _, .continue keyword, _, _ => .continue keyword

theorem SimilarStmts.recorded (seen : Sees R) : {Γ : ScopePairs} → {ss ss' : List Stmt} →
    SimilarStmts R wraps Γ ss ss' → Within (exactIn d) (stmtsVisits Γ.left ss) →
    Within (exactIn d') (stmtsVisits Γ.right ss') →
    SimilarStmts (RecordedAlike d d') wraps Γ ss ss'
  | _, _, _, .nil, _, _ => .nil
  | _, _, _, .cons h hs, ex, ex' => by
      obtain ⟨first, rest⟩ := within_append.mp ex
      obtain ⟨first', rest'⟩ := within_append.mp ex'
      rw [← h.left_after] at rest
      rw [← h.right_after] at rest'
      exact .cons (h.recorded seen first first') (hs.recorded seen rest rest')

theorem SimilarOptionalStmt.recorded (seen : Sees R) : {Γ : ScopePairs} → {s s' : Option Stmt} →
    SimilarOptionalStmt R wraps Γ s s' →
    Within (exactIn d) (optionalStmtVisits Γ.left s) →
    Within (exactIn d') (optionalStmtVisits Γ.right s') →
    SimilarOptionalStmt (RecordedAlike d d') wraps Γ s s'
  | _, _, _, .none, _, _ => .none
  | _, _, _, .some h, ex, ex' => .some (h.recorded seen ex ex')

theorem SimilarFunction.recorded (seen : Sees R) : {Γ : ScopePairs} → {f f' : FunctionDecl Stmt} →
    SimilarFunction R wraps Γ f f' → Within (exactIn d) (functionVisits Γ.left f) →
    Within (exactIn d') (functionVisits Γ.right f') →
    SimilarFunction (RecordedAlike d d') wraps Γ f f'
  | _, _, _, .intro ρ called h, ex, ex' => by
      refine .intro ρ called (h.recorded seen ex ?_)
      rw [functionVisits, called, ← List.map_reverse] at ex'
      exact ex'

theorem SimilarMethods.recorded (seen : Sees R) : {Γ : ScopePairs} → {ms ms' : List (FunctionDecl Stmt)} →
    SimilarMethods R wraps Γ ms ms' → Within (exactIn d) (methodsVisits Γ.left ms) →
    Within (exactIn d') (methodsVisits Γ.right ms') →
    SimilarMethods (RecordedAlike d d') wraps Γ ms ms'
  | _, _, _, .nil, _, _ => .nil
  | _, _, _, .cons h hs, ex, ex' =>
      have both := within_append.mp ex
      have both' := within_append.mp ex'
      .cons (h.recorded seen both.1 both'.1) (hs.recorded seen both.2 both'.2)

theorem SimilarClass.recorded (seen : Sees R) : {Γ : ScopePairs} → {c c' : ClassDecl Stmt} →
    {scopes scopes' : Scopes} → SimilarClass R wraps Γ c c' →
    Γ.left = declare c.name.lexeme scopes → Γ.right = declare c.name.lexeme scopes' →
    Within (exactIn d) (classVisits scopes c) → Within (exactIn d') (classVisits scopes' c') →
    SimilarClass (RecordedAlike d d') wraps Γ c c'
  | _, _, _, _, _, .base h, left, right, ex, ex' => by
      rw [classVisits, ← left] at ex
      rw [classVisits, ← right] at ex'
      exact .base (h.recorded seen ex ex')
  | _, _, _, _, _, .sub parent self h, left, right, ex, ex' => by
      rw [classVisits, ← left, within_cons] at ex
      rw [classVisits, ← right, within_cons] at ex'
      exact .sub ((seen parent).recorded ex.1 ex'.1 rfl rfl) self (h.recorded seen ex.2 ex'.2)

end

/-! ## Programs -/

theorem within_exactIn {program : List Stmt} (nodup : (stmtsIds program).Nodup)
    (walked : walkProgram program ∅ = .ok () d) :
    Within (exactIn d) (stmtsVisits [] program) := by
  intro x mem o name occurs
  rw [← ownIds_stmtsVisits []] at nodup
  rw [(notes_program program).noted nodup walked x mem o name occurs]
  simp

theorem SimilarStmts.analysed {program program' : List Stmt} (seen : Sees R)
    (h : SimilarStmts R wraps [] program program') (nodup : (stmtsIds program).Nodup)
    (nodup' : (stmtsIds program').Nodup) (walked : walkProgram program ∅ = .ok () d) :
    ∃ d', walkProgram program' ∅ = .ok () d' ∧
      SimilarStmts (RecordedAlike d d') wraps [] program program' := by
  obtain ⟨d', walked'⟩ := follows_stmts h _ _ ∅ walked
  exact ⟨d', walked',
    h.recorded seen (within_exactIn nodup walked) (within_exactIn nodup' walked')⟩

end ClassScript
