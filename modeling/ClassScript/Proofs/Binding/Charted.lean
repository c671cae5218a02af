import ClassScript.Proofs.Binding.Ordinary
import ClassScript.Proofs.Ends

namespace ClassScript

def Setting.Places (setting : Setting) : Mention → Nat → Prop
  | .this _, n => ∃ decl, setting = .method decl n
  | .super _, n => ∃ decl depth, setting = .method decl depth ∧ decl.superclass.isSome = true ∧
      n = depth + 1
  | _, _ => True

theorem Setting.enclosing_inner (setting : Setting) :
    setting.inner.enclosing = setting.enclosing := by
  cases setting <;> rfl

theorem Setting.enclosing_base {decl : ClassDecl Stmt} (base : decl.superclass.isSome = false)
    (depth : Nat) : (method decl depth).enclosing = .baseClass := by
  simp [enclosing, base]

theorem Setting.enclosing_sub {decl : ClassDecl Stmt} (sub : decl.superclass.isSome = true)
    (depth : Nat) : (method decl depth).enclosing = .subclass := by
  simp [enclosing, sub]

namespace Binding

/-- No distance is recorded that a setting does not give. -/
def Charted (used : Set (Setting × Mention)) (d : Distances) : Prop :=
  ∀ x ∈ used, ∀ i n, mentionId x = some i → d[i]? = some n → x.1.Places x.2 n

def Distinct (used : Set (Setting × Mention)) : Prop :=
  ∀ x ∈ used, ∀ y ∈ used, ∀ i, mentionId x = some i → mentionId y = some i → x = y

def Fits : Setting → Scopes → Prop
  | .outside, _ => True
  | .method decl depth, scopes => distance? "this" scopes = some depth ∧
      (decl.superclass.isSome = true → distance? "super" scopes = some (depth + 1))

variable {used : Set (Setting × Mention)} {setting : Setting} {scopes : Scopes} {name : String}
  {names : List String} {decl : ClassDecl Stmt} {d d' : Distances}

theorem distance?_inner (ne : name ∉ names) (scopes : Scopes) :
    distance? name (names :: scopes) = (distance? name scopes).map (· + 1) := by
  have absent : names.contains name = false := by simpa using ne
  simp only [distance?, List.findIdx?_cons, absent, Bool.false_eq_true, if_false]

theorem Fits.declare (h : Fits setting scopes) (ordinary : (Mention.binder name).Ordinary) :
    Fits setting (declare name scopes) := by
  cases setting with
  | outside => trivial
  | method decl depth =>
      refine ⟨?_, fun sub => ?_⟩
      · rw [distance?_declare ordinary.1.symm]
        exact h.1
      · rw [distance?_declare ordinary.2.symm]
        exact h.2 sub

theorem Fits.inner (h : Fits setting scopes) (this : "this" ∉ names) (super : "super" ∉ names) :
    Fits setting.inner (names :: scopes) := by
  cases setting with
  | outside => trivial
  | method decl depth =>
      refine ⟨?_, fun sub => ?_⟩
      · rw [distance?_inner this, h.1]
        rfl
      · rw [distance?_inner super, h.2 sub]
        rfl

theorem fits_baseMethods (base : decl.superclass.isSome = false) (scopes : Scopes) :
    Fits (.method decl 0) (["this"] :: scopes) := by
  refine ⟨rfl, fun sub => ?_⟩
  rw [base] at sub
  cases sub

theorem fits_subMethods (scopes : Scopes) :
    Fits (.method decl 0) (["this"] :: ["super"] :: scopes) := ⟨rfl, fun _ => rfl⟩

theorem not_mem_params {params : List Token} (h : ∀ p ∈ params, p.lexeme ≠ name) :
    name ∉ (params.map Token.lexeme).reverse := by
  simpa using h

def Known (d : Distances) : Setting × Mention → Prop
  | (_, .this keyword) | (_, .super keyword) => d[keyword.id]?.isSome = true
  | _ => True

def Remembers (d d' : Distances) : Prop :=
  ∀ i : Nat, d[i]?.isSome = true → d'[i]?.isSome = true

theorem Remembers.known {x : Setting × Mention} (h : Remembers d d') (known : Known d x) :
    Known d' x := by
  obtain ⟨setting, mention⟩ := x
  cases mention with
  | this keyword | super keyword => exact h _ known
  | _ => trivial

def Charts (used : Set (Setting × Mention)) (mentions : List (Setting × Mention)) (walk : Walk) :
    Prop :=
  ∀ d, Charted used d → Ends walk d
    (fun _ d' => Charted used d' ∧ Remembers d d' ∧ ∀ x ∈ mentions, Known d' x)
    fun _ d' => Charted used d' ∧ Remembers d d'

variable {mentions others : List (Setting × Mention)} {x : Setting × Mention} {o : Occurrence}

theorem charted_empty : Charted used ∅ := by
  intro x _ i n _ h
  simp at h

theorem charts_pure : Charts used [] (pure ()) :=
  fun _ h => ⟨h, fun _ known => known, fun _ mem => by cases mem⟩

theorem charts_throw (e : BindingError) : Charts used mentions (throw e) :=
  fun _ h => ⟨h, fun _ known => known⟩

theorem Charts.then {first second : Walk} (h : Charts used mentions first)
    (ho : Charts used others second) : Charts used (mentions ++ others) (do first; second) := by
  intro d charted
  apply ends_bind.mpr
  apply (h d charted).imp
  · intro _ d₁ h₁
    apply (ho d₁ h₁.1).imp
    · intro _ d₂ h₂
      refine ⟨h₂.1, fun i known => h₂.2.1 i (h₁.2.1 i known), fun x mem => ?_⟩
      rcases List.mem_append.mp mem with mem | mem
      · exact h₂.2.1.known (h₁.2.2 x mem)
      · exact h₂.2.2 x mem
    · exact fun _ _ h₂ => ⟨h₂.1, fun i known => h₂.2 i (h₁.2.1 i known)⟩
  · exact fun _ _ h₁ => h₁

theorem Charts.of_subset {walk : Walk} (h : Charts used mentions walk) (sub : others ⊆ mentions) :
    Charts used others walk := fun d charted =>
  (h d charted).imp (fun _ _ h' => ⟨h'.1, h'.2.1, fun x mem => h'.2.2 x (sub mem)⟩)
    fun _ _ h' => h'

theorem Charts.of_binder {walk : Walk} (h : Charts used mentions walk) :
    Charts used ((setting, .binder name) :: mentions) walk := fun d charted => by
  apply (h d charted).imp
  · intro _ d' h'
    refine ⟨h'.1, h'.2.1, fun x mem => ?_⟩
    rcases List.mem_cons.mp mem with rfl | mem
    · trivial
    · exact h'.2.2 x mem
  · exact fun _ _ h' => h'

theorem Charts.of_params {walk : Walk} {params : List Token} (h : Charts used mentions walk) :
    Charts used (paramsMentions setting params ++ mentions) walk := by
  induction params with
  | nil => exact h
  | cons p params ih => exact ih.of_binder

theorem Charts.assoc {walk : Walk} {first second third : List (Setting × Mention)}
    (h : Charts used (first ++ (second ++ third)) walk) :
    Charts used (first ++ second ++ third) walk := by
  rw [List.append_assoc]
  exact h

theorem Charted.insert (h : Charted used d) (unique : Distinct used) (mem : x ∈ used)
    (own : mentionId x = some o.id) {n : Nat} (places : x.1.Places x.2 n) :
    Charted used (d.insert o.id n) := by
  intro y memY i k ownY found
  rw [Std.TreeMap.getElem?_insert] at found
  split at found
  · rename_i eq
    cases found
    obtain rfl : o.id = i := by simpa using eq
    obtain rfl := unique x mem y memY o.id own ownY
    exact places
  · exact h y memY i k ownY found

theorem remembers_insert (d : Distances) (i n : Nat) : Remembers d (d.insert i n) := by
  intro j known
  rw [Std.TreeMap.getElem?_insert]
  split
  · rfl
  · exact known

theorem charts_note (unique : Distinct used) (mem : x ∈ used) (own : mentionId x = some o.id)
    {n : Nat} (places : x.1.Places x.2 n) (found : distance? name scopes = some n) :
    Charts used [x] (note scopes name o) := by
  intro d charted
  unfold Ends note
  simp only [found]
  refine ⟨charted.insert unique mem own places, remembers_insert d o.id n, fun y memY => ?_⟩
  obtain rfl := List.mem_singleton.mp memY
  obtain ⟨setting, mention⟩ := y
  have known : (d.insert o.id n)[o.id]?.isSome = true := by simp
  cases mention with
  | this keyword | super keyword =>
      rw [← Option.some.inj own] at known ⊢
      exact known
  | _ => trivial

theorem charts_var (unique : Distinct used) (mem : (setting, .var o) ∈ used) :
    Charts used [(setting, .var o)] (note scopes name o) := by
  cases found : distance? name scopes with
  | some n => exact charts_note unique mem rfl trivial found
  | none =>
      intro d charted
      unfold Ends note
      simp only [found]
      refine ⟨charted, fun _ known => known, fun y memY => ?_⟩
      rw [List.mem_singleton.mp memY]
      trivial

theorem charts_this (unique : Distinct used) (fits : Fits setting scopes)
    (mem : (setting, .this o) ∈ used) :
    Charts used [(setting, .this o)] (walkExpr setting.enclosing scopes (.this o)) := by
  cases setting with
  | outside => exact charts_throw _
  | method decl depth =>
      have places : (Setting.method decl depth).Places (.this o) depth := ⟨decl, rfl⟩
      have noted := charts_note unique mem rfl places fits.1
      cases sub : decl.superclass.isSome with
      | false =>
          rw [Setting.enclosing_base sub]
          exact noted
      | true =>
          rw [Setting.enclosing_sub sub]
          exact noted

theorem charts_super (unique : Distinct used) (fits : Fits setting scopes) (method : Token)
    (mem : (setting, .super o) ∈ used) :
    Charts used [(setting, .super o)] (walkExpr setting.enclosing scopes (.super o method)) := by
  cases setting with
  | outside => exact charts_throw _
  | method decl depth =>
      cases sub : decl.superclass.isSome with
      | false =>
          rw [Setting.enclosing_base sub]
          exact charts_throw _
      | true =>
          rw [Setting.enclosing_sub sub]
          have places : (Setting.method decl depth).Places (.super o) (depth + 1) :=
            ⟨decl, depth, rfl, sub, rfl⟩
          exact charts_note unique mem rfl places (fits.2 sub)

mutual

theorem charts_expr (unique : Distinct used) (fits : Fits setting scopes) : (e : Expr) →
    Within used (exprMentions setting e) →
    Charts used (exprMentions setting e) (walkExpr setting.enclosing scopes e)
  | .literal _ _, _ => charts_pure
  | .grouping inner, h | .unary _ inner, h | .get inner _, h => charts_expr unique fits inner h
  | .var _, h => charts_var unique (within_cons.mp h).1
  | .assign _ value, h =>
      have both := within_cons.mp h
      have walked := (charts_expr unique fits value both.2).then (charts_var unique both.1)
      walked.of_subset (List.perm_append_singleton _ _).symm.subset
  | .logical left _ right, h | .binary left _ right, h | .set right _ left, h =>
      have both := within_append.mp h
      (charts_expr unique fits left both.1).then (charts_expr unique fits right both.2)
  | .call callee _ arguments, h =>
      have both := within_append.mp h
      (charts_expr unique fits callee both.1).then (charts_exprs unique fits arguments both.2)
  | .this _, h => charts_this unique fits (within_cons.mp h).1
  | .super _ method, h => charts_super unique fits method (within_cons.mp h).1

theorem charts_exprs (unique : Distinct used) (fits : Fits setting scopes) : (es : List Expr) →
    Within used (exprsMentions setting es) →
    Charts used (exprsMentions setting es) (walkExprs setting.enclosing scopes es)
  | [], _ => charts_pure
  | e :: es, h =>
      have both := within_append.mp h
      (charts_expr unique fits e both.1).then (charts_exprs unique fits es both.2)

end

theorem charts_optional (unique : Distinct used) (fits : Fits setting scopes) (e : Option Expr)
    (h : Within used (optionalMentions setting e)) :
    Charts used (optionalMentions setting e) (walkOptional setting.enclosing scopes e) := by
  cases e with
  | none => exact charts_pure
  | some e => exact charts_expr unique fits e h

theorem Fits.after {s : Stmt} (h : Fits setting scopes)
    (names : Within ordinary (stmtMentions setting s)) : Fits setting (scopesAfter scopes s) := by
  cases s with
  | varDecl name _ => exact h.declare (within_cons.mp names).1
  | funDecl decl => exact h.declare (within_cons.mp names).1
  | classDecl decl =>
      rw [stmtMentions, classMentions_eq] at names
      exact h.declare (within_cons.mp names).1
  | _ => exact h

mutual

theorem charts_stmt (unique : Distinct used) (names : used ⊆ ordinary) : {setting : Setting} →
    {scopes : Scopes} → (s : Stmt) → Fits setting scopes → Within used (stmtMentions setting s) →
    Charts used (stmtMentions setting s) (walkStmt setting.enclosing scopes s)
  | _, _, .expression e, fits, h | _, _, .print e, fits, h => charts_expr unique fits e h
  | _, _, .varDecl _ e, fits, h =>
      (charts_optional unique fits e (within_cons.mp h).2).of_binder
  | _, _, .return _ e, fits, h => charts_optional unique fits e h
  | setting, _, .block body _, fits, h => by
      have inner : Fits setting.inner ([] :: _) := fits.inner List.not_mem_nil List.not_mem_nil
      have walked := charts_stmts unique names body inner h
      rwa [Setting.enclosing_inner] at walked
  | _, _, .branch condition thenBranch elseBranch, fits, h =>
      have all := within_append.mp h
      have both := within_append.mp all.1
      ((charts_expr unique fits condition both.1).then
        ((charts_stmt unique names thenBranch fits both.2).then
          (charts_optionalStmt unique names elseBranch fits all.2))).assoc
  | _, _, .loop condition body increment, fits, h =>
      have all := within_append.mp h
      have both := within_append.mp all.1
      ((charts_expr unique fits condition both.1).then
        ((charts_stmt unique names body fits both.2).then
          (charts_optional unique fits increment all.2))).assoc
  | _, _, .funDecl decl, fits, h =>
      have both := within_cons.mp h
      (charts_function unique names decl (fits.declare (names both.1)) both.2).of_binder
  | _, _, .classDecl decl, fits, h => charts_class unique names decl fits h
  | _, _, .break _, _, _ | _, _, .continue _, _, _ => charts_pure

theorem charts_stmts (unique : Distinct used) (names : used ⊆ ordinary) : {setting : Setting} →
    {scopes : Scopes} → (ss : List Stmt) → Fits setting scopes →
    Within used (stmtsMentions setting ss) →
    Charts used (stmtsMentions setting ss) (walkStmts setting.enclosing scopes ss)
  | _, _, [], _, _ => charts_pure
  | _, _, s :: ss, fits, h =>
      have both := within_append.mp h
      have after := fits.after fun x mem => names (both.1 x mem)
      (charts_stmt unique names s fits both.1).then (charts_stmts unique names ss after both.2)

theorem charts_optionalStmt (unique : Distinct used) (names : used ⊆ ordinary) :
    {setting : Setting} → {scopes : Scopes} → (s : Option Stmt) → Fits setting scopes →
    Within used (optionalStmtMentions setting s) →
    Charts used (optionalStmtMentions setting s) (walkOptionalStmt setting.enclosing scopes s)
  | _, _, none, _, _ => charts_pure
  | _, _, some s, fits, h => charts_stmt unique names s fits h

theorem charts_function (unique : Distinct used) (names : used ⊆ ordinary) : {setting : Setting} →
    {scopes : Scopes} → (decl : FunctionDecl Stmt) → Fits setting scopes →
    Within used (functionMentions setting decl) →
    Charts used (functionMentions setting decl) (walkFunction setting.enclosing scopes decl)
  | _, _, ⟨_, params, body⟩, fits, h => by
      have both := within_append.mp h
      have params := within_paramsMentions.mp fun x mem => names (both.1 x mem)
      have inner := fits.inner (not_mem_params fun p mem => (params p mem).1)
        (not_mem_params fun p mem => (params p mem).2)
      have walked := charts_stmts unique names body inner both.2
      rw [Setting.enclosing_inner] at walked
      exact walked.of_params

theorem charts_methods (unique : Distinct used) (names : used ⊆ ordinary) : {setting : Setting} →
    {scopes : Scopes} → (ms : List (FunctionDecl Stmt)) → Fits setting scopes →
    Within used (methodsMentions setting ms) →
    Charts used (methodsMentions setting ms) (walkMethods setting.enclosing scopes ms)
  | _, _, [], _, _ => charts_pure
  | _, _, m :: ms, fits, h =>
      have both := within_append.mp h
      (charts_function unique names m fits both.1).then (charts_methods unique names ms fits both.2)

theorem charts_class (unique : Distinct used) (names : used ⊆ ordinary) : {setting : Setting} →
    {scopes : Scopes} → (decl : ClassDecl Stmt) → Fits setting scopes →
    Within used (classMentions setting decl) →
    Charts used (classMentions setting decl) (walkClass scopes decl)
  | _, scopes, ⟨name, none, methods⟩, _, h => by
      have inside := (within_cons.mp h).2
      have fits : Fits (.method ⟨name, none, methods⟩ 0) _ :=
        fits_baseMethods rfl (declare name.lexeme scopes)
      exact (charts_methods unique names methods fits inside).of_binder
  | _, scopes, ⟨name, some parent, methods⟩, _, h => by
      have both := within_cons.mp (within_cons.mp h).2
      have fits : Fits (.method ⟨name, some parent, methods⟩ 0) _ :=
        fits_subMethods (declare name.lexeme scopes)
      exact ((charts_var unique both.1).then
        (charts_methods unique names methods fits both.2)).of_binder

end

theorem charts_program (unique : Distinct used) (names : used ⊆ ordinary) (program : List Stmt)
    (h : Within used (stmtsMentions .outside program)) :
    Charts used (stmtsMentions .outside program) (walkProgram program) :=
  charts_stmts unique names program trivial h

end Binding

end ClassScript
