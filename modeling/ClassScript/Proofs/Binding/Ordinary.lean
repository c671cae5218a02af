import ClassScript.Proofs.Binding.Guarded
import ClassScript.Proofs.Binding.Mentions

namespace ClassScript.Binding

def ordinary : Set (Setting × Mention) := {x | x.2.Ordinary}

def Ordinary (mentions : Setting → List (Setting × Mention)) : Prop :=
  ∀ setting, Within ordinary (mentions setting)

abbrev OrdinaryExpr (e : Expr) : Prop := Ordinary fun setting => exprMentions setting e

abbrev OrdinaryStmt (s : Stmt) : Prop := Ordinary fun setting => stmtMentions setting s

abbrev OrdinaryFunction (decl : FunctionDecl Stmt) : Prop :=
  Ordinary fun setting => functionMentions setting decl

variable {mentions others : Setting → List (Setting × Mention)}

theorem ordinary_nil : Ordinary fun _ => [] := by
  intro setting x mem
  cases mem

theorem Ordinary.append (h : Ordinary mentions) (ho : Ordinary others) :
    Ordinary fun setting => mentions setting ++ others setting :=
  fun setting => within_append.mpr ⟨h setting, ho setting⟩

theorem Ordinary.cons {mention : Mention} (hm : mention.Ordinary) (h : Ordinary mentions) :
    Ordinary fun setting => (setting, mention) :: mentions setting :=
  fun setting => within_cons.mpr ⟨hm, h setting⟩

theorem ordinary_mention {mention : Mention} (h : mention.Ordinary) :
    Ordinary fun setting => [(setting, mention)] := ordinary_nil.cons h

theorem ordinary_exprs {es : List Expr} (h : ∀ e ∈ es, OrdinaryExpr e) :
    Ordinary fun setting => exprsMentions setting es := by
  induction es with
  | nil => exact ordinary_nil
  | cons e es ih =>
      exact (h e List.mem_cons_self).append (ih fun e mem => h e (List.mem_cons_of_mem _ mem))

theorem ordinary_stmts {ss : List Stmt} (h : ∀ s ∈ ss, OrdinaryStmt s) :
    Ordinary fun setting => stmtsMentions setting ss := by
  induction ss with
  | nil => exact ordinary_nil
  | cons s ss ih =>
      exact (h s List.mem_cons_self).append (ih fun s mem => h s (List.mem_cons_of_mem _ mem))

theorem ordinary_block {body : List Stmt} {line : Nat} (h : ∀ s ∈ body, OrdinaryStmt s) :
    OrdinaryStmt (.block body line) := fun setting => ordinary_stmts h setting.inner

theorem within_paramsMentions {setting : Setting} {params : List Token} :
    Within ordinary (paramsMentions setting params) ↔
      ∀ p ∈ params, (Mention.binder p.lexeme).Ordinary := by
  unfold Within paramsMentions
  rw [List.forall_mem_map]
  rfl

theorem ordinary_superclass {superclass : Option Occurrence}
    (h : ∀ parent ∈ superclass, (Mention.var parent).Ordinary) :
    Ordinary fun setting => superclassMentions setting superclass := by
  cases superclass with
  | none => exact ordinary_nil
  | some parent => exact ordinary_mention (h parent rfl)

theorem ordinary_methods {ms : List (FunctionDecl Stmt)} (h : ∀ m ∈ ms, OrdinaryFunction m) :
    Ordinary fun setting => methodsMentions setting ms := by
  induction ms with
  | nil => exact ordinary_nil
  | cons m ms ih =>
      exact (h m List.mem_cons_self).append (ih fun m mem => h m (List.mem_cons_of_mem _ mem))

theorem ordinary_function {name : Token} {params : List Token} {body : List Stmt}
    (hp : ∀ p ∈ params, (Mention.binder p.lexeme).Ordinary) (hb : ∀ s ∈ body, OrdinaryStmt s) :
    OrdinaryFunction ⟨name, params, body⟩ := fun setting =>
  within_append.mpr ⟨within_paramsMentions.mpr hp, ordinary_stmts hb setting.inner⟩

theorem ordinary_class {name : Token} {superclass : Option Occurrence}
    {methods : List (FunctionDecl Stmt)} (hn : (Mention.binder name.lexeme).Ordinary)
    (hs : ∀ parent ∈ superclass, (Mention.var parent).Ordinary)
    (hm : ∀ m ∈ methods, OrdinaryFunction m) :
    OrdinaryStmt (.classDecl ⟨name, superclass, methods⟩) := fun setting =>
  have inside := ordinary_methods hm (.method ⟨name, superclass, methods⟩ 0)
  within_cons.mpr ⟨hn, within_append.mpr ⟨ordinary_superclass hs setting, inside⟩⟩

mutual

theorem guards_of_ordinary : {setting : Setting} → (s : Stmt) →
    Within ordinary (stmtMentions setting s) → GuardsStmt s
  | _, .expression e, _ | _, .print e, _ => .of_visits (guards_expr e) fun _ => rfl
  | _, .varDecl _ _, h => guardsStmt_var (within_cons.mp h).1.2
  | _, .block body _, h => guardsStmt_block (guards_of_ordinaries body h)
  | _, .branch _ thenBranch none, h =>
      have both := within_append.mp (within_append.mp h).1
      guardsStmt_branch (guards_of_ordinary thenBranch both.2) fun _ mem => by cases mem
  | _, .branch _ thenBranch (some other), h =>
      have all := within_append.mp h
      guardsStmt_branch (guards_of_ordinary thenBranch (within_append.mp all.1).2) fun s mem => by
        cases mem
        exact guards_of_ordinary other all.2
  | _, .loop _ body _, h =>
      have both := within_append.mp (within_append.mp h).1
      guardsStmt_loop (guards_of_ordinary body both.2)
  | _, .funDecl decl, h =>
      have both := within_cons.mp h
      guardsStmt_function both.1.2 (guards_of_ordinaryFunction decl both.2)
  | _, .classDecl ⟨_, _, methods⟩, h =>
      have both := within_cons.mp h
      guardsStmt_class both.1.2 (guards_of_ordinaryMethods methods (within_append.mp both.2).2)
  | _, .return _ e, _ => .of_visits (guards_optional e) fun _ => rfl
  | _, .break _, _ | _, .continue _, _ => .of_visits guards_nil fun _ => rfl

theorem guards_of_ordinaries : {setting : Setting} → (ss : List Stmt) →
    Within ordinary (stmtsMentions setting ss) → ∀ s ∈ ss, GuardsStmt s
  | _, [], _ => fun s mem => by cases mem
  | _, first :: rest, h => fun s mem => by
      have here := guards_of_ordinary first (within_append.mp h).1
      have others := guards_of_ordinaries rest (within_append.mp h).2
      rcases List.mem_cons.mp mem with rfl | mem
      · exact here
      · exact others s mem

theorem guards_of_ordinaryFunction : {setting : Setting} → (decl : FunctionDecl Stmt) →
    Within ordinary (functionMentions setting decl) →
      Guards fun scopes => functionVisits scopes decl
  | _, ⟨_, _, body⟩, h =>
      have both := within_append.mp h
      guards_function (fun p mem => (within_paramsMentions.mp both.1 p mem).2)
        (guards_of_ordinaries body both.2)

theorem guards_of_ordinaryMethods : {setting : Setting} → (ms : List (FunctionDecl Stmt)) →
    Within ordinary (methodsMentions setting ms) →
      ∀ m ∈ ms, Guards fun scopes => functionVisits scopes m
  | _, [], _ => fun m mem => by cases mem
  | _, first :: rest, h => fun m mem => by
      have here := guards_of_ordinaryFunction first (within_append.mp h).1
      have others := guards_of_ordinaryMethods rest (within_append.mp h).2
      rcases List.mem_cons.mp mem with rfl | mem
      · exact here
      · exact others m mem

end

end ClassScript.Binding
