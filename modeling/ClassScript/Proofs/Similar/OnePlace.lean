import ClassScript.Proofs.Parser.Programs
import ClassScript.Proofs.Similar.Interpreted
import ClassScript.Proofs.Similar.Unchanged

namespace ClassScript

section

-- What can be put in the place of a statement, and in the place of a function.
variable (S : Stmt → Stmt → Prop) (F : FunctionDecl Stmt → FunctionDecl Stmt → Prop)

mutual

inductive OneInStmt : Stmt → Stmt → Prop
  | here {s s'} : S s s' → OneInStmt s s'
  | block {body body'} (line : Nat) : OneInStmts body body' →
      OneInStmt (.block body line) (.block body' line)
  | thenBranch {s s'} (c : Expr) (other : Option Stmt) : OneInStmt s s' →
      OneInStmt (.branch c s other) (.branch c s' other)
  | elseBranch {other other'} (c : Expr) (s : Stmt) : OneInStmt other other' →
      OneInStmt (.branch c s (some other)) (.branch c s (some other'))
  | loop {s s'} (c : Expr) (increment : Option Expr) : OneInStmt s s' →
      OneInStmt (.loop c s increment) (.loop c s' increment)
  | funDecl {f f'} : OneInFunction f f' → OneInStmt (.funDecl f) (.funDecl f')
  | classDecl {ms ms'} (name : Token) (superclass : Option Occurrence) : OneInMethods ms ms' →
      OneInStmt (.classDecl ⟨name, superclass, ms⟩) (.classDecl ⟨name, superclass, ms'⟩)

inductive OneInStmts : List Stmt → List Stmt → Prop
  | first {s s'} (rest : List Stmt) : OneInStmt s s' → OneInStmts (s :: rest) (s' :: rest)
  | later {rest rest'} (s : Stmt) : OneInStmts rest rest' → OneInStmts (s :: rest) (s :: rest')

inductive OneInFunction : FunctionDecl Stmt → FunctionDecl Stmt → Prop
  | here {f f'} : F f f' → OneInFunction f f'
  | body {body body'} (name : Token) (params : List Token) : OneInStmts body body' →
      OneInFunction ⟨name, params, body⟩ ⟨name, params, body'⟩

inductive OneInMethods : List (FunctionDecl Stmt) → List (FunctionDecl Stmt) → Prop
  | first {f f'} (rest : List (FunctionDecl Stmt)) : OneInFunction f f' →
      OneInMethods (f :: rest) (f' :: rest)
  | later {rest rest'} (f : FunctionDecl Stmt) : OneInMethods rest rest' →
      OneInMethods (f :: rest) (f :: rest')

end

end

open Binding

variable {S : Stmt → Stmt → Prop} {F : FunctionDecl Stmt → FunctionDecl Stmt → Prop}
  {wraps : Prop} {others : List String} {V : Set (Scopes × Expr)}

structure Fitting (S : Stmt → Stmt → Prop) (F : FunctionDecl Stmt → FunctionDecl Stmt → Prop)
    (wraps : Prop) (others : List String) (V : Set (Scopes × Expr)) : Prop where
  stmt {Γ s s'} : Γ.Same → Stands others V Γ s → S s s' → SimilarStmt PlacedAlike wraps Γ s s'
  function {Γ f f'} : Γ.Same → StandsFunction others V Γ f → F f f' →
    SimilarFunction PlacedAlike wraps Γ f f'

mutual

theorem OneInStmt.similar (fitting : Fitting S F wraps others V) : {Γ : ScopePairs} →
    {s s' : Stmt} → OneInStmt S F s s' → Γ.Same → Stands others V Γ s →
    SimilarStmt PlacedAlike wraps Γ s s'
  | _, _, _, .here replaced, same, h => fitting.stmt same h replaced
  | _, _, _, .block line one, same, h =>
      .plain (.block (.refl _) line (one.similar fitting (.both same) (h.block rfl)))
  | _, _, _, .thenBranch c other one, same, h =>
      .plain (.branch (similarExpr_self same h.regular c) (one.similar fitting same h.thenBranch)
        (similarBranch_self same other h.elseBranch))
  | _, _, _, .elseBranch c s one, same, h =>
      .plain (.branch (similarExpr_self same h.regular c)
        (.plain (similarPlain_self same s h.thenBranch))
        (.some (one.similar fitting same (h.elseBranch _ rfl))))
  | _, _, _, .loop c increment one, same, h =>
      .plain (.loop (similarExpr_self same h.regular c) (one.similar fitting same h.body)
        (similarOptional_self same h.regular increment))
  | _, _, _, .funDecl one, same, h =>
      .plain (.funDecl (same.declares (h.opens rfl) _)
        (one.similar fitting (same.declare _) h.function))
  | _, _, _, .classDecl _ none one, same, h =>
      .plain (.classDecl (same.declares (h.opens rfl) _)
        (.base (one.similar fitting (.both (same.declare _)) h.base)))
  | _, _, _, .classDecl _ (some parent) one, same, h =>
      .plain (.classDecl (same.declares (h.opens rfl) _)
        (.sub (placedAlike_self (same.declare _) parent _) rfl
          (one.similar fitting (.both (.both (same.declare _))) h.sub)))

theorem OneInStmts.similar (fitting : Fitting S F wraps others V) : {Γ : ScopePairs} →
    {ss ss' : List Stmt} → OneInStmts S F ss ss' → Γ.Same → StandsAll others V Γ ss →
    SimilarStmts PlacedAlike wraps Γ ss ss'
  | _, _, _, .first rest one, same, h =>
      .cons (one.similar fitting same h.first) (similarStmts_self (same.after _) rest h.rest)
  | _, _, _, .later s one, same, h =>
      .cons (.plain (similarPlain_self same s h.first))
        (one.similar fitting (same.after s) h.rest)

theorem OneInFunction.similar (fitting : Fitting S F wraps others V) : {Γ : ScopePairs} →
    {f f' : FunctionDecl Stmt} → OneInFunction S F f f' → Γ.Same → StandsFunction others V Γ f →
    SimilarFunction PlacedAlike wraps Γ f f'
  | _, _, _, .here replaced, same, h => fitting.function same h replaced
  | _, _, _, .body _ _ one, same, h =>
      .intro (.refl _) (List.map_id _).symm (one.similar fitting (.both same) (h.body rfl))

theorem OneInMethods.similar (fitting : Fitting S F wraps others V) : {Γ : ScopePairs} →
    {ms ms' : List (FunctionDecl Stmt)} → OneInMethods S F ms ms' → Γ.Same →
    StandsMethods others V Γ ms → SimilarMethods PlacedAlike wraps Γ ms ms'
  | _, _, _, .first rest one, same, h =>
      .cons (one.similar fitting same h.first) (similarMethods_self same rest h.rest)
  | _, _, _, .later f one, same, h =>
      .cons (similarFunction_self same f h.first) (one.similar fitting same h.rest)

end

section

variable {S' : Stmt → Stmt → Prop} {F' : FunctionDecl Stmt → FunctionDecl Stmt → Prop}

structure Renumbers (S S' : Stmt → Stmt → Prop)
    (F F' : FunctionDecl Stmt → FunctionDecl Stmt → Prop) : Prop where
  stmt {s s'} : S s s' → ∃ t, S' s t ∧ t.unnumbered = s'.unnumbered
  function {f f'} : F f f' → ∃ g, F' f g ∧ functionUnnumbered g = functionUnnumbered f'

mutual

theorem OneInStmt.renumbered (renumbers : Renumbers S S' F F') : {s s' : Stmt} →
    OneInStmt S F s s' → ∃ t, OneInStmt S' F' s t ∧ t.unnumbered = s'.unnumbered
  | _, _, .here replaced =>
      have ⟨t, replaced, eq⟩ := renumbers.stmt replaced
      ⟨t, .here replaced, eq⟩
  | _, _, .block line one =>
      have ⟨body, one, eq⟩ := one.renumbered renumbers
      ⟨.block body line, .block line one, congrArg (Stmt.block · line) eq⟩
  | .branch c _ _, _, .thenBranch _ other one =>
      have ⟨t, one, eq⟩ := one.renumbered renumbers
      ⟨.branch c t other, .thenBranch c other one,
        congrArg (Stmt.branch c.unnumbered · (optionalStmtUnnumbered other)) eq⟩
  | .branch c s _, _, .elseBranch _ _ one =>
      have ⟨t, one, eq⟩ := one.renumbered renumbers
      ⟨.branch c s (some t), .elseBranch c s one,
        congrArg (Stmt.branch c.unnumbered s.unnumbered <| some ·) eq⟩
  | .loop c _ increment, _, .loop _ _ one =>
      have ⟨t, one, eq⟩ := one.renumbered renumbers
      ⟨.loop c t increment, .loop c increment one,
        congrArg (Stmt.loop c.unnumbered · (increment.map Expr.unnumbered)) eq⟩
  | _, _, .funDecl one =>
      have ⟨f, one, eq⟩ := one.renumbered renumbers
      ⟨.funDecl f, .funDecl one, congrArg Stmt.funDecl eq⟩
  | _, _, .classDecl name superclass one =>
      have ⟨ms, one, eq⟩ := one.renumbered renumbers
      ⟨.classDecl ⟨name, superclass, ms⟩, .classDecl name superclass one,
        congrArg (fun ms => Stmt.classDecl ⟨name, superclass.map Occurrence.unnumbered, ms⟩) eq⟩

theorem OneInStmts.renumbered (renumbers : Renumbers S S' F F') : {ss ss' : List Stmt} →
    OneInStmts S F ss ss' → ∃ ts, OneInStmts S' F' ss ts ∧ stmtsUnnumbered ts = stmtsUnnumbered ss'
  | _, _, .first rest one =>
      have ⟨t, one, eq⟩ := one.renumbered renumbers
      ⟨t :: rest, .first rest one, congrArg (· :: stmtsUnnumbered rest) eq⟩
  | _, _, .later s one =>
      have ⟨ts, one, eq⟩ := one.renumbered renumbers
      ⟨s :: ts, .later s one, congrArg (s.unnumbered :: ·) eq⟩

theorem OneInFunction.renumbered (renumbers : Renumbers S S' F F') :
    {f f' : FunctionDecl Stmt} → OneInFunction S F f f' →
    ∃ g, OneInFunction S' F' f g ∧ functionUnnumbered g = functionUnnumbered f'
  | _, _, .here replaced =>
      have ⟨g, replaced, eq⟩ := renumbers.function replaced
      ⟨g, .here replaced, eq⟩
  | _, _, .body name params one =>
      have ⟨body, one, eq⟩ := one.renumbered renumbers
      ⟨⟨name, params, body⟩, .body name params one, congrArg (FunctionDecl.mk name params) eq⟩

theorem OneInMethods.renumbered (renumbers : Renumbers S S' F F') :
    {ms ms' : List (FunctionDecl Stmt)} → OneInMethods S F ms ms' →
    ∃ gs, OneInMethods S' F' ms gs ∧ methodsUnnumbered gs = methodsUnnumbered ms'
  | _, _, .first rest one =>
      have ⟨g, one, eq⟩ := one.renumbered renumbers
      ⟨g :: rest, .first rest one, congrArg (· :: methodsUnnumbered rest) eq⟩
  | _, _, .later f one =>
      have ⟨gs, one, eq⟩ := one.renumbered renumbers
      ⟨f :: gs, .later f one, congrArg (functionUnnumbered f :: ·) eq⟩

end

end

theorem standsAll_of_parseProgram {firstId : Nat} {tokens : List Token} {program : List Stmt}
    (spelled : ∀ t ∈ tokens, t.Spelled)
    (parsed : (parseProgram firstId tokens).result = .ok program)
    (absent : ∀ x ∈ stmtsMentions .outside program, ∀ name ∈ x.2.name?, name ∉ others)
    (visits : Within V (stmtsVisits [] program)) : StandsAll others V [] program where
  opens := .nil
  proper := properStmts_of_parseProgram parsed
  mentions := by
    have ordinary := ((parseProgram_reads firstId spelled).2 program parsed).2
    refine ⟨.outside, fun x mem name named => ⟨?_, absent x mem name named⟩⟩
    have plain := ordinary_stmts ordinary .outside x mem
    obtain ⟨setting, mention⟩ := x
    cases mention with
    | binder | var => cases named; exact plain
    | this | super => cases named
  visits := visits

theorem Machine.interpret_replaced {firstId : Nat} {tokens : List Token}
    {program program' : List Stmt} (fitting : Fitting S F True [] Set.univ)
    (spelled : ∀ t ∈ tokens, t.Spelled)
    (parsed : (parseProgram firstId tokens).result = .ok program)
    (accepted : (initial.analyse program).1 = .ok ()) (one : OneInStmts S F program program')
    (host : Host) (quiet : ∀ n, host.interrupts n = false) :
    (stmtsIds program').Nodup ∧ (initial.analyse program').1 = .ok () ∧
      ∀ fuel fuel', 3 * fuel ≤ fuel' →
        GoesAsFar (initial.interpret host fuel program) (initial.interpret host fuel' program') ∧
        GoesAsFar (initial.interpret host fuel program') (initial.interpret host fuel' program) := by
  have stands : StandsAll [] Set.univ [] program :=
    standsAll_of_parseProgram spelled parsed (fun _ _ _ _ => List.not_mem_nil) fun _ _ => trivial
  have similar := one.similar fitting .nil stands
  have nodup := ((parseProgram_reads firstId spelled).2 program parsed).1.nodup
  refine ⟨?_, interpret_similar host (fun _ => quiet) (by decide) (fun _ => le_rfl) similar nodup
    accepted⟩
  rwa [similar.ids fun h => h.id]

end ClassScript
