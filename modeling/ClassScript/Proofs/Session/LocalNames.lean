import Mathlib
import ClassScript.Proofs.Similar.Renamed

namespace ClassScript

open Binding

variable {others : List String} {V : Set (Scopes × Expr)} {x y : String} {d : Distances}

/-- A program in which one scope, at any depth, calls one of its variables differently. -/
abbrev OneRenamed (d : Distances) (x y : String) : List Stmt → List Stmt → Prop :=
  OneInStmts (RenamedBlock d x y) (RenamedFunction d x y)

theorem ordinary_of_identifier (identifier : TokenKind.ofWord x = .identifier) :
    (Mention.binder x).Ordinary :=
  Token.Spelled.not_reserved (t := ⟨.identifier, x, none, 1⟩) (fun _ => identifier) rfl

theorem ordinary_of_variable {setting : Setting} {body : List Stmt} {s : Stmt}
    (h : Within (avoiding others) (stmtsMentions setting body)) (mem : s ∈ body)
    (declares : s.variableName? = some x) : (Mention.binder x).Ordinary := by
  induction body with
  | nil => cases mem
  | cons first rest ih =>
      obtain ⟨here, later⟩ := within_append.mp h
      rcases List.mem_cons.mp mem with rfl | mem
      · cases s with
        | varDecl name e =>
            cases declares
            exact ((within_cons.mp here).1 _ rfl).1
        | _ => cases declares
      · exact ih later mem

theorem swap_super (hx : (Mention.binder x).Ordinary) (hy : (Mention.binder y).Ordinary) :
    Equiv.swap x y "super" = "super" :=
  Equiv.swap_apply_of_ne_of_ne hx.2.symm hy.2.symm

theorem map_lexeme_renamed {params : List Token} (absent : y ∉ params.map Token.lexeme) :
    (params.map (Token.renamed x y)).map Token.lexeme =
      (params.map Token.lexeme).map (Equiv.swap x y) := by
  rw [List.map_map, List.map_map]
  refine List.map_congr_left fun p mem => p.lexeme_renamed ?_
  rintro rfl
  exact absent (List.mem_map_of_mem mem)

theorem fitting_renamed (hy : (Mention.binder y).Ordinary) :
    Fitting (RenamedBlock d x y) (RenamedFunction d x y) False [y] (exactIn d) where
  stmt same h replaced := by
    cases replaced with
    | @intro body line declares other =>
        obtain ⟨s, mem, declares⟩ := declares
        obtain ⟨setting, mentions⟩ := h.mentions
        have hx := ordinary_of_variable mentions mem declares
        exact .plain (.block (.swap x y) line (similarStmts_renamed
          (.here hx hy List.not_mem_nil same) body (h.block (swap_super hx hy)) fun _ => other))
  function same h replaced := by
    cases replaced with
    | @intro name params body declares other =>
        obtain ⟨setting, mentions⟩ := h.mentions
        obtain ⟨binders, mentions⟩ := within_append.mp mentions
        have hx : (Mention.binder x).Ordinary := by
          rcases declares with ⟨p, mem, rfl⟩ | ⟨s, mem, declares⟩
          · exact (binders _ (List.mem_map_of_mem mem) _ rfl).1
          · exact ordinary_of_variable mentions mem declares
        have absent := fresh_params binders
        exact .intro (.swap x y) (map_lexeme_renamed (List.mem_reverse.not.mp absent))
          (similarStmts_renamed (.here hx hy absent same) body (h.body (swap_super hx hy))
            fun _ => other)

namespace Machine

variable {firstId : Nat} {tokens : List Token} {program program' : List Stmt}

/-- Local names do not matter. If a block or a function of a program declares a name only as a
variable or as a parameter, then another name, which nothing that the program declares or looks up
has, can be put in its place where it is declared and at exactly the occurrences that the analysis
finds there: the program is accepted, prints the same lines and ends with the same result or
fault. -/
theorem local_names_invisible (spelled : ∀ t ∈ tokens, t.Spelled)
    (parsed : (parseProgram firstId tokens).result = .ok program)
    (accepted : (initial.analyse program).1 = .ok ())
    (identifier : TokenKind.ofWord y = .identifier)
    (fresh : ∀ mention ∈ stmtsMentions .outside program, mention.2.name? ≠ some y)
    (one : OneRenamed (initial.analyse program).2.distances x y program program')
    (host : Host) (fuel : Nat) :
    (initial.analyse program').1 = .ok () ∧
      (initial.interpret host fuel program').1 = (initial.interpret host fuel program).1 ∧
      (initial.interpret host fuel program').2.output =
        (initial.interpret host fuel program).2.output := by
  obtain ⟨d, walked⟩ := walk_of_analyse accepted
  have known : (initial.analyse program).2.distances = d := by
    rw [analyse_of_walk walked]
    rfl
  have nodup := ((parseProgram_reads firstId spelled).2 program parsed).1.nodup
  have stands : StandsAll [y] (exactIn d) [] program :=
    standsAll_of_parseProgram spelled parsed
      (fun mention mem name named => by
        rw [List.mem_singleton]
        rintro rfl
        exact fresh mention mem named)
      (within_exactIn nodup walked)
  rw [known] at one
  have similar := one.similar (fitting_renamed (ordinary_of_identifier identifier)) .nil stands
  obtain ⟨accepted', goesAsFar⟩ :=
    interpret_similar (k := 1) host False.elim le_rfl False.elim similar nodup accepted
  obtain ⟨ahead, back⟩ := goesAsFar fuel fuel (Nat.one_mul fuel).le
  exact ⟨accepted', ahead.antisymm back⟩

def shadowedName (name : String) : Token := ⟨.identifier, name, none, 1⟩

def shadowedVar (value : Token) : List Token :=
  [⟨.kwVar, "var", none, 1⟩, shadowedName "a", ⟨.equal, "=", none, 1⟩, value,
    ⟨.semicolon, ";", none, 1⟩]

def shadowedPrint : List Token :=
  [⟨.kwPrint, "print", none, 1⟩, shadowedName "a", ⟨.semicolon, ";", none, 1⟩]

def shadowedTokens : List Token :=
  [⟨.leftBrace, "\x7b", none, 1⟩] ++ shadowedVar ⟨.kwTrue, "true", none, 1⟩ ++
    [⟨.leftBrace, "\x7b", none, 1⟩] ++ shadowedPrint ++
    shadowedVar ⟨.kwFalse, "false", none, 1⟩ ++ shadowedPrint ++
    [⟨.rightBrace, "\x7d", none, 1⟩, ⟨.rightBrace, "\x7d", none, 1⟩, .endOfInput 1]

def shadowedBody (name : String) : List Stmt :=
  [.varDecl (shadowedName name) (some (.literal (.bool true) 1)),
    .block [.print (.var ⟨0, shadowedName name⟩),
      .varDecl (shadowedName "a") (some (.literal (.bool false) 1)),
      .print (.var ⟨1, shadowedName "a"⟩)] 1]

def shadowedProgram (name : String) : List Stmt := [.block (shadowedBody name) 1]

theorem stmtsRenamed_shadowedBody (outer : d[0]? = some 1) (inner : d[1]? = some 0) :
    stmtsRenamed d "a" "b" 0 (shadowedBody "a") = shadowedBody "b" := by
  simp [shadowedBody, stmtsRenamed, Stmt.renamed, optionalRenamed, Expr.renamed,
    Occurrence.renamed, outer, inner, Token.renamed, shadowedName]

theorem local_names_invisible_shadowedProgram :
    (parseProgram 0 shadowedTokens).result = .ok (shadowedProgram "a") ∧
      OneRenamed (initial.analyse (shadowedProgram "a")).2.distances "a" "b" (shadowedProgram "a")
        (shadowedProgram "b") ∧
      (initial.analyse (shadowedProgram "b")).1 = .ok () ∧
      ∀ (host : Host) (fuel : Nat),
        (initial.interpret host fuel (shadowedProgram "b")).1 =
            (initial.interpret host fuel (shadowedProgram "a")).1 ∧
          (initial.interpret host fuel (shadowedProgram "b")).2.output =
            (initial.interpret host fuel (shadowedProgram "a")).2.output := by
  have parsed : (parseProgram 0 shadowedTokens).result = .ok (shadowedProgram "a") := by cbv
  have accepted : (initial.analyse (shadowedProgram "a")).1 = .ok () := rfl
  have renamed := stmtsRenamed_shadowedBody
    (d := (initial.analyse (shadowedProgram "a")).2.distances) rfl rfl
  have block : RenamedBlock (initial.analyse (shadowedProgram "a")).2.distances "a" "b"
      (.block (shadowedBody "a") 1) (.block (shadowedBody "b") 1) := by
    rw [← renamed]
    exact .intro 1 ⟨_, List.mem_cons_self, rfl⟩ (by simp [shadowedBody, Stmt.definedName?])
  have one : OneRenamed (initial.analyse (shadowedProgram "a")).2.distances "a" "b"
      (shadowedProgram "a") (shadowedProgram "b") := .first _ (.here block)
  have same := local_names_invisible (by decide) parsed accepted (by decide) (by decide) one
  exact ⟨parsed, one, (same (Host.standard fun _ => 0) 0).1, fun host fuel => (same host fuel).2⟩

end Machine

end ClassScript
