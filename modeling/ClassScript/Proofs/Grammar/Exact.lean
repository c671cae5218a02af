import ClassScript.Proofs.Grammar.CompleteStatements
import ClassScript.Proofs.Grammar.SoundStatements

namespace ClassScript.Grammar

open ClassScript.Parser

variable {tokens : List Token}

def written (tokens : List Token) : List Token := tokens.takeWhile (·.kind != .eof)

theorem parseProgram_ok (firstId : Nat) (p : List Stmt) :
    (parseProgram firstId tokens).result = .ok p ↔
      ∃ t, Parser.program (written tokens).length (State.start firstId tokens) = .ok p t ∧
        t.recorded = [] := by
  have same : (State.start firstId tokens).tokens.length = (written tokens).length := rfl
  unfold parseProgram
  dsimp only
  rw [same]
  generalize Parser.program _ _ = result
  cases result with
  | error e t => simp
  | ok ss t =>
      dsimp only
      split
      · rename_i clean
        simp_all
      · rename_i faulty
        simp_all

theorem derives_of_parseProgram {firstId : Nat} {p : List Stmt}
    (h : (parseProgram firstId tokens).result = .ok p) :
    DerivesStmt .declarations (written tokens) [] (stmtsUnnumbered p) := by
  obtain ⟨t, run, clean⟩ := (parseProgram_ok firstId p).mp h
  -- The bound is the number of tokens, so that the end of the list of declarations is reached.
  have sound := sound_program (written tokens).length _ (start_stop firstId tokens)
  obtain ⟨-, derives⟩ := (ends_ok_iff run).mp sound
  obtain ⟨-, derives, done⟩ := derives fun _ => clean
  rw [done (Nat.le_refl _)] at derives
  exact derives

theorem parseProgram_of_derives {tree : List Stmt}
    (h : DerivesStmt .declarations (written tokens) [] tree) (firstId : Nat) :
    ∃ p, (parseProgram firstId tokens).result = .ok p ∧ stmtsUnnumbered p = tree := by
  have accepted := accepts_program h (State.start firstId tokens) rfl
  unfold Ends at accepted
  split at accepted
  · rename_i p t run
    obtain ⟨-, tree, clean⟩ := accepted
    exact ⟨p, (parseProgram_ok firstId p).mpr ⟨t, run, clean (fun _ => rfl) rfl⟩, tree⟩
  · exact accepted.elim

theorem DerivesStmt.unique {tree tree' : List Stmt}
    (h : DerivesStmt .declarations (written tokens) [] tree)
    (h' : DerivesStmt .declarations (written tokens) [] tree') : tree = tree' := by
  obtain ⟨p, parsed, rfl⟩ := parseProgram_of_derives h 0
  obtain ⟨p', parsed', rfl⟩ := parseProgram_of_derives h' 0
  cases parsed.symm.trans parsed'
  rfl

theorem parseExpression_ok (firstId : Nat) (e : Expr) :
    (parseExpression firstId tokens).result = .ok e ↔
      ∃ t, Parser.expression (written tokens).length (State.start firstId tokens) = .ok e t ∧
        t.tokens = [] := by
  have same : (State.start firstId tokens).tokens.length = (written tokens).length := rfl
  unfold parseExpression wholeExpression
  dsimp only [bind, EStateM.bind]
  rw [same]
  generalize Parser.expression _ _ = result
  cases result with
  | error fault t => simp
  | ok e' t =>
      dsimp only
      cases tokens : t.tokens with
      | nil => simp [tokens]
      | cons first rest => simp [tokens]

theorem derives_of_parseExpression {firstId : Nat} {e : Expr}
    (h : (parseExpression firstId tokens).result = .ok e) :
    Derives false .expression (written tokens) [] e.unnumbered := by
  obtain ⟨t, run, done⟩ := (parseExpression_ok firstId e).mp h
  have sound := sound_expression false (written tokens).length _ (start_stop firstId tokens)
  obtain ⟨-, derives⟩ := (ends_ok_iff run).mp sound
  obtain ⟨-, derives⟩ := derives nofun
  rw [done] at derives
  exact derives

theorem parseExpression_of_derives {tree : Expr}
    (h : Derives false .expression (written tokens) [] tree) (firstId : Nat) :
    ∃ e, (parseExpression firstId tokens).result = .ok e ∧ e.unnumbered = tree := by
  have accepted := accepts_expression h (Nat.le_refl _) rfl (State.start firstId tokens) rfl
  unfold Ends at accepted
  split at accepted
  · rename_i e t run
    obtain ⟨done, tree, -⟩ := accepted
    exact ⟨e, (parseExpression_ok firstId e).mpr ⟨t, run, done⟩, tree⟩
  · exact accepted.elim

/-- A program is parsed to the trees that its tokens derive from, and so is an expression, whose
lists of arguments may have any length. -/
theorem parses_iff_derives (firstId : Nat) (tokens : List Token) :
    (∀ tree, DerivesStmt .declarations (written tokens) [] tree ↔
      ∃ p, (parseProgram firstId tokens).result = .ok p ∧ stmtsUnnumbered p = tree) ∧
    ∀ tree, Derives false .expression (written tokens) [] tree ↔
      ∃ e, (parseExpression firstId tokens).result = .ok e ∧ e.unnumbered = tree := by
  refine ⟨fun tree => ⟨fun h => parseProgram_of_derives h firstId, ?_⟩,
    fun tree => ⟨fun h => parseExpression_of_derives h firstId, ?_⟩⟩
  · rintro ⟨p, parsed, rfl⟩
    exact derives_of_parseProgram parsed
  · rintro ⟨e, parsed, rfl⟩
    exact derives_of_parseExpression parsed

end ClassScript.Grammar
