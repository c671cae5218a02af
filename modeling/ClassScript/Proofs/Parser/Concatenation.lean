import Mathlib.Data.List.TakeWhile
import ClassScript.Proofs.Grammar.Exact
import ClassScript.Proofs.Parser.CarriedStatements

namespace ClassScript

namespace Parser

open Grammar

variable {w : Surroundings} {s t : State} {k k' : Nat}

theorem carries_faultless (noElse : startsWith (· == .kwElse) w.behind = false)
    (stop : s.stop.kind = .eof) (fits : w.Fits k k' s) (some : s.tokens ≠ []) {found : Option Stmt}
    (run : declaration k s = .ok found t) (faultless : t.recorded = s.recorded) :
    ∃ stmt, found = .some stmt ∧
      declaration k' (w.place s) = .ok (.some (stmt.shifted w.ids)) (w.place t) := by
  cases k with
  | zero => exact absurd fits.empty some
  | succ k =>
      cases k' with
      | zero => exact absurd fits.empty' some
      | succ k' =>
          have rule := carries_rule noElse stop fits
          unfold CarriesStmt Carries Ends at rule
          rw [declaration] at run ⊢
          unfold recovering at run ⊢
          cases ended : declarationRule (k + 1) (declaration k) (statement k) s with
          | ok stmt u =>
              rw [ended] at rule run
              cases run
              rw [rule.2.2 (.inl rfl)]
              exact ⟨stmt, rfl, rfl⟩
          | error e u =>
              rw [ended] at rule run
              cases run
              have longer := rule.1.recorded.length_le
              rw [← faultless, List.length_append, List.length_singleton] at longer
              omega

theorem many_ok {α : Type} {stops : TokenKind → Bool} {item : Parser α} {bound : Nat} {found : List α}
    (run : many stops item (bound + 1) s = .ok found t) (goesOn : endsList stops s.tokens = false) :
    ∃ a u as, item s = .ok a u ∧ many stops item bound u = .ok as t ∧ found = a :: as := by
  rw [many_succ, goesOn] at run
  obtain ⟨a, u, first, run⟩ := ok_of_bind run
  obtain ⟨as, v, rest, run⟩ := ok_of_bind run
  cases run
  exact ⟨a, u, as, first, rest, rfl⟩

theorem many_of_ok {α : Type} {stops : TokenKind → Bool} {item : Parser α} {bound : Nat} {a : α}
    (first : item s = .ok a t) (goesOn : endsList stops s.tokens = false) :
    many stops item (bound + 1) s = ((a :: ·) <$> many stops item bound) t := by
  rw [many_succ, goesOn]
  exact bind_ok first

theorem map_ok {α β : Type} {p : Parser α} {f : α → β} {a : α} (run : p s = .ok a t) :
    (f <$> p) s = .ok (f a) t := by
  simp only [Functor.map, EStateM.map, run]

theorem map_of_run {α β γ : Type} {p : Parser α} {q : Parser β} {f : α → γ} {g : β → α}
    (h : p s = (g <$> q) t) : (f <$> p) s = ((fun b => f (g b)) <$> q) t := by
  simp only [Functor.map, EStateM.map] at *
  rw [h]
  cases q t <;> rfl

theorem recovering_ok {α : Type} (p : Parser α) (s : State) :
    ∃ found t, recovering p s = .ok found t := by
  unfold recovering
  cases p s with
  | ok a t => exact ⟨some a, t, rfl⟩
  | error e t => exact ⟨none, _, rfl⟩

theorem declaration_ok (k : Nat) (s : State) : ∃ found t, declaration k s = .ok found t := by
  cases k with
  | zero => exact recovering_ok _ s
  | succ k => exact recovering_ok _ s

theorem declarations_ok (stops : TokenKind → Bool) (k m : Nat) (s : State) :
    ∃ found t, many stops (declaration k) m s = .ok found t := by
  induction m generalizing s with
  | zero => exact ⟨[], s, rfl⟩
  | succ m ih =>
      cases ends : endsList stops s.tokens with
      | true => exact ⟨[], s, by rw [many_succ, ends]; rfl⟩
      | false =>
          obtain ⟨a, t, first⟩ := declaration_ok k s
          obtain ⟨as, u, rest⟩ := ih t
          exact ⟨a :: as, u, (many_of_ok first ends).trans (map_ok rest)⟩

theorem endsList_never {tokens : List Token} (some : tokens ≠ []) :
    endsList (fun _ => false) tokens = false := by
  cases tokens with
  | nil => exact absurd rfl some
  | cons t rest => rfl

def ReadThrough (w : Surroundings) (k' m' : Nat) (s t : State) (found : List (Option Stmt)) : Prop :=
  t.tokens = [] ∧ ∃ rest, w.behind.length ≤ rest ∧
    many (fun _ => false) (declaration k') m' (w.place s) =
      ((found.map (Option.map (Stmt.shifted w.ids)) ++ ·) <$>
        many (fun _ => false) (declaration k') rest) (w.place t)

theorem readThrough_nil {m' : Nat} (empty : s.tokens = []) (placed : w.behind.length ≤ m') :
    ReadThrough w k' m' s s [] := by
  refine ⟨empty, m', placed, ?_⟩
  simp

theorem ReadThrough.cons {m' : Nat} {u : State} {stmt : Stmt} {found : List (Option Stmt)}
    (some : s.tokens ≠ [])
    (first : declaration k' (w.place s) = .ok (.some (stmt.shifted w.ids)) (w.place u))
    (rest : ReadThrough w k' m' u t found) :
    ReadThrough w k' (m' + 1) s t (.some stmt :: found) := by
  obtain ⟨ended, rounds, enough, run⟩ := rest
  refine ⟨ended, rounds, enough, ?_⟩
  have goesOn : endsList (fun _ => false) (w.place s).tokens = false := by
    apply endsList_never
    simp [Surroundings.place, some]
  rw [many_of_ok first goesOn]
  exact map_of_run run

theorem readThrough_declarations (noElse : startsWith (· == .kwElse) w.behind = false) (m m' : Nat)
    (stop : s.stop.kind = .eof) (fits : w.Fits k k' s) (rounds : w.Fits m m' s)
    {found : List (Option Stmt)} (run : many (fun _ => false) (declaration k) m s = .ok found t)
    (faultless : t.recorded = s.recorded) : ReadThrough w k' m' s t found := by
  induction m generalizing m' s found with
  | zero =>
      cases run
      exact readThrough_nil rounds.empty (Nat.le_trans (Nat.le_add_left _ _) rounds.placed)
  | succ m ih =>
      by_cases empty : s.tokens = []
      · rw [many_end _ _ _ empty] at run
        cases run
        exact readThrough_nil empty (Nat.le_trans (Nat.le_add_left _ _) rounds.placed)
      · obtain ⟨a, u, as, first, others, rfl⟩ := many_ok run (endsList_never empty)
        obtain ⟨takes, fewer, -⟩ :=
          (ends_ok_iff first).mp ((carries_nested noElse k k' stop fits).2 empty)
        have fewer := fewer rfl
        have stop' : u.stop.kind = .eof := takes.stop ▸ stop
        have fits' := fits.takes takes
        have placed := rounds.placed
        obtain ⟨m', rfl⟩ := Nat.exists_eq_add_one.mpr (show 0 < m' by omega)
        have rounds' : w.Fits m m' u := rounds.fewer fewer
        -- The faults recorded in between are among those at the end, and there are no new ones.
        have same : u.recorded = s.recorded := by
          have further := ((ends_ok_iff others).mp
            (carries_declarations noElse stop' fits' _ rounds')).1.recorded
          rw [faultless] at further
          exact further.eq_of_length_le takes.recorded.length_le
        obtain ⟨stmt, rfl, carried⟩ := carries_faultless noElse stop fits empty first same
        exact (ih m' stop' fits' rounds' others (faultless.trans same.symm)).cons empty carried

theorem written_of_noEnd {tokens : List Token} (noEnd : ∀ t ∈ tokens, t.kind ≠ .eof) :
    written tokens = tokens := by
  apply List.takeWhile_eq_self_iff.mpr
  intro t mem
  simpa using noEnd t mem

theorem start_endless {tokens : List Token} (noEnd : ∀ t ∈ tokens, t.kind ≠ .eof) (firstId : Nat) :
    State.start firstId tokens =
      ⟨tokens, Token.endOfInput ((tokens.getLast?.map Token.line).getD 1), firstId, []⟩ := by
  have none : tokens.find? (·.kind == .eof) = none := by
    apply List.find?_eq_none.mpr
    intro t mem
    simpa using noEnd t mem
  have all : tokens.takeWhile (·.kind != .eof) = tokens := written_of_noEnd noEnd
  simp only [State.start, none, all, Option.getD_none]

section

variable {u : State} {A B : List Token} {found found' : List (Option Stmt)} {firstId : Nat}

theorem nextId_of_run (run : many (fun _ => false) (declaration A.length) A.length
    (State.start firstId A) = .ok found t) : firstId ≤ t.nextId := by
  let alone : Surroundings := ⟨0, [], [], (State.start firstId A).stop, start_stop firstId A⟩
  have fits : alone.Fits A.length A.length (State.start firstId A) := by
    have short : (State.start firstId A).tokens.length ≤ A.length :=
      (List.takeWhile_sublist _).length_le
    exact ⟨short, short⟩
  have takes := ((ends_ok_iff run).mp (carries_declarations (w := alone) rfl
    (start_stop firstId A) fits _ fits)).1
  exact takes.nextId

theorem map_unshifted (found : List (Option Stmt)) :
    found.map (Option.map (Stmt.shifted 0)) = found := by
  have none : Option.map (Stmt.shifted 0) = id := by
    funext stmt
    cases stmt with
    | none => rfl
    | some stmt =>
        rw [Option.map_some, stmt.shifted_zero]
        rfl
  rw [none, List.map_id]

theorem run_first (noEnd : ∀ t ∈ A, t.kind ≠ .eof) (noElse : startsWith (· == .kwElse) B = false)
    (run : many (fun _ => false) (declaration A.length) A.length (State.start firstId A) =
      .ok found t) (faultless : t.recorded = []) {stop : Token} (eof : stop.kind = .eof) :
    ∃ rest, B.length ≤ rest ∧
      many (fun _ => false) (declaration (A ++ B).length) (A ++ B).length
        ⟨A ++ B, stop, firstId, []⟩ =
          ((found ++ ·) <$> many (fun _ => false) (declaration (A ++ B).length) rest)
            ⟨B, stop, t.nextId, []⟩ := by
  let w : Surroundings := ⟨0, [], B, stop, eof⟩
  have start := start_endless noEnd firstId
  have tokens : (State.start firstId A).tokens = A := by rw [start]
  have started : (State.start firstId A).recorded = [] := by rw [start]
  have placed : w.place (State.start firstId A) = ⟨A ++ B, stop, firstId, []⟩ := by
    rw [start]
    rfl
  have fits : w.Fits A.length (A ++ B).length (State.start firstId A) :=
    ⟨by rw [tokens], by rw [tokens, List.length_append]⟩
  have readThrough : ReadThrough w (A ++ B).length (A ++ B).length (State.start firstId A) t found :=
    readThrough_declarations noElse A.length (A ++ B).length (start_stop firstId A) fits fits run
      (faultless.trans started.symm)
  obtain ⟨ended, rest, enough, through⟩ := readThrough
  have behind : w.place t = ⟨B, stop, t.nextId, []⟩ := by
    simp only [Surroundings.place, ended, faultless, w]
    rfl
  rw [placed, behind, map_unshifted] at through
  exact ⟨rest, enough, through⟩

theorem run_second (noEnd : ∀ t ∈ B, t.kind ≠ .eof) (w : Surroundings) (nothing : w.behind = [])
    (same : w.stop = (State.start firstId B).stop)
    (run : many (fun _ => false) (declaration B.length) B.length (State.start firstId B) =
      .ok found t) {k rest : Nat} (fits : B.length ≤ k) (enough : B.length ≤ rest) :
    many (fun _ => false) (declaration k) rest (w.place (State.start firstId B)) =
      .ok (found.map (Option.map (Stmt.shifted w.ids))) (w.place t) := by
  have tokens : (State.start firstId B).tokens = B := by rw [start_endless noEnd]
  have noElse : startsWith (· == .kwElse) w.behind = false := by rw [nothing]; rfl
  have within {m : Nat} (h : B.length ≤ m) : w.Fits B.length m (State.start firstId B) :=
    ⟨by rw [tokens], by simpa [tokens, nothing] using h⟩
  obtain ⟨takes, -, carried⟩ := (ends_ok_iff run).mp (carries_declarations noElse
    (start_stop firstId B) (within fits) _ (within enough))
  exact carried (.inr (.inr ⟨nothing, same.trans takes.stop.symm⟩))

theorem run_append (noEnd : ∀ t ∈ A, t.kind ≠ .eof) (noEnd' : ∀ t ∈ B, t.kind ≠ .eof)
    (some : B ≠ []) (noElse : startsWith (· == .kwElse) B = false)
    (run : many (fun _ => false) (declaration A.length) A.length (State.start firstId A) =
      .ok found t) (faultless : t.recorded = [])
    (run' : many (fun _ => false) (declaration B.length) B.length (State.start firstId B) =
      .ok found' u) :
    ∃ w : Surroundings, firstId + w.ids = t.nextId ∧ w.faults = [] ∧
      many (fun _ => false) (declaration (A ++ B).length) (A ++ B).length
        (State.start firstId (A ++ B)) =
          .ok (found ++ found'.map (Option.map (Stmt.shifted w.ids))) (w.place u) := by
  have start := start_endless (List.forall_mem_append.mpr ⟨noEnd, noEnd'⟩) firstId
  have start' := start_endless noEnd' firstId
  have stop := start_stop firstId (A ++ B)
  let w : Surroundings := ⟨t.nextId - firstId, [], [], (State.start firstId (A ++ B)).stop, stop⟩
  have ids : firstId + w.ids = t.nextId := Nat.add_sub_cancel' (nextId_of_run run)
  have same : w.stop = (State.start firstId B).stop := by
    have lines : (A ++ B).getLast?.map Token.line = B.getLast?.map Token.line := by
      rw [List.getLast?_append, List.getLast?_eq_some_getLast some, Option.some_or]
    simp only [w]
    rw [start, start', lines]
  obtain ⟨rest, enough, first⟩ := run_first (B := B) noEnd noElse run faultless stop
  have fits : B.length ≤ (A ++ B).length := by
    rw [List.length_append]
    exact Nat.le_add_left _ _
  have second := run_second noEnd' w rfl same run' fits enough
  have between : w.place (State.start firstId B) =
      ⟨B, (State.start firstId (A ++ B)).stop, t.nextId, []⟩ := by
    rw [start']
    simp only [Surroundings.place, ids, List.append_nil, w]
  have whole : State.start firstId (A ++ B) =
      ⟨A ++ B, (State.start firstId (A ++ B)).stop, firstId, []⟩ := by rw [start]
  refine ⟨w, ids, rfl, ?_⟩
  rw [whole, first, ← between]
  exact map_ok second

end

end Parser

open ClassScript.Parser ClassScript.Grammar

theorem parseProgram_of_many {firstId : Nat} {tokens : List Token} {found : List (Option Stmt)}
    {t : State} (run : many (fun _ => false) (declaration (written tokens).length)
      (written tokens).length (State.start firstId tokens) = .ok found t) :
    parseProgram firstId tokens =
      ⟨if t.recorded.isEmpty then .ok (found.filterMap id) else .error t.recorded, t.nextId⟩ := by
  have length : (State.start firstId tokens).tokens.length = (written tokens).length := rfl
  have whole : program (written tokens).length (State.start firstId tokens) =
      .ok (found.filterMap id) t := bind_ok run
  simp only [parseProgram, length, whole]

theorem parseProgram_of_run {firstId : Nat} {tokens : List Token} {found : List (Option Stmt)}
    {t : State} (noEnd : ∀ t ∈ tokens, t.kind ≠ .eof)
    (run : many (fun _ => false) (declaration tokens.length) tokens.length
      (State.start firstId tokens) = .ok found t) :
    parseProgram firstId tokens =
      ⟨if t.recorded.isEmpty then .ok (found.filterMap id) else .error t.recorded, t.nextId⟩ := by
  apply parseProgram_of_many
  rw [written_of_noEnd noEnd]
  exact run

/-- Parsing respects concatenation: in front of tokens that do not start with an `else`, a program
that parses leaves their parse as it is, but for the identities, which its own come before. -/
theorem parseProgram_append (firstId : Nat) {A B : List Token} {P : List Stmt}
    (noEnd : ∀ t ∈ A, t.kind ≠ .eof) (noEnd' : ∀ t ∈ B, t.kind ≠ .eof)
    (noElse : startsWith (· == .kwElse) B = false)
    (parsed : (parseProgram firstId A).result = .ok P) :
    ∃ ids, (parseProgram firstId A).nextId = firstId + ids ∧
      (parseProgram firstId (A ++ B)).nextId = (parseProgram firstId B).nextId + ids ∧
      (∀ Q, (parseProgram firstId B).result = .ok Q →
        (parseProgram firstId (A ++ B)).result = .ok (P ++ stmtsShifted ids Q)) ∧
      ∀ faults, (parseProgram firstId B).result = .error faults →
        (parseProgram firstId (A ++ B)).result = .error faults := by
  obtain ⟨found, t, run⟩ := declarations_ok (fun _ => false) A.length A.length (State.start firstId A)
  have alone := parseProgram_of_run noEnd run
  rw [alone] at parsed ⊢
  dsimp only at parsed
  split at parsed
  · rename_i faultless
    cases parsed
    rw [List.isEmpty_iff] at faultless
    by_cases some : B = []
    · subst some
      rw [List.append_nil, alone]
      have later := nextId_of_run run
      have nothing : parseProgram firstId [] = ⟨.ok [], firstId⟩ := rfl
      rw [nothing]
      refine ⟨t.nextId - firstId, (Nat.add_sub_cancel' later).symm,
        (Nat.add_sub_cancel' later).symm, fun Q parsed => ?_, nofun⟩
      cases parsed
      rw [faultless]
      exact congrArg Except.ok (List.append_nil _).symm
    · obtain ⟨found', u, run'⟩ :=
        declarations_ok (fun _ => false) B.length B.length (State.start firstId B)
      -- The second part is read behind the first one with what that used up and recorded.
      obtain ⟨w, ids, clean, both⟩ := run_append noEnd noEnd' some noElse run faultless run'
      have noEnds : ∀ t ∈ A ++ B, t.kind ≠ .eof := List.forall_mem_append.mpr ⟨noEnd, noEnd'⟩
      have recorded : (w.place u).recorded = u.recorded := by
        simp [Surroundings.place, clean]
      rw [parseProgram_of_run noEnd' run', parseProgram_of_run noEnds both, recorded]
      refine ⟨w.ids, ids.symm, rfl, fun Q parsed => ?_, fun faults failed => ?_⟩
      · dsimp only at parsed ⊢
        split at parsed
        · cases parsed
          rename_i parses
          rw [if_pos parses, List.filterMap_append, stmtsShifted_filterMap]
        · cases parsed
      · dsimp only at failed ⊢
        split at failed
        · cases failed
        · rename_i fails
          rw [if_neg fails]
          exact failed
  · cases parsed

/-! Two expressions, and a semicolon that follows nothing. -/

def readX : List Token := [⟨.identifier, "x", none, 1⟩, ⟨.semicolon, ";", none, 1⟩]

def readY : List Token := [⟨.identifier, "y", none, 2⟩, ⟨.semicolon, ";", none, 2⟩]

def straySemicolon : List Token := [⟨.semicolon, ";", none, 2⟩]

theorem parseProgram_append_twoReads :
    (parseProgram 5 (readX ++ readY)).result =
        .ok [.expression (.var ⟨5, ⟨.identifier, "x", none, 1⟩⟩),
          .expression (.var ⟨6, ⟨.identifier, "y", none, 2⟩⟩)] ∧
      (parseProgram 5 (readX ++ straySemicolon)).result = .error [⟨.expectedExpression ";", 2⟩] := by
  have parsed : (parseProgram 5 readX).result =
      .ok [.expression (.var ⟨5, ⟨.identifier, "x", none, 1⟩⟩)] := rfl
  have noEnd : ∀ t ∈ readX, t.kind ≠ .eof := by decide
  constructor
  · have noEnd' : ∀ t ∈ readY, t.kind ≠ .eof := by decide
    obtain ⟨ids, used, -, both, -⟩ := parseProgram_append 5 noEnd noEnd' rfl parsed
    have one : ids = 1 := by
      have next : (parseProgram 5 readX).nextId = 6 := rfl
      omega
    subst one
    exact both _ rfl
  · have noEnd' : ∀ t ∈ straySemicolon, t.kind ≠ .eof := by decide
    obtain ⟨-, -, -, -, faulty⟩ := parseProgram_append 5 noEnd noEnd' rfl parsed
    exact faulty _ rfl

end ClassScript
