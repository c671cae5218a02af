import ClassScript.Proofs.Parser.Concatenation
import ClassScript.Proofs.Parser.Reports

/-!
# Recovery statement by statement

The faults of a program in which simple statements are damaged are those of the damaged statements
alone, one statement after the other (`recovers_exactly`). A chunk that fails does so in front of its
semicolon, and parsing resumes right behind it.
-/

namespace ClassScript

namespace Parser

open Grammar

variable {α β : Type} {s t : State} {p : Parser α} {q : α → Parser β} {chunk : List Token} {k : Nat}

def LastSemicolon (tokens : List Token) : Prop :=
  ∃ body semicolon, tokens = body ++ [semicolon] ∧ semicolon.kind = .semicolon ∧
    ∀ t ∈ body, t.kind ≠ .semicolon

theorem LastSemicolon.ne_nil {tokens : List Token} (h : LastSemicolon tokens) : tokens ≠ [] := by
  obtain ⟨body, semicolon, rfl, -, -⟩ := h
  simp

theorem LastSemicolon.tail {t : Token} {rest : List Token} (h : LastSemicolon (t :: rest))
    (other : t.kind ≠ .semicolon) : LastSemicolon rest := by
  obtain ⟨body, semicolon, eq, isSemicolon, others⟩ := h
  cases body with
  | nil =>
      cases eq
      exact absurd isSemicolon other
  | cons first body =>
      cases eq
      exact ⟨body, semicolon, rfl, isSemicolon, fun x mem => others x (List.mem_cons_of_mem _ mem)⟩

theorem LastSemicolon.of_append {taken rest : List Token} (h : LastSemicolon (taken ++ rest))
    (others : ∀ x ∈ taken, x.kind ≠ .semicolon) : LastSemicolon rest := by
  induction taken with
  | nil => exact h
  | cons first taken ih =>
      exact ih (h.tail (others first List.mem_cons_self)) fun x mem =>
        others x (List.mem_cons_of_mem _ mem)

theorem LastSemicolon.takes {only : TokenKind → Bool} (h : LastSemicolon s.tokens)
    (hst : s.Takes only t) (spared : only .semicolon = false) : LastSemicolon t.tokens := by
  obtain ⟨taken, eq⟩ := hst.tokens
  rw [← eq] at h
  apply h.of_append
  intro x mem isSemicolon
  have wanted := hst.kinds taken eq.symm x mem
  rw [isSemicolon, spared] at wanted
  contradiction

def Spares (p : Parser α) (s : State) : Prop :=
  Ends p s (fun _ t => t.stop = s.stop ∧ t.tokens.length ≤ s.tokens.length ∧
    LastSemicolon t.tokens) fun _ t => LastSemicolon t.tokens

def Finishes (p : Parser α) (s : State) : Prop :=
  Ends p s (fun _ t => t.tokens = []) fun _ t => LastSemicolon t.tokens

theorem Spares.then (h : Spares p s)
    (next : ∀ a t, t.stop = s.stop → t.tokens.length ≤ s.tokens.length →
      LastSemicolon t.tokens → Finishes (q a) t) : Finishes (p >>= q) s := by
  apply ends_bind.mpr
  apply Ends.imp h
  · rintro a t ⟨stop, le, last⟩
    exact next a t stop le last
  · exact fun _ _ last => last

theorem Carries.spares {w : Surroundings} {only : TokenKind → Bool} {m : Mode} {f : α → β}
    {p' : Parser β} (h : Carries w only m f p p' s) (spared : only .semicolon = false)
    (last : LastSemicolon s.tokens) : Spares p s := by
  apply Ends.imp h
  · exact fun _ _ h => ⟨h.1.stop, h.1.length_le, last.takes h.1 spared⟩
  · exact fun _ _ h => last.takes h.1 spared

theorem spares_expression (stop : s.stop.kind = .eof) (short : s.tokens.length ≤ k)
    (last : LastSemicolon s.tokens) : Spares (expression k) s :=
  (carries_expression (w := nowhere s stop) k k stop ⟨short, short⟩).spares rfl last

theorem spares_expect (what : Expectation) (stop : s.stop.kind = .eof)
    (other : what.kind ≠ .semicolon) (last : LastSemicolon s.tokens) : Spares (expect what) s := by
  have carries : Carries (nowhere s stop) (· != .semicolon) ⟨true, true⟩ id (expect what)
      (expect what) s := carries_expect what (bne_iff_ne.mpr other)
  exact carries.spares rfl last

theorem finishes_expect {a : α} (what : Expectation) (semicolon : what.kind = .semicolon)
    (last : LastSemicolon s.tokens) : Finishes (do discard <| expect what; return a) s := by
  apply ends_bind.mpr
  apply ends_discard.mpr
  apply ends_bind.mpr
  obtain ⟨body, token, tokens, isSemicolon, others⟩ := last
  cases body with
  | nil =>
      have fits : (token.kind == what.kind) = true := by simp [semicolon, isSemicolon]
      exact (ends_ok_iff (accept?_found tokens fits)).mpr rfl
  | cons first body =>
      have other : startsWith (· == what.kind) s.tokens = false := by
        simp [tokens, semicolon, others first List.mem_cons_self]
      exact (ends_ok_iff (accept?_missed other)).mpr
        ⟨first :: body, token, tokens, isSemicolon, others⟩

theorem finishes_accept? {wanted : TokenKind → Bool} {q : Option Token → Parser α}
    (found : ∀ token rest, s.tokens = token :: rest → wanted token.kind = true →
      Finishes (q (some token)) { s with tokens := rest })
    (missed : startsWith wanted s.tokens = false → Finishes (q none) s) :
    Finishes (accept? wanted >>= q) s := by
  apply ends_bind.mpr
  cases first : startsWith wanted s.tokens with
  | false => exact (ends_ok_iff (accept?_missed first)).mpr (missed first)
  | true =>
      cases tokens : s.tokens with
      | nil =>
          rw [tokens] at first
          cases first
      | cons token rest =>
          rw [tokens] at first
          exact (ends_ok_iff (accept?_found tokens first)).mpr (found token rest tokens first)

section

variable (stop : s.stop.kind = .eof) (short : s.tokens.length ≤ k) (last : LastSemicolon s.tokens)

include stop short last

theorem finishes_expression {what : Expectation} {node : Expr → α}
    (semicolon : what.kind = .semicolon) :
    Finishes (do let e ← expression k; discard <| expect what; return node e) s :=
  (spares_expression stop short last).then fun _ _ _ _ last => finishes_expect what semicolon last

theorem finishes_varDeclaration : Finishes (varDeclaration k) s := by
  apply (spares_expect .variableName stop nofun last).then
  intro name t same le last
  apply finishes_accept?
  · intro equals rest tokens wanted
    rw [tokens] at last le
    have isEqual : equals.kind = .equal := beq_iff_eq.mp wanted
    have last : LastSemicolon rest := last.tail (by rw [isEqual]; exact nofun)
    have short : rest.length ≤ k := Nat.le_trans (Nat.le_of_succ_le le) short
    have value : Spares (some <$> expression k) { t with tokens := rest } :=
      ends_map.mpr (spares_expression (s := { t with tokens := rest }) (same ▸ stop) short last)
    exact value.then fun _ _ _ _ last => finishes_expect .varDeclEnd rfl last
  · exact fun _ => finishes_expect .varDeclEnd rfl last

theorem finishes_returnValue (keyword : Token) :
    Finishes (do
      let value ← optionalExpression k .semicolon
      discard <| expect .returnEnd
      return Stmt.return keyword value) s := by
  have value : Spares (optionalExpression k .semicolon) s := by
    apply ends_bind.mpr
    have run : sees .semicolon s = .ok (startsWith (· == .semicolon) s.tokens) s := rfl
    apply (ends_ok_iff run).mpr
    split
    · exact ⟨rfl, Nat.le_refl _, last⟩
    · apply ends_bind.mpr
      exact spares_expression stop short last
  exact value.then fun _ _ _ _ last => finishes_expect .returnEnd rfl last

end

theorem Chunk.starts {t : Token} {rest : List Token} (h : Chunk (t :: rest)) :
    t.kind = .kwVar ∨
      (t.kind = .kwPrint ∨ t.kind = .kwReturn ∨ t.kind = .kwBreak ∨ t.kind = .kwContinue) ∨
        (t.kind == .kwClass || t.kind == .kwFun || t.kind == .kwVar) = false ∧
          opensStatement t.kind = false := by
  have first := h.first t rfl
  have noBrace := (h.noBrace t List.mem_cons_self).1
  generalize t.kind = kind at *
  cases kind <;> simp_all [opensStatement, startsStatement]

theorem finishes_chunk {declaration : Parser (Option Stmt)} {statement : Parser Stmt}
    (h : Chunk s.tokens) (stop : s.stop.kind = .eof) (short : s.tokens.length ≤ k) :
    Finishes (declarationRule k declaration statement) s := by
  have last : LastSemicolon s.tokens := h.ends
  have behind {token : Token} {rest : List Token} (tokens : s.tokens = token :: rest)
      (other : token.kind ≠ .semicolon) : rest.length ≤ k ∧ LastSemicolon rest := by
    rw [tokens] at short last
    exact ⟨Nat.le_of_succ_le short, last.tail other⟩
  apply finishes_accept?
  · intro token rest tokens wanted
    rw [tokens] at h
    obtain isVar | kind | other := Chunk.starts h
    · obtain ⟨short, last⟩ := behind tokens (by rw [isVar]; exact nofun)
      simp only [isVar]
      exact finishes_varDeclaration stop short last
    · obtain kind | kind | kind | kind := kind <;> rw [kind] at wanted <;> cases wanted
    · rw [other.1] at wanted
      cases wanted
  · intro noDeclaration
    apply finishes_accept?
    · intro token rest tokens wanted
      rw [tokens] at h noDeclaration
      obtain isVar | kind | other := Chunk.starts h
      · rw [startsWith_cons, isVar] at noDeclaration
        cases noDeclaration
      · have other : token.kind ≠ .semicolon := by
          obtain kind | kind | kind | kind := kind <;> rw [kind] <;> exact nofun
        obtain ⟨short, last⟩ := behind tokens other
        obtain kind | kind | kind | kind := kind <;> simp only [keywordStatement, kind]
        · exact finishes_expression (s := { s with tokens := rest }) stop short last rfl
        · exact finishes_returnValue (s := { s with tokens := rest }) stop short last token
        · exact finishes_expect .breakEnd rfl last
        · exact finishes_expect .continueEnd rfl last
      · rw [other.2] at wanted
        cases wanted
    · intro _
      exact finishes_expression stop short last rfl

theorem resumeAfter_last {skipped : Token} {rest : List Token} (last : LastSemicolon (skipped :: rest))
    (later : ∀ t ∈ rest, startsStatement t.kind = false) (behind : List Token) :
    resumeAfter skipped (rest ++ behind) = behind := by
  induction rest generalizing skipped with
  | nil =>
      obtain ⟨body, semicolon, eq, isSemicolon, -⟩ := last
      have same : skipped = semicolon := by
        cases body with
        | nil => cases eq; rfl
        | cons first body => simp at eq
      rw [List.nil_append]
      cases behind with
      | nil => rfl
      | cons t behind => simp [resumeAfter, same, isSemicolon]
  | cons t rest ih =>
      have other : skipped.kind ≠ .semicolon := by
        obtain ⟨body, semicolon, eq, -, others⟩ := last
        cases body with
        | nil => simp at eq
        | cons first body =>
            obtain ⟨rfl, -⟩ := List.cons.inj eq
            exact others _ List.mem_cons_self
      have goesOn : (skipped.kind == .semicolon || startsStatement t.kind) = false := by
        simp [other, later t List.mem_cons_self]
      rw [List.cons_append, resumeAfter, goesOn]
      exact ih (last.tail other) fun x mem => later x (List.mem_cons_of_mem _ mem)

theorem resume_last {tokens : List Token} (last : LastSemicolon tokens)
    (later : ∀ t ∈ tokens.tail, startsStatement t.kind = false) (behind : List Token) :
    resume (tokens ++ behind) = behind := by
  cases tokens with
  | nil => exact absurd rfl last.ne_nil
  | cons t rest => exact resumeAfter_last last later behind

theorem tail_of_suffix {tokens chunk : List Token} (suffix : tokens <:+ chunk) :
    tokens.tail ⊆ chunk.tail := by
  obtain ⟨taken, rfl⟩ := suffix
  cases taken with
  | nil => exact fun _ h => h
  | cons t taken => exact fun x mem => List.mem_append_right _ (List.mem_of_mem_tail mem)

theorem recovers_chunk {m : Nat} (h : Chunk s.tokens) (stop : s.stop.kind = .eof)
    (short : s.tokens.length ≤ m + 1) : ∃ faults, ∀ w : Surroundings,
      startsWith (· == .kwElse) w.behind = false → ∀ k, w.Fits (m + 1) (k + 1) s →
        Ends (declaration (k + 1)) (w.place s) (fun _ t => t.tokens = w.behind ∧ t.stop = w.stop ∧
          t.recorded = w.faults ++ faults) fun _ _ => False := by
  have finishes : Finishes (declarationRule (m + 1) (declaration m) (statement m)) s :=
    finishes_chunk h stop short
  unfold Finishes Ends at finishes
  cases run : declarationRule (m + 1) (declaration m) (statement m) s with
  | ok x t =>
      rw [run] at finishes
      refine ⟨t.recorded, fun w noElse k fits => ?_⟩
      obtain ⟨-, -, carried⟩ := (ends_ok_iff run).mp (carries_rule noElse stop fits)
      unfold Ends
      rw [declaration, recovering, carried (.inl rfl)]
      exact ⟨by simp only [Surroundings.place, finishes, List.nil_append], rfl, rfl⟩
  | error e t =>
      rw [run] at finishes
      have last : LastSemicolon t.tokens := finishes
      refine ⟨t.recorded ++ [e], fun w noElse k fits => ?_⟩
      have carried := carries_rule (k := m) noElse stop fits
      unfold CarriesStmt Carries Ends at carried
      rw [run] at carried
      obtain ⟨takes, carried⟩ := carried
      unfold Ends
      rw [declaration, recovering, carried (.inl last.ne_nil)]
      refine ⟨?_, rfl, List.append_assoc _ _ _⟩
      exact resume_last last (fun x mem => h.later x (tail_of_suffix takes.tokens mem)) w.behind

theorem Chunk.reported (h : Chunk chunk) : ∃ faults, ReportedStmt faults chunk .declaration := by
  have start := start_endless h.noEnd 0
  have tokens : (State.start 0 chunk).tokens = chunk := by rw [start]
  have positive : 0 < chunk.length := List.length_pos_iff.mpr (LastSemicolon.ne_nil h.ends)
  obtain ⟨m, length⟩ := Nat.exists_eq_add_one.mpr positive
  have short : (State.start 0 chunk).tokens.length ≤ m + 1 := by rw [tokens, length]
  have isChunk : Chunk (State.start 0 chunk).tokens := by rwa [tokens]
  obtain ⟨faults, recovers⟩ := recovers_chunk isChunk (start_stop 0 chunk) short
  refine ⟨faults, fun bound a enough nearest s eq stop => ?_⟩
  rw [List.length_append] at enough
  obtain ⟨k, rfl⟩ := Nat.exists_eq_add_one.mpr (show 0 < bound by omega)
  let w : Surroundings := ⟨s.nextId, s.recorded, a, s.stop, stop⟩
  have placed : w.place (State.start 0 chunk) = s := by
    rw [start]
    simp only [Surroundings.place, w, ← eq, Nat.zero_add, List.append_nil]
  have read := recovers w nearest k ⟨short, by rw [tokens]; exact enough⟩
  rwa [placed] at read

end Parser

open ClassScript.Parser ClassScript.Grammar

/-- The faults of a list of tokens that is parsed alone. -/
def faultsAlone (firstId : Nat) (tokens : List Token) : List ParseError :=
  match (parseProgram firstId tokens).result with
  | .ok _ => []
  | .error faults => faults

theorem parseProgram_of_reported {tokens : List Token} {faults : List ParseError}
    (h : ReportedStmt faults (written tokens) .declarations) (firstId : Nat) :
    ∃ p, (parseProgram firstId tokens).result = if faults.isEmpty then .ok p else .error faults := by
  have short : (written tokens ++ []).length ≤ (written tokens).length := by
    rw [List.append_nil]
  have run := h (fun _ => false) _ _ [] short short nofun rfl (State.start firstId tokens)
    (List.append_nil _).symm (start_stop firstId tokens)
  unfold Ends at run
  split at run
  · rename_i found t ran
    obtain ⟨-, -, recorded⟩ := run
    refine ⟨found.filterMap id, ?_⟩
    rw [parseProgram_of_many ran, recorded]
    rfl
  · exact run.elim

theorem Chunk.reported_alone {chunk : List Token} (h : Chunk chunk) (firstId : Nat) :
    ReportedStmt (faultsAlone firstId chunk) chunk .declaration ∧
      ∃ p, (parseProgram firstId chunk).result =
        if (faultsAlone firstId chunk).isEmpty then .ok p else .error (faultsAlone firstId chunk) := by
  obtain ⟨faults, reported⟩ := Chunk.reported h
  have nothing : ReportedStmt [] [] .declarations := reported_of_derives .noDeclaration
  have all : ReportedStmt faults (written chunk) .declarations := by
    have alone := reported_declarations reported h.opens nothing (.inl rfl)
    rwa [List.append_nil, List.append_nil, ← written_of_noEnd h.noEnd] at alone
  obtain ⟨p, result⟩ := parseProgram_of_reported all firstId
  have same : faultsAlone firstId chunk = faults := by
    unfold faultsAlone
    rw [result]
    cases faults <;> rfl
  rw [same]
  exact ⟨reported, p, result⟩

/-- Recovery is exactly per statement: if simple statements of a program that parses are replaced by
chunks that do not, the faults are those of the chunks, each as if it stood alone. -/
theorem recovers_exactly {original damaged : List Token} {chunks : List (List Token)}
    (h : Damaged .declarations (written original) (written damaged) chunks) (some : chunks ≠ [])
    (firstId aloneId : Nat)
    (fails : ∀ c ∈ chunks, ∃ faults, (parseProgram aloneId c).result = .error faults) :
    (∃ p, (parseProgram firstId original).result = .ok p) ∧
      (parseProgram firstId damaged).result = .error (chunks.flatMap (faultsAlone aloneId)) := by
  constructor
  · obtain ⟨tree, derives⟩ := h.derives
    obtain ⟨p, parsed, -⟩ := parseProgram_of_derives derives firstId
    exact ⟨p, parsed⟩
  · have reported := reported_of_damaged (faultsAlone aloneId)
      (fun c isChunk => (Chunk.reported_alone isChunk aloneId).1) h
    obtain ⟨p, result⟩ := parseProgram_of_reported reported firstId
    have faulty : (chunks.flatMap (faultsAlone aloneId)).isEmpty = false := by
      obtain ⟨c, rest, rfl⟩ := List.exists_cons_of_ne_nil some
      obtain ⟨-, p, alone⟩ := Chunk.reported_alone (h.chunk c List.mem_cons_self) aloneId
      obtain ⟨faults, failed⟩ := fails c List.mem_cons_self
      rw [failed] at alone
      rw [List.flatMap_cons]
      cases first : faultsAlone aloneId c with
      | nil => simp [first] at alone
      | cons fault faults => rfl
    rw [result, faulty]
    rfl

/-! A `break` in a block and one behind it, both of which are damaged. -/

def openBlock : Token := ⟨.leftBrace, "\x7b", none, 1⟩

def closeBlock : Token := ⟨.rightBrace, "\x7d", none, 1⟩

def breakLoop : List Token := [⟨.kwBreak, "break", none, 1⟩, ⟨.semicolon, ";", none, 1⟩]

def openGroup : List Token := [⟨.leftParen, "(", none, 1⟩, ⟨.semicolon, ";", none, 1⟩]

def emptyPrint : List Token := [⟨.kwPrint, "print", none, 2⟩, ⟨.semicolon, ";", none, 2⟩]

theorem chunk_openGroup : Chunk openGroup where
  ends := ⟨[⟨.leftParen, "(", none, 1⟩], ⟨.semicolon, ";", none, 1⟩, rfl, rfl, by decide⟩
  noEnd := by decide
  noBrace := by decide
  noElse := rfl
  first := by decide
  later := by decide

theorem chunk_emptyPrint : Chunk emptyPrint where
  ends := ⟨[⟨.kwPrint, "print", none, 2⟩], ⟨.semicolon, ";", none, 2⟩, rfl, rfl, by decide⟩
  noEnd := by decide
  noBrace := by decide
  noElse := rfl
  first := by decide
  later := by decide

theorem damaged_breakLoop {chunk : List Token} (h : Chunk chunk) :
    Damaged .declaration breakLoop chunk [chunk] :=
  .replaced (s := .break ⟨.kwBreak, "break", none, 1⟩) (.statement (.breakStmt rfl rfl)) rfl h

theorem recovers_exactly_twoBreaks :
    (parseProgram 0 (openBlock :: openGroup ++ closeBlock :: emptyPrint)).result =
      .error [⟨.expectedExpression ";", 1⟩, ⟨.expectedExpression ";", 2⟩] := by
  have nothing : Damaged .declarations [] [] [] := .intact .noDeclaration
  have inner : Damaged .declarations breakLoop openGroup [openGroup] :=
    .declarations (damaged_breakLoop chunk_openGroup) nothing
  have first : Damaged .declaration (openBlock :: (breakLoop ++ [closeBlock]))
      (openBlock :: (openGroup ++ [closeBlock])) [openGroup] := .statement (.block rfl inner rfl)
  have second : Damaged .declarations breakLoop emptyPrint [emptyPrint] :=
    .declarations (damaged_breakLoop chunk_emptyPrint) nothing
  have both : Damaged .declarations (written (openBlock :: breakLoop ++ closeBlock :: breakLoop))
      (written (openBlock :: openGroup ++ closeBlock :: emptyPrint)) [openGroup, emptyPrint] :=
    .declarations first second
  have fails : ∀ c ∈ [openGroup, emptyPrint],
      ∃ faults, (parseProgram 0 c).result = .error faults := by
    intro c mem
    rw [List.mem_cons, List.mem_singleton] at mem
    rcases mem with rfl | rfl
    · exact ⟨_, rfl⟩
    · exact ⟨_, rfl⟩
  exact (recovers_exactly both (List.cons_ne_nil _ _) 0 0 fails).2

end ClassScript
