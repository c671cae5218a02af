import Mathlib.Tactic.Common
import ClassScript.Proofs.Token.Rules

/-!
# The division of a source text

Scanning cuts a text into pieces: gaps, longest tokens, and faults.  `Cut.Lawful` says what a piece
may be, given the text that has passed and the text that is ahead of it.

Main statement: `scan_divides`, every source text is divided into lawful pieces without loss, and
the items of the scan are those of the pieces, in order, with the end of input behind them.
-/

namespace ClassScript

def lineAt (passed : List Char) : Nat := 1 + lineBreaks passed

theorem lineAt_append (passed text : List Char) :
    lineAt (passed ++ text) = lineAt passed + lineBreaks text := by
  rw [lineAt, lineAt, lineBreaks, List.count_append, Nat.add_assoc]
  rfl

namespace Scan

/-- A piece of a text, with the item that is reported for it, if any. -/
structure Cut where
  text : List Char
  item : Option (Except LexError Token)

def blanks : List Char := [' ', '\t', '\r', '\n']

inductive Cut.Lawful (passed ahead : List Char) : Cut → Prop
  | blank {c : Char} (mem : c ∈ blanks) : Lawful passed ahead ⟨[c], none⟩
  | comment {text : List Char} (one_line : '\n' ∉ text) (ends : ∀ c ∈ ahead.head?, c = '\n') :
      Lawful passed ahead ⟨'/' :: '/' :: text, none⟩
  | token {kind : TokenKind} {literal : Option Literal} {text : List Char}
      (longest : Longest kind literal text ahead) (no_comment : ¬ ['/', '/'] <+: text ++ ahead) :
      Lawful passed ahead
        ⟨text, some (.ok ⟨kind, String.ofList text, literal, lineAt (passed ++ text)⟩)⟩
  | unexpected {c : Char} {fault : LexFault}
      (wording : fault.message = "Unexpected character: " ++ c.toString) (no_blank : c ∉ blanks)
      (no_quote : c ≠ '\'')
      (no_token : ∀ {kind literal text}, Matches kind literal text → ¬ text <+: c :: ahead) :
      Lawful passed ahead ⟨[c], some (.error ⟨fault, lineAt (passed ++ [c])⟩)⟩
  | unterminated {content : List Char} {fault : LexFault}
      (wording : fault.message = "Unterminated string.") (unquoted : '\'' ∉ content)
      (last : ahead = []) :
      Lawful passed ahead
        ⟨'\'' :: content, some (.error ⟨fault, lineAt (passed ++ '\'' :: content)⟩)⟩

theorem Cut.Lawful.kind_ne_eof {passed ahead : List Char} {cut : Cut} {token : Token}
    (lawful : cut.Lawful passed ahead) (item : cut.item = some (.ok token)) :
    token.kind ≠ .eof := by
  cases lawful with
  | blank | comment => cases item
  | token longest =>
      cases item
      exact longest.fits.kind_ne_eof
  | unexpected | unterminated => cases item

def Meaning.item? (lexeme : String) (line : Nat) : Meaning → Option (Except LexError Token)
  | .gap => none
  | .token kind literal => some (.ok ⟨kind, lexeme, literal, line⟩)
  | .fault reason => some (.error ⟨reason, line⟩)

def Piece.cut (passed : List Char) (first : Char) (piece : Piece) : Cut where
  text := first :: piece.tail
  item := piece.meaning.item? (String.ofList (first :: piece.tail))
    (lineAt (passed ++ first :: piece.tail))

variable {passed text : List Char} {first : Char} {kind : TokenKind}

theorem not_comment (no_slash : first ≠ '/') : ¬ ['/', '/'] <+: first :: text :=
  fun comment => no_slash (List.cons_prefix_cons.mp comment).1.symm

theorem lawful_single (mem : ([first], kind) ∈ symbols)
    (plain : first ∉ ['!', '=', '<', '>', '/']) :
    ((single kind text).cut passed first).Lawful passed text := by
  simp only [List.mem_cons, not_or] at plain
  exact .token (longest_symbol mem (.inl (by simp [plain]))) (not_comment plain.2.2.2.2.1)

theorem lawful_orEqual {long short : TokenKind} (mem_short : ([first], short) ∈ symbols)
    (mem_long : ([first, '='], long) ∈ symbols) (no_slash : first ≠ '/') :
    ((orEqual long short text).cut passed first).Lawful passed (orEqual long short text).rest := by
  unfold orEqual
  split
  · exact .token (longest_symbol_equal mem_long) (not_comment no_slash)
  · next no_equal =>
      refine .token (longest_symbol mem_short (.inr fun equal => ?_)) (not_comment no_slash)
      obtain ⟨rest, rfl⟩ := List.head?_eq_some_iff.mp equal
      exact no_equal rest rfl

theorem lawful_slashOrComment :
    ((slashOrComment text).cut passed '/').Lawful passed (slashOrComment text).rest := by
  unfold slashOrComment
  split
  · next text =>
      refine .comment (fun mem => ?_) fun c head => ?_
      · simpa using List.mem_takeWhile_imp mem
      · simpa using stops_dropWhile text c head
  · next no_slash =>
      refine .token (longest_symbol (by decide) (.inl (by decide))) fun comment => ?_
      obtain ⟨rest, rfl⟩ := (List.cons_prefix_cons.mp comment).2
      exact no_slash rest rfl

theorem unquoted_takeWhile : '\'' ∉ text.takeWhile (· != '\'') := fun mem => by
  simpa using List.mem_takeWhile_imp mem

theorem lawful_stringTail :
    ((stringTail text).cut passed '\'').Lawful passed (stringTail text).rest := by
  unfold stringTail
  split
  · exact .unterminated rfl unquoted_takeWhile rfl
  · next quote rest eq =>
      have stop := stops_dropWhile (p := (· != '\'')) text quote (by rw [eq]; rfl)
      obtain rfl : quote = '\'' := by simpa using stop
      exact .token (longest_string unquoted_takeWhile) (not_comment (by decide))

theorem digits_of_first (digit : first.isDigit) :
    ∀ d ∈ first :: text.takeWhile Char.isDigit, d.isDigit := by
  intro d mem
  rcases List.mem_cons.mp mem with rfl | mem
  · exact digit
  · exact List.mem_takeWhile_imp mem

theorem lawful_numberTail (digit : first.isDigit) :
    ((numberTail first text).cut passed first).Lawful passed (numberTail first text).rest := by
  have no_slash : first ≠ '/' := by
    rintro rfl
    cases digit
  have stops := stops_dropWhile (p := Char.isDigit) text
  unfold numberTail
  split
  · next d rest eq =>
      rw [eq] at stops
      split
      · next place =>
          exact .token (longest_decimal (digits_of_first digit) (List.cons_ne_nil _ _)
            (digits_of_first place) (stops_dropWhile rest)) (not_comment no_slash)
      · next no_place =>
          refine .token (longest_integer (digits_of_first digit) stops fun d' rest' same => ?_)
            (not_comment no_slash)
          cases same
          exact eq_false_of_ne_true no_place
  · next no_point =>
      refine .token (longest_integer (digits_of_first digit) stops fun d rest same => ?_)
        (not_comment no_slash)
      exact absurd same (no_point d rest)

theorem lawful_wordTail (start : startsWord first) :
    ((wordTail first text).cut passed first).Lawful passed (wordTail first text).rest := by
  refine .token (longest_word start (fun c => List.mem_takeWhile_imp) (stops_dropWhile text))
    (not_comment ?_)
  rintro rfl
  cases start

theorem lawful_firstPiece (passed : List Char) (first : Char) (text : List Char) :
    ((firstPiece first text).cut passed first).Lawful passed (firstPiece first text).rest := by
  unfold firstPiece
  split
  case h_11 | h_12 | h_13 | h_14 =>
      exact lawful_orEqual (by decide) (by decide) (by decide)
  case h_15 => exact lawful_slashOrComment
  case h_16 | h_17 | h_18 | h_19 => exact .blank (by decide)
  case h_20 => exact lawful_stringTail
  case h_21 =>
      split
      · next digit => exact lawful_numberTail digit
      · next no_digit =>
          split
          · next start => exact lawful_wordTail start
          · next no_word =>
              have no_quote : first ≠ '\'' := by assumption
              refine .unexpected rfl (fun mem => ?_) no_quote (not_matches_of_class (fun mem => ?_)
                no_quote (eq_false_of_ne_true no_digit) (eq_false_of_ne_true no_word))
              · simp only [blanks, List.mem_cons, List.not_mem_nil] at mem
                tauto
              · simp only [symbolHeads, symbols, List.filterMap_cons, List.head?_cons,
                  List.filterMap_nil, List.mem_cons, List.not_mem_nil] at mem
                tauto
  all_goals exact lawful_single (by decide) (by decide)

theorem scanFrom_cons (passed : List Char) (first : Char) (text : List Char) :
    scanFrom (lineAt passed) (first :: text) =
      ((firstPiece first text).cut passed first).item.toList ++
        scanFrom (lineAt (passed ++ first :: (firstPiece first text).tail))
          (firstPiece first text).rest := by
  rw [scanFrom, lineAt_append, Piece.cut, lineAt_append]
  cases (firstPiece first text).meaning <;> rfl

/-- The pieces of the text that is ahead, each lawful where it stands. -/
structure Divides (passed text : List Char) (cuts : List Cut) : Prop where
  whole : cuts.flatMap Cut.text = text
  lawful : ∀ {before cut after}, cuts = before ++ cut :: after →
    cut.Lawful (passed ++ before.flatMap Cut.text) (after.flatMap Cut.text)

theorem Divides.nil : Divides passed [] [] where
  whole := rfl
  lawful := by simp

theorem Divides.cons {cut : Cut} {rest : List Char} {cuts : List Cut}
    (lawful : cut.Lawful passed rest) (divides : Divides (passed ++ cut.text) rest cuts) :
    Divides passed (cut.text ++ rest) (cut :: cuts) where
  whole := by rw [List.flatMap_cons, divides.whole]
  lawful := by
    intro before cut' after eq
    cases before with
    | nil =>
        cases eq
        rw [divides.whole]
        simpa using lawful
    | cons first before =>
        cases eq
        simpa using divides.lawful rfl

theorem exists_divides (passed text : List Char) : ∃ cuts, Divides passed text cuts ∧
    scanFrom (lineAt passed) text =
      cuts.filterMap Cut.item ++ [.ok (Token.endOfInput (lineAt (passed ++ text)))] := by
  match text with
  | [] => exact ⟨[], .nil, by simp [scanFrom]⟩
  | first :: text =>
    let piece := firstPiece first text
    have whole : (first :: piece.tail) ++ piece.rest = first :: text :=
      congrArg (first :: ·) (tail_append_rest first text)
    obtain ⟨cuts, divides, items⟩ := exists_divides (passed ++ first :: piece.tail) piece.rest
    refine ⟨piece.cut passed first :: cuts, ?_, ?_⟩
    · rw [← whole]
      exact .cons (lawful_firstPiece passed first text) divides
    · rw [scanFrom_cons, items, List.append_assoc, whole, List.filterMap_cons]
      cases (piece.cut passed first).item <;> rfl
termination_by text.length
decreasing_by exact Nat.lt_succ_of_le (rest_length_le first text)

theorem Divides.kind_ne_eof {cuts : List Cut} {token : Token} (divides : Divides passed text cuts)
    (mem : .ok token ∈ cuts.filterMap Cut.item) : token.kind ≠ .eof := by
  obtain ⟨cut, mem, item⟩ := List.mem_filterMap.mp mem
  obtain ⟨before, after, rfl⟩ := List.append_of_mem mem
  exact (divides.lawful rfl).kind_ne_eof item

theorem Divides.isValid {source : String} {before after : List Cut}
    (divides : Divides [] source.toList (before ++ after)) :
    (String.ofList (before.flatMap Cut.text)).rawEndPos.IsValid source := by
  refine String.Pos.Raw.isValid_iff_exists_append.mpr
    ⟨_, String.ofList (after.flatMap Cut.text), ?_, rfl⟩
  rw [← String.ofList_append, ← List.flatMap_append, divides.whole, String.ofList_toList]

end Scan

theorem mapM_id_cases {ε α : Type} (items : List (Except ε α)) :
    (∃ values, items = values.map .ok ∧ items.mapM id = .ok values) ∨
      ∃ (values : List α) (error : ε) (rest : List (Except ε α)),
        items = values.map .ok ++ .error error :: rest ∧ items.mapM id = .error error := by
  induction items with
  | nil => exact .inl ⟨[], rfl, rfl⟩
  | cons item items ih =>
      cases item with
      | error error => exact .inr ⟨[], error, items, rfl, rfl⟩
      | ok value =>
          rcases ih with ⟨values, eq, result⟩ | ⟨values, error, rest, eq, result⟩
          · refine .inl ⟨value :: values, by rw [eq]; rfl, ?_⟩
            rw [List.mapM_cons, result]
            rfl
          · refine .inr ⟨value :: values, error, rest, by rw [eq]; rfl, ?_⟩
            rw [List.mapM_cons, result]
            rfl

/-- A source text is divided into lawful pieces, and the scan reports each of them in order and
then, once, the end of input.  Reading the tokens gives them all, or the first fault. -/
theorem scan_divides (source : String) :
    (∃ cuts : List Scan.Cut, Scan.Divides [] source.toList cuts ∧
      (∀ before after, cuts = before ++ after →
        (String.ofList (before.flatMap Scan.Cut.text)).rawEndPos.IsValid source) ∧
      scan source =
        cuts.filterMap Scan.Cut.item ++ [.ok (Token.endOfInput (lineAt source.toList))] ∧
      ∀ token, .ok token ∈ cuts.filterMap Scan.Cut.item → token.kind ≠ .eof) ∧
    ((∃ tokens, scan source = tokens.map .ok ∧ lex source = .ok tokens) ∨
      ∃ (tokens : List Token) (error : LexError) (rest : List (Except LexError Token)),
        scan source = tokens.map .ok ++ .error error :: rest ∧ lex source = .error error) := by
  obtain ⟨cuts, divides, items⟩ := Scan.exists_divides [] source.toList
  refine ⟨⟨cuts, divides, ?_, items, fun token => divides.kind_ne_eof⟩, mapM_id_cases _⟩
  rintro before after rfl
  exact divides.isValid

end ClassScript
