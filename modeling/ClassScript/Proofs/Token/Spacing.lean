import ClassScript.Proofs.Token.Division

namespace ClassScript

namespace Scan

variable {first : Char} {text ahead gap passed tail rest : List Char} {kind : TokenKind}
  {literal : Option Literal}

/-- Blanks, and comments with the line breaks that end them. -/
inductive Filler : List Char → Prop
  | nil : Filler []
  | blank {c : Char} {rest : List Char} : c ∈ blanks → Filler rest → Filler (c :: rest)
  | comment {text rest : List Char} : '\n' ∉ text → Filler rest →
      Filler ('/' :: '/' :: (text ++ '\n' :: rest))

/-- What keeps two tokens apart: it begins with a blank. -/
inductive Separator : List Char → Prop
  | mk {c : Char} {rest : List Char} : c ∈ blanks → Filler rest → Separator (c :: rest)

theorem Separator.filler (h : Separator gap) : Filler gap := by
  cases h with
  | mk mem rest => exact .blank mem rest

/-- The text is at its end, or goes on with a blank. -/
def Apart (ahead : List Char) : Prop := ∀ c ∈ ahead.head?, c ∈ blanks

theorem apart_nil : Apart [] := nofun

theorem Separator.apart (h : Separator gap) (rest : List Char) : Apart (gap ++ rest) := by
  cases h with
  | mk mem =>
      rintro c ⟨⟩
      exact mem

theorem Apart.stops {p : Char → Bool} (apart : Apart ahead) (none : ∀ c ∈ blanks, p c = false) :
    Stops p ahead := fun c head => none c (apart c head)

theorem Apart.ne_cons {c : Char} (apart : Apart ahead) (plain : c ∉ blanks) (rest : List Char) :
    ahead ≠ c :: rest := by
  rintro rfl
  exact plain (apart c rfl)

theorem Stops.takeWhile_append {p : Char → Bool} (all : ∀ c ∈ text, p c) (stops : Stops p ahead) :
    (text ++ ahead).takeWhile p = text := by
  rw [List.takeWhile_append_of_pos all, stops.takeWhile, List.append_nil]

theorem Stops.dropWhile_append {p : Char → Bool} (all : ∀ c ∈ text, p c) (stops : Stops p ahead) :
    (text ++ ahead).dropWhile p = ahead := by
  have whole := List.takeWhile_append_dropWhile (p := p) (l := text ++ ahead)
  rw [stops.takeWhile_append all] at whole
  exact List.append_cancel_left whole

theorem blanks_no_digits : ∀ c ∈ blanks, c.isDigit = false := by
  simp [blanks]

theorem blanks_no_words : ∀ c ∈ blanks, continuesWord c = false := by
  simp [blanks, continuesWord]

theorem single_apart {own : TokenKind} (h : single own text = ⟨.token kind literal, tail, rest⟩) :
    single own (tail ++ ahead) = ⟨.token kind literal, tail, ahead⟩ := by
  cases h
  rfl

theorem orEqual_apart {long short : TokenKind} (apart : Apart ahead)
    (h : orEqual long short text = ⟨.token kind literal, tail, rest⟩) :
    orEqual long short (tail ++ ahead) = ⟨.token kind literal, tail, ahead⟩ := by
  unfold orEqual at h
  split at h
  · cases h
    rfl
  · cases h
    unfold orEqual
    split
    · rename_i eq
      exact absurd eq (apart.ne_cons (by decide) _)
    · rfl

theorem slashOrComment_apart (apart : Apart ahead)
    (h : slashOrComment text = ⟨.token kind literal, tail, rest⟩) :
    slashOrComment (tail ++ ahead) = ⟨.token kind literal, tail, ahead⟩ := by
  unfold slashOrComment at h
  split at h
  · cases h
  · cases h
    unfold slashOrComment
    split
    · rename_i eq
      exact absurd eq (apart.ne_cons (by decide) _)
    · rfl

theorem stringTail_apart (h : stringTail text = ⟨.token kind literal, tail, rest⟩) :
    stringTail (tail ++ ahead) = ⟨.token kind literal, tail, ahead⟩ := by
  unfold stringTail at h
  split at h
  · cases h
  · rename_i quote behind eq
    have stop := stops_dropWhile (p := (· != '\'')) text quote (by rw [eq]; rfl)
    obtain rfl : quote = '\'' := by simpa using stop
    cases h
    have content : ∀ c ∈ text.takeWhile (· != '\''), (c != '\'') = true :=
      fun c => List.mem_takeWhile_imp
    have quoted : Stops (· != '\'') ('\'' :: ahead) := stops_quote
    rw [List.append_assoc, List.singleton_append, stringTail, quoted.dropWhile_append content,
      quoted.takeWhile_append content]

theorem wordTail_apart (apart : Apart ahead)
    (h : wordTail first text = ⟨.token kind literal, tail, rest⟩) :
    wordTail first (tail ++ ahead) = ⟨.token kind literal, tail, ahead⟩ := by
  have stops : Stops continuesWord ahead := apart.stops blanks_no_words
  cases h
  have letters : ∀ c ∈ text.takeWhile continuesWord, continuesWord c := fun c =>
    List.mem_takeWhile_imp
  rw [wordTail, stops.takeWhile_append letters, stops.dropWhile_append letters]

theorem numberTail_integer {whole : List Char} (digits : ∀ c ∈ whole, c.isDigit)
    (apart : Apart ahead) :
    numberTail first (whole ++ ahead) = ⟨numberMeaning (first :: whole) [], whole, ahead⟩ := by
  have stops : Stops Char.isDigit ahead := apart.stops blanks_no_digits
  rw [numberTail, stops.dropWhile_append digits, stops.takeWhile_append digits]
  split
  · exact absurd rfl (apart.ne_cons (by decide) _)
  · rfl

theorem numberTail_decimal {whole fraction : List Char} {d : Char}
    (digits : ∀ c ∈ whole, c.isDigit) (place : d.isDigit) (places : ∀ c ∈ fraction, c.isDigit)
    (stops : Stops Char.isDigit ahead) :
    numberTail first (whole ++ '.' :: d :: (fraction ++ ahead)) =
      ⟨numberMeaning (first :: whole) (d :: fraction), whole ++ '.' :: d :: fraction, ahead⟩ := by
  have point : Stops Char.isDigit ('.' :: d :: (fraction ++ ahead)) := stops_point
  simp only [numberTail, point.dropWhile_append digits, point.takeWhile_append digits, place,
    if_true, stops.dropWhile_append places, stops.takeWhile_append places]

theorem numberTail_apart (apart : Apart ahead)
    (h : numberTail first text = ⟨.token kind literal, tail, rest⟩) :
    numberTail first (tail ++ ahead) = ⟨.token kind literal, tail, ahead⟩ := by
  have digits : ∀ c ∈ text.takeWhile Char.isDigit, c.isDigit := fun c => List.mem_takeWhile_imp
  unfold numberTail at h
  dsimp only at h
  split at h
  · rename_i d behind eq
    split at h
    · rename_i place
      cases h
      rw [List.append_assoc, List.cons_append, List.cons_append]
      exact numberTail_decimal digits place (fun c => List.mem_takeWhile_imp)
        (apart.stops blanks_no_digits)
    · cases h
      exact numberTail_integer digits apart
  · cases h
    exact numberTail_integer digits apart

theorem firstPiece_apart (apart : Apart ahead)
    (h : firstPiece first text = ⟨.token kind literal, tail, rest⟩) :
    firstPiece first (tail ++ ahead) = ⟨.token kind literal, tail, ahead⟩ := by
  unfold firstPiece at h ⊢
  split at h
  case h_11 | h_12 | h_13 | h_14 => exact orEqual_apart apart h
  case h_15 => exact slashOrComment_apart apart h
  case h_16 | h_17 | h_18 | h_19 => cases h
  case h_20 => exact stringTail_apart h
  case h_21 =>
      split at h
      · rename_i digit
        rw [if_pos digit]
        exact numberTail_apart apart h
      · rename_i no_digit
        rw [if_neg no_digit]
        split at h
        · rename_i start
          rw [if_pos start]
          exact wordTail_apart apart h
        · cases h
  all_goals exact single_apart h

theorem firstPiece_blank {c : Char} (mem : c ∈ blanks) (text : List Char) :
    firstPiece c text = ⟨.gap, [], text⟩ := by
  simp only [blanks, List.mem_cons, List.not_mem_nil, or_false] at mem
  rcases mem with rfl | rfl | rfl | rfl <;> rfl

theorem firstPiece_comment (one_line : '\n' ∉ text) (rest : List Char) :
    firstPiece '/' ('/' :: (text ++ '\n' :: rest)) = ⟨.gap, '/' :: text, '\n' :: rest⟩ := by
  have all : ∀ c ∈ text, (c != '\n') = true := fun c mem => by
    rw [bne_iff_ne]
    rintro rfl
    exact one_line mem
  have stops : Stops (· != '\n') ('\n' :: rest) := by
    rintro c ⟨⟩
    rfl
  simp only [firstPiece, slashOrComment, stops.takeWhile_append all, stops.dropWhile_append all]

theorem scanFrom_gap (gap : firstPiece first text = ⟨.gap, tail, rest⟩) :
    scanFrom (lineAt passed) (first :: text) =
      scanFrom (lineAt (passed ++ first :: tail)) rest := by
  rw [scanFrom_cons, gap]
  rfl

theorem scanFrom_filler (filler : Filler gap) (passed rest : List Char) :
    scanFrom (lineAt passed) (gap ++ rest) = scanFrom (lineAt (passed ++ gap)) rest := by
  induction filler generalizing passed with
  | nil => rw [List.nil_append, List.append_nil]
  | @blank c gap mem _ ih =>
      rw [List.cons_append, scanFrom_gap (firstPiece_blank mem _), ih, List.append_assoc]
      rfl
  | @comment text gap one_line _ ih =>
      have last : '\n' ∈ blanks := by decide
      rw [List.cons_append, List.cons_append, List.append_assoc, List.cons_append,
        scanFrom_gap (firstPiece_comment one_line _), scanFrom_gap (firstPiece_blank last _), ih]
      simp only [List.append_assoc, List.cons_append, List.nil_append]

end Scan

structure Token.ReadFrom (t : Token) (first : Char) (tail : List Char) : Prop where
  lexeme : t.lexeme.toList = first :: tail
  piece : ∃ text rest, Scan.firstPiece first text = ⟨.token t.kind t.literal, tail, rest⟩

theorem readFrom_scanFrom {line : Nat} {text : List Char} {t : Token}
    (h : .ok t ∈ scanFrom line text) : (∃ line, t = Token.endOfInput line) ∨
      ∃ first tail, t.ReadFrom first tail := by
  fun_induction scanFrom line text with
  | case1 line =>
      cases List.mem_singleton.mp h
      exact .inl ⟨line, rfl⟩
  | case2 line first text piece line' meaning ih => exact ih h
  | case3 line first text piece line' kind literal meaning ih =>
      rcases List.mem_cons.mp h with eq | h
      · cases eq
        exact .inr ⟨first, piece.tail, String.toList_ofList, text, piece.rest, by rw [← meaning]⟩
      · exact ih h
  | case4 line first text piece line' fault meaning ih =>
      rcases List.mem_cons.mp h with eq | h
      · cases eq
      · exact ih h

theorem Token.ReadFrom.scanFrom {t : Token} {first : Char} {tail ahead : List Char}
    (h : t.ReadFrom first tail) (apart : Scan.Apart ahead) (passed : List Char) :
    scanFrom (lineAt passed) (t.lexeme.toList ++ ahead) =
      .ok { t with line := lineAt (passed ++ t.lexeme.toList) } ::
        ClassScript.scanFrom (lineAt (passed ++ t.lexeme.toList)) ahead := by
  obtain ⟨text, rest, piece⟩ := h.piece
  have again := Scan.firstPiece_apart apart piece
  rw [h.lexeme, List.cons_append, Scan.scanFrom_cons, again]
  have lexeme : String.ofList (first :: tail) = t.lexeme := by rw [← h.lexeme, String.ofList_toList]
  simp only [Scan.Piece.cut, Scan.Meaning.item?, lexeme]
  rfl

/-- A token with what is written between it and the token before. -/
structure Spaced where
  gap : List Char
  token : Token

def Spaced.text (x : Spaced) : List Char := x.gap ++ x.token.lexeme.toList

/-- The tokens in order, with a separator between each two; in front of the first one and behind the
last one there may be a separator too. -/
structure Spacing (tokens : List Token) (spaced : List Spaced) (last : List Char) : Prop where
  tokens : spaced.map Spaced.token = tokens
  first : ∀ x ∈ spaced.head?, x.gap = [] ∨ Scan.Separator x.gap
  between : ∀ x ∈ spaced.tail, Scan.Separator x.gap
  last : last = [] ∨ Scan.Separator last

/-- The tokens with the lines where they stand behind the passed text. -/
def placed (passed : List Char) : List Spaced → List Token
  | [] => []
  | x :: rest =>
    { x.token with line := lineAt (passed ++ x.text) } :: placed (passed ++ x.text) rest

variable {tokens : List Token} {spaced : List Spaced} {last : List Char}

theorem filler_of_optional {gap : List Char} (h : gap = [] ∨ Scan.Separator gap) :
    Scan.Filler gap := by
  rcases h with rfl | separator
  · exact .nil
  · exact separator.filler

theorem apart_of_between (between : ∀ x ∈ spaced, Scan.Separator x.gap)
    (atEnd : last = [] ∨ Scan.Separator last) :
    Scan.Apart (spaced.flatMap Spaced.text ++ last) := by
  cases spaced with
  | nil =>
      rcases atEnd with rfl | separator
      · exact Scan.apart_nil
      · simpa using separator.apart []
  | cons x rest =>
      rw [List.flatMap_cons, Spaced.text, List.append_assoc, List.append_assoc]
      exact (between x List.mem_cons_self).apart _

theorem scanFrom_spaced (readFrom : ∀ x ∈ spaced, ∃ first tail, x.token.ReadFrom first tail)
    (first : ∀ x ∈ spaced.head?, Scan.Filler x.gap)
    (between : ∀ x ∈ spaced.tail, Scan.Separator x.gap)
    (atEnd : last = [] ∨ Scan.Separator last) (passed : List Char) :
    scanFrom (lineAt passed) (spaced.flatMap Spaced.text ++ last) =
      (placed passed spaced ++
        [Token.endOfInput (lineAt (passed ++ (spaced.flatMap Spaced.text ++ last)))]).map .ok := by
  induction spaced generalizing passed with
  | nil =>
      have filler := Scan.scanFrom_filler (filler_of_optional atEnd) passed []
      rw [List.append_nil, scanFrom] at filler
      exact filler
  | cons x rest ih =>
      obtain ⟨c, tail, readFrom'⟩ := readFrom x List.mem_cons_self
      have apart : Scan.Apart (rest.flatMap Spaced.text ++ last) := apart_of_between between atEnd
      have others := ih (fun y mem => readFrom y (List.mem_cons_of_mem _ mem))
        (fun y head => (between y (List.mem_of_mem_head? head)).filler)
        (fun y mem => between y (List.mem_of_mem_tail mem)) (passed ++ x.text)
      rw [List.flatMap_cons, Spaced.text, List.append_assoc, List.append_assoc,
        Scan.scanFrom_filler (first x rfl), readFrom'.scanFrom apart]
      rw [Spaced.text, ← List.append_assoc] at others
      rw [others]
      simp only [placed, Spaced.text, List.append_assoc, List.map_cons, List.cons_append]

theorem placed_length (passed : List Char) (spaced : List Spaced) :
    (placed passed spaced).length = spaced.length := by
  induction spaced generalizing passed with
  | nil => rfl
  | cons x rest ih => rw [placed, List.length_cons, ih, List.length_cons]

theorem placed_getElem? (passed : List Char) (spaced : List Spaced) (i : Nat) :
    (placed passed spaced)[i]? = spaced[i]?.map fun x =>
      { x.token with line := lineAt (passed ++ (spaced.take (i + 1)).flatMap Spaced.text) } := by
  induction spaced generalizing passed i with
  | nil => rfl
  | cons x rest ih =>
      cases i with
      | zero => simp [placed]
      | succ i => simp [placed, ih, List.append_assoc]

theorem mapM_id_ok {ε α : Type} (values : List α) :
    (values.map (.ok : α → Except ε α)).mapM id = .ok values := by
  induction values with
  | nil => rfl
  | cons value values ih =>
      rw [List.map_cons, List.mapM_cons, ih]
      rfl

theorem scan_of_lex {source : String} {tokens : List Token} (h : lex source = .ok tokens) :
    scan source = tokens.map .ok := by
  rcases mapM_id_cases (scan source) with ⟨values, eq, result⟩ | ⟨values, error, rest, eq, result⟩
  · cases h.symm.trans result
    exact eq
  · cases h.symm.trans result

theorem readFrom_lex {source : String} {line : Nat}
    (h : lex source = .ok (tokens ++ [Token.endOfInput line])) :
    ∀ t ∈ tokens, ∃ first tail, t.ReadFrom first tail := by
  intro t mem
  have items := scan_of_lex h
  obtain ⟨cuts, divides, eq⟩ := Scan.exists_divides [] source.toList
  have same := items.symm.trans eq
  rw [List.map_append] at same
  have inner := (List.append_inj' same rfl).1
  have read : .ok t ∈ scan source := by
    rw [items]
    exact List.mem_map_of_mem (List.mem_append_left _ mem)
  rcases readFrom_scanFrom read with ⟨stop, rfl⟩ | readFrom
  · exact absurd rfl (divides.kind_ne_eof (inner ▸ List.mem_map_of_mem mem))
  · exact readFrom

/-- The tokens of a text that is read, written anew with blanks and comments of any kind between
them, are read as tokens of the same kinds, with the same lexemes and literals, in the same order.
The line of each is the one on which it ends in the new text, and no more is read. -/
theorem spacing_free {source : String} {line : Nat}
    (read : lex source = .ok (tokens ++ [Token.endOfInput line]))
    (spacing : Spacing tokens spaced last) :
    let text := spaced.flatMap Spaced.text ++ last
    ∃ again : List Token,
      lex (String.ofList text) = .ok (again ++ [Token.endOfInput (lineAt text)]) ∧
      again.length = tokens.length ∧
      ∀ (i : Nat) (t : Token), tokens[i]? = some t → again[i]? =
        some { t with line := lineAt ((spaced.take (i + 1)).flatMap Spaced.text) } := by
  obtain ⟨rfl, first, between, atEnd⟩ := spacing
  have readFrom := readFrom_lex read
  have items := scanFrom_spaced (fun x mem => readFrom _ (List.mem_map_of_mem mem))
    (fun x head => filler_of_optional (first x head)) between atEnd []
  intro text
  refine ⟨placed [] spaced, ?_, ?_, fun i t found => ?_⟩
  · rw [lex, scan, String.toList_ofList]
    exact (congrArg (List.mapM id) items).trans (mapM_id_ok _)
  · rw [placed_length, List.length_map]
  · rw [List.getElem?_map, Option.map_eq_some_iff] at found
    obtain ⟨x, found, rfl⟩ := found
    rw [placed_getElem?, found]
    rfl

def divisionTokens : List Token :=
  [⟨.identifier, "a", none, 1⟩, ⟨.slash, "/", none, 1⟩, ⟨.string, "'//'", some (.string "//"), 1⟩]

def divisionSpaced : List Spaced :=
  [⟨[], divisionTokens[0]⟩, ⟨[' ', '/', '/', '/', '\n'], divisionTokens[1]⟩,
    ⟨['\n', '\t'], divisionTokens[2]⟩]

theorem divisionSpaced_spacing : Spacing divisionTokens divisionSpaced [] where
  tokens := rfl
  first := by
    rintro x ⟨⟩
    exact .inl rfl
  between := by
    have comment : Scan.Filler ('/' :: '/' :: (['/'] ++ '\n' :: [])) := .comment (by decide) .nil
    rintro x mem
    fin_cases mem
    · exact .mk (by decide) comment
    · exact .mk (by decide) (.blank (by decide) .nil)
  last := .inl rfl

/-- In `a/'//'` the division stays a division behind a comment that ends in a slash, and the slashes
of the string stay in the string. -/
theorem spacing_free_division :
    lex "a/'//'" = .ok (divisionTokens ++ [Token.endOfInput 1]) ∧
    ∃ again : List Token, lex "a ///\n/\n\t'//'" = .ok (again ++ [Token.endOfInput 3]) ∧
      again.length = 3 ∧ again[1]? = some ⟨.slash, "/", none, 2⟩ ∧
      again[2]? = some ⟨.string, "'//'", some (.string "//"), 3⟩ := by
  have read : lex "a/'//'" = .ok (divisionTokens ++ [Token.endOfInput 1]) := by cbv
  obtain ⟨again, result, length, found⟩ := spacing_free read divisionSpaced_spacing
  exact ⟨read, again, result, length, found 1 _ rfl, found 2 _ rfl⟩

end ClassScript
