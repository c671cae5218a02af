import ClassScript.Proofs.Form.Reading
import ClassScript.Proofs.Number.ReadBack

namespace ClassScript

open Form Scan

variable {t : Token} {first c : Char} {tail text : List Char} {kind : TokenKind}
  {literal : Option Literal} {line : Nat}

theorem inWord_of_class {p : Char → Bool} (h : p c)
    (others : p ' ' = false ∧ p '(' = false ∧ p ')' = false) : inWord c := by
  obtain ⟨blank, opening, closing⟩ := others
  simp only [inWord, Bool.and_eq_true, bne_iff_ne]
  refine ⟨⟨?_, ?_⟩, ?_⟩ <;> rintro rfl
  · rw [blank] at h
    cases h
  · rw [opening] at h
    cases h
  · rw [closing] at h
    cases h

theorem inWord_of_isDigit (h : c.isDigit) : inWord c := inWord_of_class h (by decide)

theorem Scan.Wordlike.inWord (h : Wordlike text) : ∀ c ∈ text, inWord c := by
  cases h with
  | intro starts continues =>
      refine List.forall_mem_cons.mpr ⟨inWord_of_class starts (by decide), fun c mem => ?_⟩
      exact inWord_of_class (continues c mem) (by decide)

def unwritten : List TokenKind := [.leftParen, .rightParen, .string]

theorem Scan.Matches.inWord (rule : Matches kind literal text) (written : kind ∉ unwritten) :
    ∀ c ∈ text, inWord c := by
  cases rule with
  | symbol mem =>
      have plain : ∀ symbol ∈ symbols, symbol.2 ∉ unwritten → symbol.1.all inWord = true := by
        decide
      exact List.all_eq_true.mp (plain _ mem written)
  | string => exact absurd (by decide) written
  | integer _ digits => exact fun c mem => inWord_of_isDigit (digits c mem)
  | decimal _ digits _ places =>
      intro c mem
      rcases List.mem_append.mp mem with mem | mem
      · exact inWord_of_isDigit (digits c mem)
      · rcases List.mem_cons.mp mem with rfl | mem
        · rfl
        · exact inWord_of_isDigit (places c mem)
  | reserved word | name word => exact word.inWord

def spellings : List (String × TokenKind) :=
  symbols.map (fun symbol => (String.ofList symbol.1, symbol.2)) ++ TokenKind.keywords

theorem Scan.Matches.spelling (rule : Matches kind literal text)
    (fixed : kind ∉ [.string, .number, .identifier]) :
    literal = none ∧ (String.ofList text, kind) ∈ spellings := by
  cases rule with
  | symbol mem => exact ⟨rfl, List.mem_append_left _ (List.mem_map_of_mem mem)⟩
  | string | integer | decimal | name => exact absurd (by decide) fixed
  | reserved _ mem => exact ⟨rfl, List.mem_append_right _ mem⟩

def Token.Scanned (t : Token) : Prop := ∃ first tail, t.ReadFrom first tail

theorem Token.ReadFrom.fits (h : t.ReadFrom first tail) :
    Matches t.kind t.literal t.lexeme.toList := by
  obtain ⟨text, rest, piece⟩ := h.piece
  have lawful := lawful_firstPiece [] first text
  rw [piece] at lawful
  simp only [Piece.cut, Meaning.item?] at lawful
  rw [h.lexeme]
  cases lawful with
  | token longest => exact longest.fits

theorem Token.ReadFrom.spelled (h : t.ReadFrom first tail) :
    spelled? t.lexeme = some t.unlined := by
  have run := h.scanFrom apart_nil []
  rw [List.append_nil, ClassScript.scanFrom] at run
  have tokens : lex t.lexeme = .ok [{ t with line := lineAt ([] ++ t.lexeme.toList) },
      Token.endOfInput (lineAt ([] ++ t.lexeme.toList))] := by
    rw [lex, scan]
    exact (congrArg (List.mapM id) run).trans rfl
  rw [spelled?, tokens]
  rfl

theorem Token.Scanned.legible (h : t.Scanned) (written : t.kind ∉ unwritten) : t.Legible := by
  obtain ⟨first, tail, h⟩ := h
  exact ⟨⟨h.fits.ne_nil, h.fits.inWord written⟩, h.spelled⟩

theorem Token.Scanned.isName (h : t.Scanned) (kind : t.kind = .identifier) : t.IsName :=
  ⟨h.legible (by rw [kind]; decide), kind⟩

theorem Token.Scanned.fixed {word : String} (h : t.Scanned) (own : t.kind = kind)
    (fixed : kind ∉ [.string, .number, .identifier])
    (only : ∀ entry ∈ spellings, entry.2 = kind → entry.1 = word) : t.Fixed kind word := by
  obtain ⟨first, tail, h⟩ := h
  subst own
  obtain ⟨none, mem⟩ := h.fits.spelling fixed
  rw [String.ofList_toList] at mem
  have same : t.lexeme = word := only _ mem rfl
  rw [Token.Fixed, Token.unlined, none, same]

/-- Constants that are printed without loss: no strings, and only finite numbers. -/
def Literal.Plain : Literal → Prop
  | .number x => x.isFinite
  | .string _ => False
  | .bool _ | .nil => True

theorem ReadsAs.isWord {text : String} {x : Float} (h : ReadsAs text x) : IsWord text where
  some := by
    intro none
    obtain rfl : text = "" := String.toList_eq_nil_iff.mp none
    have empty : lex "" = .ok [Token.endOfInput 1] := by cbv
    cases h.tokens.symm.trans empty
  only := by
    intro c mem
    rcases h.plain c mem with digit | rfl
    · exact inWord_of_isDigit digit
    · rfl

theorem ReadsAs.spells {text : String} {x : Float} (h : ReadsAs text x) :
    Spells text ⟨.number, text, some (.number x), 0⟩ where
  isWord := h.isWord
  scanned := by
    rw [spelled?, h.tokens]
    rfl

theorem readBack_number {d : Number.Decimal} (finite : d.toFloat.isFinite) :
    (Expr.literal (.number d.toFloat) line).ReadBack := by
  have number : d.bits ≤ Number.infinityBits := Nat.min_le_right _ _
  have positive := Number.isNegative_ofBits number
  have sign : ¬ d.toFloat < 0 := fun negative => by
    have unlike := ((Number.lt_zero_iff_isNegative finite).mp negative).1
    rw [Number.Decimal.toFloat, positive] at unlike
    cases unlike
  obtain ⟨text, written, reads⟩ := write_finite (l := Literal.numberForm) (fun _ => rfl) rfl finite
  rw [signText, if_neg sign, String.empty_append] at written
  rw [Number.abs_of_not_isNegative finite positive] at reads
  have display : (Literal.number d.toFloat).display = text := written
  have read := reads.spells.reads_word (e := .literal (.number d.toFloat) 0) rfl
  rwa [← display] at read

theorem Token.Scanned.readBack_literal {value : Literal} (h : t.Scanned)
    (kind : t.kind = .number ∨ t.kind = .string) (found : t.literal = some value)
    (plain : value.Plain) : (Expr.literal value line).ReadBack := by
  obtain ⟨first, tail, h⟩ := h
  have rule := h.fits
  rw [found] at rule
  generalize t.kind = own, t.lexeme.toList = text at rule kind
  cases rule with
  | string => exact plain.elim
  | integer | decimal => exact readBack_number plain

end ClassScript
