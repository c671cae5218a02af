import Mathlib
import ClassScript.Token.Scan

namespace ClassScript

namespace Scan

variable {first c : Char} {text rest ahead other content : List Char} {kind : TokenKind}
  {literal : Option Literal}

def symbols : List (List Char × TokenKind) :=
  [(['('], .leftParen), ([')'], .rightParen), (['{'], .leftBrace), (['}'], .rightBrace),
   ([','], .comma), (['.'], .dot), (['-'], .minus), (['+'], .plus), ([';'], .semicolon),
   (['/'], .slash), (['*'], .star), (['!'], .bang), (['!', '='], .bangEqual), (['='], .equal),
   (['=', '='], .equalEqual), (['>'], .greater), (['>', '='], .greaterEqual), (['<'], .less),
   (['<', '='], .lessEqual)]

/-- The shape that names and reserved words have in common. -/
inductive Wordlike : List Char → Prop
  | intro {first : Char} {rest : List Char} (starts : startsWord first)
      (continues : ∀ c ∈ rest, continuesWord c) : Wordlike (first :: rest)

/-- A rule makes the text a token of this kind, with this literal. -/
inductive Matches : TokenKind → Option Literal → List Char → Prop
  | symbol {text : List Char} {kind : TokenKind} (mem : (text, kind) ∈ symbols) :
      Matches kind none text
  | string {content : List Char} (unquoted : '\'' ∉ content) :
      Matches .string (some (.string (String.ofList content))) ('\'' :: (content ++ ['\'']))
  | integer {digits : List Char} (some_digit : digits ≠ []) (digits_only : ∀ d ∈ digits, d.isDigit) :
      Matches .number (some (.number (Number.Decimal.ofDigits digits []).toFloat)) digits
  | decimal {whole fraction : List Char} (some_digit : whole ≠ [])
      (digits_only : ∀ d ∈ whole, d.isDigit) (some_place : fraction ≠ [])
      (places_only : ∀ d ∈ fraction, d.isDigit) :
      Matches .number (some (.number (Number.Decimal.ofDigits whole fraction).toFloat))
        (whole ++ '.' :: fraction)
  | reserved {text : List Char} {kind : TokenKind} (word : Wordlike text)
      (mem : (String.ofList text, kind) ∈ TokenKind.keywords) : Matches kind none text
  | name {text : List Char} (word : Wordlike text)
      (free : ∀ kind, (String.ofList text, kind) ∉ TokenKind.keywords) :
      Matches .identifier none text

/-- The text is a token, and no longer beginning of the whole text is one. -/
structure Longest (kind : TokenKind) (literal : Option Literal) (text ahead : List Char) : Prop where
  fits : Matches kind literal text
  reach : ∀ {kind literal other}, Matches kind literal other → other <+: text ++ ahead →
    other.length ≤ text.length

theorem Matches.kind_ne_eof (rule : Matches kind literal text) : kind ≠ .eof := by
  cases rule with
  | symbol mem =>
      rintro rfl
      simp [symbols] at mem
  | string | integer | decimal | name => nofun
  | reserved word mem =>
      rintro rfl
      simp [TokenKind.keywords] at mem

theorem startsWord_of_isDigit (digit : c.isDigit) : startsWord c = false := by
  have ends : 'Z'.val.toNat = 90 ∧ 'z'.val.toNat = 122 := ⟨rfl, rfl⟩
  have begins : 'A'.val.toNat = 65 ∧ 'a'.val.toNat = 97 ∧ '9'.val.toNat = 57 := ⟨rfl, rfl, rfl⟩
  have plain : c ≠ '_' := by
    rintro rfl
    revert digit
    decide
  simp only [Char.isDigit, Bool.and_eq_true, decide_eq_true_eq, ge_iff_le,
    UInt32.le_iff_toNat_le] at digit
  simp only [startsWord, Char.isAlpha, Char.isUpper, Char.isLower, Bool.or_eq_false_iff,
    Bool.and_eq_false_iff, decide_eq_false_iff_not, beq_eq_false_iff_ne, ge_iff_le,
    UInt32.le_iff_toNat_le]
  exact ⟨⟨by omega, by omega⟩, plain⟩

theorem Matches.ne_nil (rule : Matches kind literal text) : text ≠ [] := by
  cases rule with
  | symbol mem =>
      rintro rfl
      simp [symbols] at mem
  | string => exact List.cons_ne_nil _ _
  | integer some_digit => exact some_digit
  | decimal => simp
  | reserved word | name word =>
      cases word
      exact List.cons_ne_nil _ _

def symbolHeads : List Char := symbols.filterMap (·.1.head?)

theorem symbolHeads_plain :
    ∀ c ∈ symbolHeads, c ≠ '\'' ∧ c.isDigit = false ∧ startsWord c = false := by
  simp [symbolHeads, symbols, startsWord]

theorem mem_symbolHeads (mem : (first :: rest, kind) ∈ symbols) : first ∈ symbolHeads :=
  List.mem_filterMap.mpr ⟨_, mem, rfl⟩

theorem symbol_short : ∀ symbol ∈ symbols,
    symbol.1.length ≤ 1 ∨ ∃ c ∈ ['!', '=', '<', '>'], symbol.1 = [c, '='] := by
  simp [symbols]

def Numeric (text : List Char) : Prop :=
  (∀ d ∈ text, d.isDigit) ∨ ∃ whole fraction : List Char, text = whole ++ '.' :: fraction ∧
    (∀ d ∈ whole, d.isDigit) ∧ fraction ≠ [] ∧ ∀ d ∈ fraction, d.isDigit

theorem Matches.by_first (rule : Matches kind literal (first :: rest)) :
    (first :: rest, kind) ∈ symbols ∨
      (first = '\'' ∧ ∃ content, '\'' ∉ content ∧ rest = content ++ ['\'']) ∨
      (first.isDigit ∧ Numeric (first :: rest)) ∨
      (startsWord first ∧ ∀ c ∈ rest, continuesWord c) := by
  generalize whole : first :: rest = text at rule
  cases rule with
  | symbol mem => exact .inl mem
  | string unquoted =>
      cases whole
      exact .inr (.inl ⟨rfl, _, unquoted, rfl⟩)
  | integer _ digits =>
      subst whole
      exact .inr (.inr (.inl ⟨digits first List.mem_cons_self, .inl digits⟩))
  | @decimal digits fraction some_digit digits_only some_place places_only =>
      obtain ⟨d, more, rfl⟩ := List.exists_cons_of_ne_nil some_digit
      obtain ⟨rfl, -⟩ := List.cons.inj whole
      exact .inr (.inr (.inl ⟨digits_only first List.mem_cons_self,
        .inr ⟨_, _, rfl, digits_only, some_place, places_only⟩⟩))
  | reserved word _ | name word _ =>
      cases word with
      | intro starts continues =>
          cases whole
          exact .inr (.inr (.inr ⟨starts, continues⟩))

theorem Matches.first_class (rule : Matches kind literal (first :: rest)) :
    first ∈ symbolHeads ∨ first = '\'' ∨ first.isDigit ∨ startsWord first := by
  rcases rule.by_first with mem | ⟨quote, -⟩ | ⟨digit, -⟩ | ⟨start, -⟩
  · exact .inl (mem_symbolHeads mem)
  · exact .inr (.inl quote)
  · exact .inr (.inr (.inl digit))
  · exact .inr (.inr (.inr start))

theorem Matches.mem_symbols (rule : Matches kind literal (first :: rest))
    (head : first ∈ symbolHeads) : (first :: rest, kind) ∈ symbols := by
  obtain ⟨no_quote, no_digit, no_word⟩ := symbolHeads_plain first head
  rcases rule.by_first with mem | ⟨quote, -⟩ | ⟨digit, -⟩ | ⟨start, -⟩
  · exact mem
  · exact absurd quote no_quote
  · rw [no_digit] at digit
    cases digit
  · rw [no_word] at start
    cases start

theorem Matches.quoted (rule : Matches kind literal ('\'' :: rest)) :
    ∃ content, '\'' ∉ content ∧ rest = content ++ ['\''] := by
  rcases rule.by_first with mem | ⟨-, quoted⟩ | ⟨digit, -⟩ | ⟨start, -⟩
  · exact absurd rfl (symbolHeads_plain _ (mem_symbolHeads mem)).1
  · exact quoted
  · cases digit
  · cases start

theorem Matches.numeric (rule : Matches kind literal (first :: rest)) (digit : first.isDigit) :
    Numeric (first :: rest) := by
  rcases rule.by_first with mem | ⟨rfl, -⟩ | ⟨-, numeric⟩ | ⟨start, -⟩
  · rw [(symbolHeads_plain _ (mem_symbolHeads mem)).2.1] at digit
    cases digit
  · cases digit
  · exact numeric
  · rw [startsWord_of_isDigit digit] at start
    cases start

theorem Matches.numeric_of_prefix (rule : Matches kind literal other)
    (beginning : other <+: first :: text) (digit : first.isDigit) : Numeric other := by
  obtain ⟨c, other, rfl⟩ := List.exists_cons_of_ne_nil rule.ne_nil
  obtain ⟨rfl, -⟩ := List.cons_prefix_cons.mp beginning
  exact rule.numeric digit

theorem Matches.continues (rule : Matches kind literal (first :: rest))
    (start : startsWord first) : ∀ c ∈ rest, continuesWord c := by
  rcases rule.by_first with mem | ⟨rfl, -⟩ | ⟨digit, -⟩ | ⟨-, continues⟩
  · rw [(symbolHeads_plain _ (mem_symbolHeads mem)).2.2] at start
    cases start
  · cases start
  · rw [startsWord_of_isDigit digit] at start
    cases start
  · exact continues

section Stops

variable {p : Char → Bool}

def Stops (p : Char → Bool) (ahead : List Char) : Prop := ∀ c ∈ ahead.head?, p c = false

theorem stops_dropWhile (text : List Char) : Stops p (text.dropWhile p) := by
  intro c head
  have stop := List.head?_dropWhile_not p text
  rw [Option.mem_def.mp head] at stop
  exact stop

theorem Stops.takeWhile (stops : Stops p ahead) : ahead.takeWhile p = [] := by
  cases ahead with
  | nil => rfl
  | cons c ahead => simp [stops c rfl]

theorem length_le_of_stops (all : ∀ c ∈ other, p c) (stops : Stops p ahead)
    (beginning : other <+: text ++ ahead) : other.length ≤ text.length := by
  rcases List.prefix_or_prefix_of_prefix beginning (List.prefix_append text ahead) with
    shorter | ⟨more, rfl⟩
  · exact shorter.length_le
  · rw [List.prefix_append_right_inj] at beginning
    cases more with
    | nil => simp
    | cons c more =>
        obtain ⟨rest, rfl⟩ := beginning
        have stop := stops c rfl
        rw [all c (by simp)] at stop
        cases stop

theorem append_inj_of_stops {left right : List Char} (all : ∀ c ∈ text, p c)
    (all' : ∀ c ∈ other, p c) (stops : Stops p left) (stops' : Stops p right)
    (eq : text ++ left = other ++ right) : text = other ∧ left = right := by
  have same : text = other := by
    have cut := congrArg (List.takeWhile p) eq
    rwa [List.takeWhile_append_of_pos all, List.takeWhile_append_of_pos all', stops.takeWhile,
      stops'.takeWhile, List.append_nil, List.append_nil] at cut
  subst same
  exact ⟨rfl, List.append_cancel_left eq⟩

end Stops

theorem longest_of_tail (fits : Matches kind literal (first :: text))
    (reach : ∀ {kind literal other}, Matches kind literal (first :: other) →
      other <+: text ++ ahead → other.length ≤ text.length) :
    Longest kind literal (first :: text) ahead where
  fits := fits
  reach := by
    intro kind literal other rule beginning
    cases other with
    | nil => exact Nat.zero_le _
    | cons c other =>
        obtain ⟨rfl, behind⟩ := List.cons_prefix_cons.mp beginning
        exact Nat.succ_le_succ (reach rule behind)

theorem longest_symbol (mem : ([first], kind) ∈ symbols)
    (plain : first ∉ ['!', '=', '<', '>'] ∨ ahead.head? ≠ some '=') :
    Longest kind none [first] ahead := by
  refine longest_of_tail (.symbol mem) fun {kind' literal' other} rule behind => ?_
  rcases symbol_short _ (rule.mem_symbols (mem_symbolHeads mem)) with short | ⟨d, long, eq⟩
  · exact Nat.le_of_succ_le_succ short
  · obtain ⟨rfl, rfl⟩ := List.cons.inj eq
    obtain ⟨more, rfl⟩ := behind
    rcases plain with no_long | no_equal
    · exact absurd long no_long
    · exact absurd rfl no_equal

theorem longest_symbol_equal (mem : ([first, '='], kind) ∈ symbols) :
    Longest kind none [first, '='] ahead := by
  refine longest_of_tail (.symbol mem) fun {kind' literal' other} rule behind => ?_
  rcases symbol_short _ (rule.mem_symbols (mem_symbolHeads mem)) with short | ⟨d, -, eq⟩
  · exact Nat.le_succ_of_le (Nat.le_of_succ_le_succ short)
  · obtain ⟨rfl, rfl⟩ := List.cons.inj eq
    exact Nat.le_refl _

theorem ne_quote_of_unquoted (unquoted : '\'' ∉ content) : ∀ c ∈ content, (c != '\'') = true := by
  intro c mem
  rw [bne_iff_ne]
  rintro rfl
  exact unquoted mem

theorem stops_quote : Stops (· != '\'') ('\'' :: rest) := by
  rintro c ⟨⟩
  rfl

theorem longest_string (unquoted : '\'' ∉ content) :
    Longest .string (some (.string (String.ofList content))) ('\'' :: (content ++ ['\'']))
      ahead := by
  refine longest_of_tail (.string unquoted) fun {kind' literal' other} rule behind => ?_
  obtain ⟨content', unquoted', rfl⟩ := rule.quoted
  have inner : content' <+: content ++ '\'' :: ahead := by
    rw [List.append_assoc] at behind
    exact (List.prefix_append _ _).trans behind
  have := length_le_of_stops (ne_quote_of_unquoted unquoted') stops_quote inner
  simpa using this

theorem stops_point : Stops Char.isDigit ('.' :: rest) := by
  rintro c ⟨⟩
  rfl

theorem longest_integer (digits : ∀ d ∈ first :: text, d.isDigit)
    (stops : Stops Char.isDigit ahead)
    (no_place : ∀ d rest, ahead = '.' :: d :: rest → d.isDigit = false) :
    Longest .number (some (.number (Number.Decimal.ofDigits (first :: text) []).toFloat))
      (first :: text) ahead where
  fits := .integer (List.cons_ne_nil _ _) digits
  reach := by
    intro kind' literal' other rule beginning
    rcases rule.numeric_of_prefix beginning (digits first List.mem_cons_self) with
      digits' | ⟨whole, fraction, rfl, digits', some_place, places⟩
    · exact length_le_of_stops digits' stops beginning
    · obtain ⟨more, same⟩ := beginning
      rw [List.append_assoc] at same
      -- The digits in front of the point are those of the text, so that the point is ahead.
      obtain ⟨-, same⟩ := append_inj_of_stops digits' digits stops_point stops same
      obtain ⟨d, fraction, rfl⟩ := List.exists_cons_of_ne_nil some_place
      have place := places d List.mem_cons_self
      rw [no_place d _ same.symm] at place
      cases place

theorem longest_decimal {fraction : List Char} (digits : ∀ d ∈ first :: text, d.isDigit)
    (some_place : fraction ≠ []) (places : ∀ d ∈ fraction, d.isDigit)
    (stops : Stops Char.isDigit ahead) :
    Longest .number (some (.number (Number.Decimal.ofDigits (first :: text) fraction).toFloat))
      (first :: text ++ '.' :: fraction) ahead where
  fits := .decimal (List.cons_ne_nil _ _) digits some_place places
  reach := by
    intro kind' literal' other rule beginning
    rw [List.append_assoc] at beginning
    rcases rule.numeric_of_prefix beginning (digits first List.mem_cons_self) with
      digits' | ⟨whole', fraction', rfl, digits', -, places'⟩
    · have := length_le_of_stops digits' stops_point beginning
      rw [List.length_append]
      omega
    · obtain ⟨more, same⟩ := beginning
      rw [List.append_assoc] at same
      obtain ⟨rfl, behind⟩ := append_inj_of_stops digits' digits stops_point stops_point same
      have inner : fraction' <+: fraction ++ ahead := ⟨more, (List.cons.inj behind).2⟩
      have := length_le_of_stops places' stops inner
      simpa using this

theorem matches_word (word : Wordlike text) :
    Matches (TokenKind.ofWord (String.ofList text)) none text := by
  unfold TokenKind.ofWord
  cases entry : TokenKind.keywords.lookup (String.ofList text) with
  | none =>
      refine .name word fun kind mem => ?_
      simpa using List.lookup_eq_none_iff.mp entry _ mem
  | some kind =>
      obtain ⟨before, after, eq, -⟩ := List.lookup_eq_some_iff.mp entry
      refine .reserved word ?_
      rw [eq]
      exact List.mem_append_right _ List.mem_cons_self

theorem longest_word (start : startsWord first) (continues : ∀ c ∈ text, continuesWord c)
    (stops : Stops continuesWord ahead) :
    Longest (TokenKind.ofWord (String.ofList (first :: text))) none (first :: text) ahead :=
  longest_of_tail (matches_word ⟨start, continues⟩) fun rule behind =>
    length_le_of_stops (rule.continues start) stops behind

theorem not_matches_of_unquoted (unquoted : '\'' ∉ content) (rule : Matches kind literal other) :
    ¬ other <+: '\'' :: content := by
  intro beginning
  obtain ⟨c, other, rfl⟩ := List.exists_cons_of_ne_nil rule.ne_nil
  obtain ⟨rfl, behind⟩ := List.cons_prefix_cons.mp beginning
  obtain ⟨content', -, rfl⟩ := rule.quoted
  exact unquoted (behind.subset (List.mem_append_right _ List.mem_cons_self))

theorem not_matches_of_class (no_symbol : first ∉ symbolHeads) (no_quote : first ≠ '\'')
    (no_digit : first.isDigit = false) (no_word : startsWord first = false)
    (rule : Matches kind literal other) : ¬ other <+: first :: text := by
  intro beginning
  obtain ⟨c, other, rfl⟩ := List.exists_cons_of_ne_nil rule.ne_nil
  obtain ⟨rfl, -⟩ := List.cons_prefix_cons.mp beginning
  rcases rule.first_class with mem | quote | digit | start
  · exact no_symbol mem
  · exact no_quote quote
  · rw [no_digit] at digit
    cases digit
  · rw [no_word] at start
    cases start

end Scan

end ClassScript
