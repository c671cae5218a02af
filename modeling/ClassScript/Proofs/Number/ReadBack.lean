import ClassScript.Value
import ClassScript.Proofs.Number.Bits
import ClassScript.Proofs.Number.Positional
import ClassScript.Proofs.Token.Spacing

namespace ClassScript

open ClassScript.Number

variable {x y : Float} {text : List Char}

namespace Scan

theorem firstPiece_digit {first : Char} (digit : first.isDigit) (rest : List Char) :
    firstPiece first rest = numberTail first rest := by
  unfold firstPiece
  split
  case h_21 => rw [if_pos digit]
  all_goals cases digit

end Scan

theorem lineBreaks_positional {d : Decimal} (h : Positional text d) : lineBreaks text = 0 := by
  apply List.count_eq_zero.mpr
  intro mem
  rcases h.plain _ mem with digit | point
  · cases digit
  · cases point

theorem firstPiece_positional {d : Decimal} (h : Positional text d) : ∃ first tail,
    text = first :: tail ∧
      Scan.firstPiece first tail = ⟨.token .number (some (.number d.toFloat)), tail, []⟩ := by
  cases h with
  | whole some only =>
      obtain ⟨first, tail, rfl⟩ := List.exists_cons_of_ne_nil some
      refine ⟨first, tail, rfl, ?_⟩
      have digits : ∀ c ∈ tail, c.isDigit := fun c mem => only c (List.mem_cons_of_mem _ mem)
      rw [Scan.firstPiece_digit (only first List.mem_cons_self)]
      have run : Scan.numberTail first (tail ++ []) = _ :=
        Scan.numberTail_integer digits Scan.apart_nil
      rwa [List.append_nil] at run
  | @places whole fraction some only place places =>
      obtain ⟨first, tail, rfl⟩ := List.exists_cons_of_ne_nil some
      obtain ⟨d, more, rfl⟩ := List.exists_cons_of_ne_nil place
      refine ⟨first, tail ++ '.' :: d :: more, rfl, ?_⟩
      have digits : ∀ c ∈ tail, c.isDigit := fun c mem => only c (List.mem_cons_of_mem _ mem)
      have others : ∀ c ∈ more, c.isDigit := fun c mem => places c (List.mem_cons_of_mem _ mem)
      rw [Scan.firstPiece_digit (only first List.mem_cons_self)]
      have run : Scan.numberTail first (tail ++ '.' :: d :: (more ++ [])) = _ :=
        Scan.numberTail_decimal digits (places d List.mem_cons_self) others
          (Scan.apart_nil.stops Scan.blanks_no_digits)
      rwa [List.append_nil] at run

theorem lex_positional {d : Decimal} (h : Positional text d) :
    lex (String.ofList text) =
      .ok [⟨.number, String.ofList text, some (.number d.toFloat), 1⟩, Token.endOfInput 1] := by
  have oneLine := lineBreaks_positional h
  obtain ⟨first, tail, rfl, piece⟩ := firstPiece_positional h
  have run : scanFrom 1 (first :: tail) =
      [.ok ⟨.number, String.ofList (first :: tail), some (.number d.toFloat), 1⟩,
        .ok (Token.endOfInput 1)] := by
    rw [scanFrom, piece]
    dsimp only
    rw [oneLine, scanFrom]
  rw [lex, scan, String.toList_ofList, run]
  rfl

/-- The text is one number to the scanner, written without an exponent. -/
structure ReadsAs (text : String) (x : Float) : Prop where
  tokens : lex text = .ok [⟨.number, text, some (.number x), 1⟩, Token.endOfInput 1]
  plain : ∀ c ∈ text.toList, c.isDigit ∨ c = '.'

def signText (x : Float) : String := if x < 0 then "-" else ""

theorem write_finite {l : Layout} (always : ∀ e, l.positional e = true)
    (unsigned : l.signedZero = false) (finite : x.isFinite) :
    ∃ text, l.write x = signText x ++ text ∧ ReadsAs text x.abs := by
  have small := magnitudeBits_lt_of_isFinite finite
  obtain ⟨d, positional, same⟩ := Layout.positional_magnitude always small
  refine ⟨String.ofList (l.magnitude (magnitudeBits x)), ?_, ?_, ?_⟩
  · have test : (isNegative x && magnitudeBits x != 0) = true ↔ x < 0 := by
      rw [lt_zero_iff_isNegative finite, Bool.and_eq_true, bne_iff_ne]
    rw [Layout.write, if_neg (Nat.lt_asymm small), if_neg small.ne, unsigned, Bool.false_or]
    by_cases negative : x < 0
    · rw [if_pos (test.mpr negative), signText, if_pos negative]
      have split : String.ofList (['-'] ++ l.magnitude (magnitudeBits x)) =
          String.ofList ['-'] ++ String.ofList (l.magnitude (magnitudeBits x)) :=
        String.ofList_append
      exact split
    · rw [if_neg (mt test.mp negative), signText, if_neg negative, String.empty_append]
  · have value : d.toFloat = x.abs := by
      rw [Decimal.toFloat, same, ofBits_magnitudeBits]
    rw [← value]
    exact lex_positional positional
  · rw [String.toList_ofList]
    exact positional.plain

theorem ReadsAs.unique {text : String} (h : ReadsAs text x) (h' : ReadsAs text y) : x = y := by
  have tokens := Except.ok.inj (h.tokens.symm.trans h'.tokens)
  have first := (List.cons.inj tokens).1
  have literal := congrArg Token.literal first
  cases literal
  rfl

theorem ReadsAs.no_sign {text text' : String} (h : ReadsAs text x) : text ≠ "-" ++ text' := by
  rintro rfl
  have sign : '-' ∈ ("-" ++ text').toList := by
    rw [String.toList_append]
    exact List.mem_cons_self
  rcases h.plain '-' sign with digit | point
  · cases digit
  · cases point

theorem signed_inj {text text' : String} {v w : Float} (h : ReadsAs text v) (h' : ReadsAs text' w)
    (same : signText x ++ text = signText y ++ text') : (x < 0 ↔ y < 0) ∧ v = w := by
  unfold signText at same
  by_cases negative : x < 0
  · rw [if_pos negative] at same
    by_cases negative' : y < 0
    · rw [if_pos negative'] at same
      obtain rfl := String.append_right_inj _ |>.mp same
      exact ⟨iff_of_true negative negative', h.unique h'⟩
    · rw [if_neg negative', String.empty_append] at same
      exact absurd same.symm h'.no_sign
  · rw [if_neg negative, String.empty_append] at same
    by_cases negative' : y < 0
    · rw [if_pos negative'] at same
      exact absurd same h.no_sign
    · rw [if_neg negative', String.empty_append] at same
      subst same
      exact ⟨iff_of_false negative negative', h.unique h'⟩

theorem magnitudeBits_of_abs (finite : x.isFinite) (finite' : y.isFinite) (same : x.abs = y.abs) :
    magnitudeBits x = magnitudeBits y := by
  have small := magnitudeBits_lt_of_isFinite finite
  have small' := magnitudeBits_lt_of_isFinite finite'
  rw [← magnitudeBits_ofBits small.le, ← magnitudeBits_ofBits small'.le, ofBits_magnitudeBits,
    ofBits_magnitudeBits, same]

/-- Printed numbers read back, without their sign; so do the literal forms of numbers that have
none. Numbers that print alike are equal. -/
theorem printed_numbers_read_back (finite : x.isFinite) :
    (∃ text, Value.numberForm.write x = signText x ++ text ∧ ReadsAs text x.abs) ∧
    (0 ≤ x → ReadsAs (Literal.number x).display x.abs) ∧
    ∀ y : Float, y.isFinite → Value.numberForm.write x = Value.numberForm.write y →
      (x == y) = true := by
  have printed (x : Float) (finite : x.isFinite) := write_finite (l := Value.numberForm)
    (fun _ => rfl) rfl finite
  refine ⟨printed x finite, fun nonnegative => ?_, fun y finite' alike => ?_⟩
  · obtain ⟨text, written, reads⟩ := write_finite (l := Literal.numberForm)
      (fun _ => rfl) rfl finite
    rw [signText, if_neg (not_lt_zero nonnegative), String.empty_append] at written
    rw [Literal.display, written]
    exact reads
  · obtain ⟨text, written, reads⟩ := printed x finite
    obtain ⟨text', written', reads'⟩ := printed y finite'
    rw [written, written'] at alike
    obtain ⟨sign, same⟩ := signed_inj reads reads' alike
    exact beq_of_magnitude finite finite' (magnitudeBits_of_abs finite finite' same) sign

def minusZero : Float := Float.ofBits 0x8000000000000000

def minusTenth : Float := Float.ofBits 0xBFB999999999999A

def twoAndHalf : Float := Float.ofBits 0x4004000000000000

def quadrillion : Float := Float.ofBits 0x430C6BF526340000

/-- The zeros of both signs print alike. A tenth is no binary fraction, so its digits are the
shortest that identify it. From `10^15` on whole numbers have no fraction in a literal. -/
theorem printed_numbers_read_back_samples :
    (∃ text, Value.numberForm.write 0 = signText 0 ++ text ∧ ReadsAs text (Float.abs 0)) ∧
    ReadsAs (Literal.number 0).display (Float.abs 0) ∧ ((0 : Float) == minusZero) = true ∧
    (∃ text, "-0.1" = signText minusTenth ++ text ∧ ReadsAs text minusTenth.abs) ∧
    ReadsAs "2.5" twoAndHalf.abs ∧ ReadsAs "1000000000000000" quadrillion.abs := by
  obtain ⟨printed, literal, alike⟩ := printed_numbers_read_back (x := 0) rfl
  obtain ⟨tenth, -, -⟩ := printed_numbers_read_back (x := minusTenth) rfl
  obtain ⟨-, half, -⟩ := printed_numbers_read_back (x := twoAndHalf) rfl
  obtain ⟨-, large, -⟩ := printed_numbers_read_back (x := quadrillion) rfl
  have written : Value.numberForm.write minusTenth = "-0.1" := by decide +kernel
  have shown : (Literal.number twoAndHalf).display = "2.5" := by decide +kernel
  have shown' : (Literal.number quadrillion).display = "1000000000000000" := by decide +kernel
  exact ⟨printed, literal rfl, alike minusZero rfl rfl, written ▸ tenth, shown ▸ half rfl,
    shown' ▸ large rfl⟩

end ClassScript
