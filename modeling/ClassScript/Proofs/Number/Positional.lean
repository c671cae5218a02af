import Mathlib
import ClassScript.Number.Layout
import ClassScript.Proofs.Number.Rounding

namespace ClassScript.Number

variable {tie : Tie} {bits : Nat} {digits : List Char}

inductive Positional : List Char → Decimal → Prop
  | whole {digits : List Char} : digits ≠ [] → (∀ c ∈ digits, c.isDigit) →
      Positional digits (.ofDigits digits [])
  | places {whole fraction : List Char} : whole ≠ [] → (∀ c ∈ whole, c.isDigit) → fraction ≠ [] →
      (∀ c ∈ fraction, c.isDigit) → Positional (whole ++ '.' :: fraction) (.ofDigits whole fraction)

theorem Positional.plain {text : List Char} {d : Decimal} (h : Positional text d) :
    ∀ c ∈ text, c.isDigit ∨ c = '.' := by
  intro c mem
  cases h with
  | whole _ only => exact .inl (only c mem)
  | places _ whole _ fraction =>
      rcases List.mem_append.mp mem with mem | mem
      · exact .inl (whole c mem)
      · rcases List.mem_cons.mp mem with rfl | mem
        · exact .inr rfl
        · exact .inl (fraction c mem)

theorem naturalOfDigits_append_zeros (digits : List Char) (k : Nat) :
    Decimal.naturalOfDigits (digits ++ List.replicate k '0') =
      Decimal.naturalOfDigits digits * tenPow k := by
  have value (l : List Char) : Decimal.naturalOfDigits l = Nat.ofDigitChars 10 l 0 := rfl
  rw [value, value, Nat.ofDigitChars_append, Nat.ofDigitChars_replicate_zero, Nat.mul_comm]
  rfl

theorem naturalOfDigits_zeros_append (k : Nat) (digits : List Char) :
    Decimal.naturalOfDigits (List.replicate k '0' ++ digits) = Decimal.naturalOfDigits digits := by
  have value (l : List Char) : Decimal.naturalOfDigits l = Nat.ofDigitChars 10 l 0 := rfl
  rw [value, value, Nat.ofDigitChars_append, Nat.ofDigitChars_replicate_zero, Nat.mul_zero]

theorem isDigit_of_zeros {k : Nat} : ∀ c ∈ List.replicate k '0', c.isDigit := by
  intro c mem
  rw [List.eq_of_mem_replicate mem]
  rfl

namespace Digits

def decimal (d : Digits) : Decimal :=
  ⟨Decimal.naturalOfDigits d.digits, d.point - d.digits.length⟩

structure Represents (d : Digits) (bits : Nat) : Prop where
  some : d.digits ≠ []
  only : ∀ c ∈ d.digits, c.isDigit
  bits : d.decimal.bits = bits

theorem represents_zero : zero.Represents 0 where
  some := List.cons_ne_nil _ _
  only := isDigit_of_zeros (k := 1)
  bits := by
    have none : zero.decimal = ⟨0, 0⟩ := rfl
    rw [none]
    exact bits_zero 0

theorem decimal_ofDecimal (d : Decimal) : (ofDecimal d).decimal.bits = d.bits := by
  let all := Nat.toDigits 10 d.coefficient
  obtain ⟨k, zeros⟩ : ∃ k, all.rtakeWhile (· == '0') = List.replicate k '0' := by
    refine ⟨_, List.eq_replicate_of_mem fun c mem => ?_⟩
    have zero := List.mem_rtakeWhile_imp mem
    exact eq_of_beq zero
  have split : (ofDecimal d).digits ++ List.replicate k '0' = all := by
    rw [← zeros]
    exact List.rdropWhile_append_rtakeWhile ..
  have value : d.coefficient = Decimal.naturalOfDigits (ofDecimal d).digits * tenPow k := by
    rw [← naturalOfDigits_append_zeros, split]
    exact Nat.ofDigitChars_ten_toDigits.symm
  have length : (ofDecimal d).digits.length + k = all.length := by
    rw [← split, List.length_append, List.length_replicate]
  have point : (ofDecimal d).point = all.length + d.exponent := rfl
  have exponent : (ofDecimal d).point - (ofDecimal d).digits.length = d.exponent + k := by omega
  calc (ofDecimal d).decimal.bits
      = Decimal.bits ⟨Decimal.naturalOfDigits (ofDecimal d).digits, d.exponent + k⟩ := by
        rw [decimal, exponent]
    _ = Decimal.bits ⟨d.coefficient, d.exponent⟩ := by rw [value, bits_scale]

theorem represents_ofDecimal {d : Decimal} (some : d.bits ≠ 0) :
    (ofDecimal d).Represents d.bits where
  some := by
    intro none
    have value := decimal_ofDecimal d
    rw [decimal, none] at value
    exact some (value.symm.trans (bits_zero _))
  only := by
    intro c mem
    have all : c ∈ Nat.toDigits 10 d.coefficient := (List.rdropWhile_prefix _ _).subset mem
    exact Nat.isDigit_of_mem_toDigits (by decide) (by decide) all
  bits := decimal_ofDecimal d

theorem represents_ofBits (finite : bits < infinityBits) : (ofBits tie bits).Represents bits := by
  unfold ofBits
  split
  · rename_i none
    rw [none]
    exact represents_zero
  · rename_i some
    have same : (shortest tie bits).bits = bits := bits_shortest finite
    have shortest := represents_ofDecimal (d := shortest tie bits) (by rw [same]; exact some)
    rwa [same] at shortest

theorem Represents.positional {d : Digits} (h : d.Represents bits) (pointZero : Bool) :
    ∃ e, Positional (d.positional pointZero) e ∧ e.bits = bits := by
  unfold Digits.positional
  split
  · rename_i small
    -- The point stands in front of the digits.
    let zeros := List.replicate (-d.point).toNat '0'
    have whole : Decimal.naturalOfDigits ('0' :: (zeros ++ d.digits)) =
        Decimal.naturalOfDigits d.digits := naturalOfDigits_zeros_append (_ + 1) _
    have length : (zeros ++ d.digits).length = (-d.point).toNat + d.digits.length := by
      rw [List.length_append, List.length_replicate]
    refine ⟨.ofDigits ['0'] (zeros ++ d.digits), .places (List.cons_ne_nil _ _)
      (isDigit_of_zeros (k := 1)) ?_ ?_, ?_⟩
    · exact List.append_ne_nil_of_right_ne_nil _ h.some
    · exact List.forall_mem_append.mpr ⟨isDigit_of_zeros, h.only⟩
    · have same : Decimal.ofDigits ['0'] (zeros ++ d.digits) = d.decimal := by
        rw [Decimal.ofDigits, List.singleton_append, whole, length, decimal]
        congr 1
        omega
      rw [same, h.bits]
  · rename_i large
    split
    · rename_i inside
      -- The point stands between two digits.
      have cut : d.point.toNat < d.digits.length := by omega
      refine ⟨.ofDigits (d.digits.take d.point.toNat) (d.digits.drop d.point.toNat),
        .places ?_ ?_ ?_ ?_, ?_⟩
      · rw [← List.length_pos_iff, List.length_take]
        omega
      · exact fun c mem => h.only c (List.mem_of_mem_take mem)
      · rw [← List.length_pos_iff, List.length_drop]
        omega
      · exact fun c mem => h.only c (List.mem_of_mem_drop mem)
      · have same : Decimal.ofDigits (d.digits.take d.point.toNat) (d.digits.drop d.point.toNat) =
            d.decimal := by
          rw [Decimal.ofDigits, List.take_append_drop, List.length_drop, decimal]
          congr 1
          omega
        rw [same, h.bits]
    · rename_i outside
      -- The point stands behind the digits, with zeros in between.
      let k := d.point.toNat - d.digits.length
      have some : d.digits ++ List.replicate k '0' ≠ [] :=
        List.append_ne_nil_of_left_ne_nil h.some _
      have only : ∀ c ∈ d.digits ++ List.replicate k '0', c.isDigit :=
        List.forall_mem_append.mpr ⟨h.only, isDigit_of_zeros⟩
      have exponent : (k : Int) = d.point - d.digits.length := by omega
      have scaled (n : Nat) (e : Int) (same : e + (n : Nat) = k) :
          Decimal.bits ⟨Decimal.naturalOfDigits (d.digits ++ List.replicate n '0'), e⟩ = bits := by
        rw [naturalOfDigits_append_zeros, bits_scale, same, exponent]
        exact h.bits
      cases pointZero with
      | false =>
          rw [if_neg (by decide), List.append_nil]
          refine ⟨_, .whole some only, ?_⟩
          rw [Decimal.ofDigits, List.append_nil]
          exact scaled k _ (Int.zero_add _)
      | true =>
          rw [if_pos rfl]
          refine ⟨_, .places some only (List.cons_ne_nil _ _) (isDigit_of_zeros (k := 1)), ?_⟩
          rw [Decimal.ofDigits, List.append_assoc, ← List.replicate_succ']
          apply scaled
          rw [List.length_singleton]
          omega

end Digits

namespace Layout

theorem positional_magnitude {l : Layout} (always : ∀ e, l.positional e = true)
    (finite : bits < infinityBits) : ∃ e, Positional (l.magnitude bits) e ∧ e.bits = bits := by
  unfold magnitude
  dsimp only
  rw [if_pos (always _)]
  exact (Digits.represents_ofBits finite).positional _

end Layout

end ClassScript.Number
