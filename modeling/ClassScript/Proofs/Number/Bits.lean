import Mathlib
import ClassScript.Number.Layout

namespace ClassScript.Number

open Float.Model Float.Model.UnpackedFloat

abbrev Pattern := BitVec Format.binary64.numBits

variable {b c : Pattern} {x y : Float} {bits : Nat}

def Pattern.magnitude (b : Pattern) : Nat := b.toNat % signBit

theorem signBit_eq : signBit = 2 ^ 63 := rfl

theorem toNat_unpackExponent (b : Pattern) :
    (unpackExponent b).toNat = b.magnitude / 2 ^ 52 := by
  have part : (unpackExponent b).toNat = b.toNat / 2 ^ 52 % 2 ^ 11 := by
    simp [unpackExponent, Nat.shiftRight_eq_div_pow]
  rw [part, Pattern.magnitude, signBit_eq]
  omega

theorem toNat_unpackMantissa (b : Pattern) :
    (unpackMantissa b).toNat = b.magnitude % 2 ^ 52 := by
  have part : (unpackMantissa b).toNat = b.toNat % 2 ^ 52 := by
    simp [unpackMantissa]
  rw [part, Pattern.magnitude, signBit_eq]
  omega

theorem toNat_unpackSign (b : Pattern) : (unpackSign b).toNat = b.toNat / signBit := by
  have bound : b.toNat < 2 ^ 64 := b.isLt
  have part : (unpackSign b).toNat = b.toNat / 2 ^ 63 % 2 := by
    simp [unpackSign, Nat.shiftRight_eq_div_pow]
  rw [part, signBit_eq]
  omega

theorem toNat_append {m n : Nat} (high : BitVec m) (low : BitVec n) :
    (high ++ low).toNat = 2 ^ n * high.toNat + low.toNat := by
  rw [BitVec.toNat_append, ← Nat.shiftLeft_add_eq_or_of_lt low.isLt, Nat.shiftLeft_eq, Nat.mul_comm]

theorem packComponents_of_parts {sign : Sign} {exponent : BitVec 11} {mantissa : BitVec 52}
    (hs : sign = Sign.ofBitVec (unpackSign b)) (he : exponent.toNat = b.magnitude / 2 ^ 52)
    (hm : mantissa.toNat = b.magnitude % 2 ^ 52) :
    packComponents .binary64 sign exponent mantissa = b := by
  have bits (s : BitVec 1) : (Sign.ofBitVec s).toBitVec = s := by
    revert s
    decide
  subst hs
  rw [packComponents, bits, ← BitVec.toNat_inj, toNat_append, toNat_append, toNat_unpackSign, he,
    hm, Pattern.magnitude, signBit_eq]
  omega

theorem unpack_of_magnitude (same : c.magnitude = b.magnitude) (positive : c.toNat < signBit) :
    unpack .binary64 c = (unpack .binary64 b).abs := by
  have exponent : unpackExponent c = unpackExponent b := by
    rw [← BitVec.toNat_inj, toNat_unpackExponent, toNat_unpackExponent, same]
  have mantissa : unpackMantissa c = unpackMantissa b := by
    rw [← BitVec.toNat_inj, toNat_unpackMantissa, toNat_unpackMantissa, same]
  have sign : unpackSign c = 0 := by
    rw [← BitVec.toNat_inj, toNat_unpackSign, Nat.div_eq_of_lt positive]
    rfl
  unfold UnpackedFloat.unpack
  simp only [exponent, mantissa, sign]
  repeat' split
  all_goals rfl

def Pattern.sign (b : Pattern) : Sign := Sign.ofBitVec (unpackSign b)

inductive StandsFor (b : Pattern) : UnpackedFloat → Prop
  | zero : b.magnitude = 0 → StandsFor b (.zero b.sign)
  | subnormal {significand : Nat} {exponent : Int} (pos : 0 < significand) :
      significand = b.magnitude → b.magnitude < 2 ^ 52 → exponent = -1074 →
      StandsFor b (.finite b.sign significand exponent pos)
  | normal {significand : Nat} {exponent : Int} (pos : 0 < significand) :
      significand = 2 ^ 52 + b.magnitude % 2 ^ 52 → 2 ^ 52 ≤ b.magnitude →
      b.magnitude < infinityBits → exponent = (b.magnitude / 2 ^ 52 : Nat) - 1075 →
      StandsFor b (.finite b.sign significand exponent pos)
  | infinity : b.magnitude = infinityBits → StandsFor b (.infinity b.sign)
  | notANumber : infinityBits < b.magnitude → StandsFor b .notANumber

theorem standsFor_unpack (b : Pattern) : StandsFor b (unpack .binary64 b) := by
  have below : b.magnitude < 2 ^ 63 := Nat.mod_lt _ (by decide)
  have bias : ((Format.binary64.exponentBias : Nat) : Int) = 1023 := rfl
  have top : infinityBits = 2047 * 2 ^ 52 := rfl
  have exponent := toNat_unpackExponent b
  have mantissa := toNat_unpackMantissa b
  unfold UnpackedFloat.unpack
  dsimp only
  split
  · rename_i full
    rw [full] at exponent
    have full : b.magnitude / 2 ^ 52 = 2047 := exponent.symm
    split
    · rename_i empty
      rw [empty] at mantissa
      have empty : b.magnitude % 2 ^ 52 = 0 := mantissa.symm
      exact .infinity (by omega)
    · rename_i some
      apply StandsFor.notANumber
      have some : b.magnitude % 2 ^ 52 ≠ 0 := fun none =>
        some (BitVec.toNat_inj.mp (mantissa.trans none))
      omega
  · rename_i notFull
    have notFull : b.magnitude / 2 ^ 52 ≠ 2047 := fun full =>
      notFull (BitVec.toNat_inj.mp (exponent.trans full))
    split
    · rename_i none
      rw [none] at exponent
      have small : b.magnitude / 2 ^ 52 = 0 := exponent.symm
      split
      · rename_i empty
        rw [empty] at mantissa
        have empty : b.magnitude % 2 ^ 52 = 0 := mantissa.symm
        exact .zero (by omega)
      · refine .subnormal _ ?_ (by omega) ?_
        · rw [mantissa]
          omega
        · rw [none, bias]
          rfl
    · rename_i some
      have some : b.magnitude / 2 ^ 52 ≠ 0 := fun none =>
        some (BitVec.toNat_inj.mp (exponent.trans none))
      refine .normal _ ?_ (by omega) (by omega) ?_
      · rw [toNat_append, mantissa]
        rfl
      · rw [exponent, bias]
        omega

theorem magnitude_lt_of_isFinite {u : UnpackedFloat} (h : StandsFor b u) (finite : u.isFinite) :
    b.magnitude < infinityBits := by
  have top : infinityBits = 2047 * 2 ^ 52 := rfl
  cases h with
  | zero | subnormal | normal => omega
  | infinity | notANumber => cases finite

theorem pack_of_standsFor {u : UnpackedFloat} (h : StandsFor b u)
    (number : b.magnitude ≤ infinityBits) : UnpackedFloat.pack .binary64 u = b := by
  have top : infinityBits = 2047 * 2 ^ 52 := rfl
  have bias : ((Format.binary64.exponentBias : Nat) : Int) = 1023 := rfl
  cases h with
  | zero zero =>
      apply packComponents_of_parts rfl
      · rw [zero]
        rfl
      · rw [zero]
        rfl
  | infinity top =>
      apply packComponents_of_parts rfl
      · rw [top]
        rfl
      · rw [top]
        rfl
  | notANumber beyond => omega
  | subnormal pos value small e =>
      subst value e
      have biased : ((-1074 : Int) + Format.binary64.exponentBias +
          Format.binary64.mantissaBitsWithoutImplicit).toNat = 1 := rfl
      have short : b.magnitude.log2 < 52 := (Nat.log2_lt pos.ne').mpr small
      unfold UnpackedFloat.pack
      dsimp only
      rw [biased, if_neg (by decide), if_neg]
      · apply packComponents_of_parts rfl
        · rw [Nat.div_eq_of_lt small]
          rfl
        · exact BitVec.toNat_ofNat _ _
      · exact fun long => short.ne (Nat.succ.inj (long.trans (Nat.add_comm 1 52)))
  | @normal significand exponent pos value large small e =>
      have biased : (exponent + Format.binary64.exponentBias +
          Format.binary64.mantissaBitsWithoutImplicit).toNat = b.magnitude / 2 ^ 52 := by
        have width : ((Format.binary64.mantissaBitsWithoutImplicit : Nat) : Int) = 52 := rfl
        rw [bias, width, e]
        omega
      have long : significand.log2 = 52 := by
        apply (Nat.log2_eq_iff pos.ne').mpr
        omega
      have exponents : 2 ^ Format.binary64.exponentBits = 2048 := rfl
      have mantissas : 2 ^ Format.binary64.mantissaBitsWithoutImplicit = 2 ^ 52 := rfl
      unfold UnpackedFloat.pack
      dsimp only
      rw [biased, if_neg (by omega), if_pos (by rw [long]; rfl)]
      apply packComponents_of_parts rfl
      · rw [BitVec.toNat_ofNat]
        omega
      · rw [BitVec.toNat_ofNat]
        omega

def patternOf (x : Float) : Pattern := x.toBits.toBitVec

theorem standsFor_float (x : Float) : StandsFor (patternOf x) x.toModel.unpack :=
  standsFor_unpack _

def pattern (bits : Nat) : Pattern := (UInt64.ofNat bits).toBitVec

theorem toNat_pattern (small : bits < signBit) : (pattern bits).toNat = bits := by
  have whole : (pattern bits).toNat = bits % 2 ^ 64 := rfl
  rw [signBit_eq] at small
  omega

theorem magnitude_pattern (small : bits < signBit) : (pattern bits).magnitude = bits := by
  rw [Pattern.magnitude, toNat_pattern small, Nat.mod_eq_of_lt small]

theorem toBits_ofBits (number : bits ≤ infinityBits) :
    (Float.ofBits (UInt64.ofNat bits)).toBits = UInt64.ofNat bits := by
  have small : bits < signBit := Nat.lt_of_le_of_lt number (by decide)
  have kept : (pattern bits).magnitude ≤ infinityBits := by
    rw [magnitude_pattern small]
    exact number
  apply UInt64.toBitVec_inj.mp
  exact pack_of_standsFor (standsFor_unpack (pattern bits)) kept

theorem magnitudeBits_ofBits (number : bits ≤ infinityBits) :
    magnitudeBits (Float.ofBits (UInt64.ofNat bits)) = bits := by
  have small : bits < signBit := Nat.lt_of_le_of_lt number (by decide)
  rw [magnitudeBits, toBits_ofBits number]
  exact magnitude_pattern small

theorem ofBits_magnitudeBits (x : Float) :
    Float.ofBits (UInt64.ofNat (magnitudeBits x)) = x.abs := by
  have below : magnitudeBits x < signBit := Nat.mod_lt _ (by decide)
  have cleared : unpack .binary64 (pattern (magnitudeBits x)) = x.toModel.unpack.abs := by
    apply unpack_of_magnitude
    · exact magnitude_pattern below
    · rw [toNat_pattern below]
      exact below
  exact congrArg (fun u => Float.ofModel (.pack u)) cleared

theorem magnitudeBits_lt_of_isFinite (finite : x.isFinite) : magnitudeBits x < infinityBits :=
  magnitude_lt_of_isFinite (standsFor_float x) finite

theorem lt_zero_iff (x : Float) : x < 0 ↔ x.toModel.unpack.lt (.zero .positive) = true := by
  have run : (x < 0) = (decide (x.toModel.unpack.lt (.zero .positive) = true) = true) := rfl
  rw [run, decide_eq_true_eq]

theorem not_lt_zero (nonnegative : 0 ≤ x) : ¬ x < 0 := by
  rw [lt_zero_iff]
  have run : (0 ≤ x) =
      (decide (UnpackedFloat.le (.zero .positive) x.toModel.unpack = true) = true) := rfl
  rw [run, decide_eq_true_eq] at nonnegative
  cases value : x.toModel.unpack with
  | infinity sign | finite sign =>
      cases sign with
      | negative =>
          rw [value] at nonnegative
          cases nonnegative
      | positive => nofun
  | zero | notANumber => nofun

theorem isNegative_iff_le (x : Float) : isNegative x ↔ signBit ≤ x.toBits.toNat :=
  decide_eq_true_iff

theorem isNegative_iff (x : Float) : isNegative x ↔ (patternOf x).sign = .negative := by
  have bound : (patternOf x).toNat < 2 ^ 64 := (patternOf x).isLt
  have part := toNat_unpackSign (patternOf x)
  have same : isNegative x ↔ signBit ≤ (patternOf x).toNat := isNegative_iff_le x
  rw [same, Pattern.sign, Sign.ofBitVec]
  split
  · rename_i zero
    rw [zero, signBit_eq] at part
    have low : (patternOf x).toNat / 2 ^ 63 = 0 := part.symm
    rw [signBit_eq]
    constructor
    · omega
    · nofun
  · rename_i one
    have high : (patternOf x).toNat / signBit ≠ 0 := fun low =>
      one (BitVec.toNat_inj.mp (part.trans low))
    rw [signBit_eq] at high ⊢
    constructor
    · exact fun _ => rfl
    · omega

theorem lt_zero_of_standsFor {u : UnpackedFloat} (h : StandsFor b u) (finite : u.isFinite) :
    u.lt (.zero .positive) = true ↔ b.sign = .negative ∧ b.magnitude ≠ 0 := by
  cases h with
  | infinity | notANumber => cases finite
  | zero none =>
      constructor
      · nofun
      · exact fun both => absurd none both.2
  | subnormal pos value _ _ | normal pos value _ _ _ =>
      have some : b.magnitude ≠ 0 := by omega
      cases b.sign with
      | negative => exact ⟨fun _ => ⟨rfl, some⟩, fun _ => rfl⟩
      | positive => exact ⟨nofun, nofun⟩

theorem lt_zero_iff_isNegative (finite : x.isFinite) :
    x < 0 ↔ isNegative x ∧ magnitudeBits x ≠ 0 := by
  rw [lt_zero_iff, isNegative_iff]
  exact lt_zero_of_standsFor (standsFor_float x) finite

theorem eq_of_bits (magnitude : magnitudeBits x = magnitudeBits y)
    (sign : isNegative x ↔ isNegative y) : x = y := by
  have bound : x.toBits.toNat < 2 ^ 64 := x.toBits.toNat_lt
  have bound' : y.toBits.toNat < 2 ^ 64 := y.toBits.toNat_lt
  have bits : x.toBits = y.toBits := by
    apply UInt64.toNat_inj.mp
    rw [isNegative_iff_le, isNegative_iff_le] at sign
    rw [magnitudeBits, magnitudeBits] at magnitude
    rw [signBit_eq] at sign magnitude
    omega
  cases x with
  | ofModel x =>
      cases y with
      | ofModel y =>
          cases x
          cases y
          cases bits
          rfl

theorem isNegative_ofBits (number : bits ≤ infinityBits) :
    isNegative (Float.ofBits (UInt64.ofNat bits)) = false := by
  have small : bits < signBit := Nat.lt_of_le_of_lt number (by decide)
  have same : (UInt64.ofNat bits).toNat = bits := toNat_pattern small
  rw [← Bool.not_eq_true, isNegative_iff_le, toBits_ofBits number, same]
  exact Nat.not_le.mpr small

theorem abs_of_not_isNegative (finite : x.isFinite) (positive : isNegative x = false) :
    x.abs = x := by
  have small := (magnitudeBits_lt_of_isFinite finite).le
  rw [← ofBits_magnitudeBits]
  exact eq_of_bits (magnitudeBits_ofBits small) (by rw [isNegative_ofBits small, positive])

theorem eq_zero_of_magnitude {u : UnpackedFloat} (h : StandsFor b u) (zero : b.magnitude = 0) :
    u = .zero b.sign := by
  have top : infinityBits = 2047 * 2 ^ 52 := rfl
  cases h with
  | zero => rfl
  | subnormal | normal | infinity | notANumber => omega

theorem compare_self (u : UnpackedFloat) (finite : u.isFinite) : u.compare u = some .eq := by
  cases u with
  | infinity | notANumber => cases finite
  | zero sign => rfl
  | finite sign m e pos =>
      cases sign with
      | positive | negative => simp [UnpackedFloat.compare]

theorem beq_of_magnitude (finite : x.isFinite) (finite' : y.isFinite)
    (same : magnitudeBits x = magnitudeBits y) (sign : x < 0 ↔ y < 0) : (x == y) = true := by
  have run : (x == y) = (x.toModel.unpack.compare y.toModel.unpack == some .eq) := rfl
  rw [run, beq_iff_eq]
  by_cases none : magnitudeBits x = 0
  · rw [eq_zero_of_magnitude (standsFor_float x) none,
      eq_zero_of_magnitude (standsFor_float y) (same.symm.trans none)]
    rfl
  · rw [lt_zero_iff_isNegative finite, lt_zero_iff_isNegative finite', ← same,
      and_iff_left none, and_iff_left none] at sign
    obtain rfl := eq_of_bits same sign
    exact compare_self _ finite

end ClassScript.Number
