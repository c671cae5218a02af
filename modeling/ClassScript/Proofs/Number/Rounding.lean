import Mathlib
import ClassScript.Number.Decimal

namespace ClassScript.Number

variable {num den num' den' bits : Nat} {tie : Tie}

theorem twoPow_pos (n : Nat) : 0 < twoPow n := Nat.pow_pos Nat.two_pos

theorem tenPow_pos (n : Nat) : 0 < tenPow n := Nat.pow_pos (by decide)

theorem tenPow_add (m n : Nat) : tenPow (m + n) = tenPow m * tenPow n := Nat.pow_add 10 m n

theorem roundHalfEven_mul (q : Nat) {d : Nat} (pos : 0 < d) : roundHalfEven (q * d) d = q := by
  have below : compare 0 d = .lt := Nat.compare_eq_lt.mpr pos
  simp only [roundHalfEven, Nat.mul_div_cancel q pos, Nat.mul_mod_left, Nat.mul_zero, below]

theorem roundHalfEven_scale (num den : Nat) {c : Nat} (pos : 0 < c) :
    roundHalfEven (num * c) (den * c) = roundHalfEven num den := by
  have same : compare (2 * (num % den * c)) (den * c) = compare (2 * (num % den)) den := by
    rw [← Nat.mul_assoc]
    simp only [compare, compareOfLessAndEq, Nat.mul_lt_mul_right pos, Nat.mul_left_inj pos.ne']
  simp only [roundHalfEven, Nat.mul_div_mul_right _ _ pos, Nat.mul_mod_mul_right, same]

theorem nearestBits_scale (num den : Nat) {c : Nat} (pos : 0 < c) :
    nearestBits (num * c) (den * c) = nearestBits num den := by
  have exact : num * c * stepsInOne = num * stepsInOne * c := Nat.mul_right_comm _ _ _
  have unit (n : Nat) : den * c * n = den * n * c := Nat.mul_right_comm _ _ _
  simp only [nearestBits, exact, unit, Nat.mul_div_mul_right _ _ pos, roundHalfEven_scale _ _ pos]

theorem nearestBits_congr (pos : 0 < den) (pos' : 0 < den') (same : num * den' = num' * den) :
    nearestBits num den = nearestBits num' den' := by
  calc nearestBits num den
      = nearestBits (num * den') (den * den') := (nearestBits_scale num den pos').symm
    _ = nearestBits (num' * den) (den' * den) := by rw [same, Nat.mul_comm den]
    _ = nearestBits num' den' := nearestBits_scale num' den' pos

theorem log2_significand {significand : Nat} (shift : Nat) (least : 2 ^ 52 ≤ significand)
    (most : significand < 2 ^ 53) : (significand * twoPow shift).log2 = 52 + shift := by
  have pos : 0 < significand := Nat.lt_of_lt_of_le (by decide) least
  apply (Nat.log2_eq_iff (Nat.mul_pos pos (twoPow_pos shift)).ne').mpr
  constructor
  · rw [Nat.pow_add]
    exact Nat.mul_le_mul_right _ least
  · rw [Nat.add_right_comm, Nat.pow_add]
    exact Nat.mul_lt_mul_of_pos_right most (twoPow_pos shift)

theorem log2_stepsOf (bits : Nat) : (stepsOf bits).log2 - 52 = shiftOf bits := by
  have size : binade = 2 ^ 52 := rfl
  have code := Nat.div_add_mod bits binade
  have rest : bits % binade < binade := Nat.mod_lt _ (twoPow_pos 52)
  rw [size] at code rest
  cases plain : shiftOf bits with
  | zero =>
      have short : bits < 2 ^ 53 := by
        rw [shiftOf, size] at plain
        omega
      have same : stepsOf bits = bits := by
        rw [stepsOf, plain, Nat.zero_mul]
        exact Nat.mul_one bits
      rw [same]
      apply Nat.sub_eq_zero_of_le
      by_cases zero : bits = 0
      · rw [zero]
        exact Nat.zero_le _
      · exact Nat.le_of_lt_succ ((Nat.log2_lt zero).mpr short)
  | succ shift =>
      have quotient : bits / binade = shift + 2 := by
        rw [shiftOf] at plain
        omega
      rw [size] at quotient
      rw [stepsOf, plain, size, log2_significand]
      · exact Nat.add_sub_cancel_left ..
      · omega
      · omega

theorem nearestBits_stepsOf (finite : bits < infinityBits) :
    nearestBits (stepsOf bits) stepsInOne = bits := by
  have pos : 0 < stepsInOne := twoPow_pos 1074
  have whole : shiftOf bits * binade ≤ bits := by
    calc shiftOf bits * binade
        ≤ bits / binade * binade := Nat.mul_le_mul_right _ (Nat.sub_le _ _)
      _ ≤ bits := Nat.div_mul_le_self bits binade
  have kept : stepsOf bits * stepsInOne =
      (bits - shiftOf bits * binade) * (stepsInOne * twoPow (shiftOf bits)) := by
    rw [stepsOf, Nat.mul_assoc, Nat.mul_comm stepsInOne]
  rw [nearestBits, Nat.mul_div_cancel _ pos, log2_stepsOf, kept,
    roundHalfEven_mul _ (Nat.mul_pos pos (twoPow_pos _)), Nat.add_sub_cancel' whole]
  exact Nat.min_eq_left finite.le

theorem nearestBits_zero (pos : 0 < den) : nearestBits 0 den = 0 := by
  have zero : stepsOf 0 = 0 := by rw [stepsOf, Nat.zero_sub, Nat.zero_mul]
  have exact : nearestBits (stepsOf 0) stepsInOne = 0 := nearestBits_stepsOf (by decide)
  rw [zero] at exact
  rw [nearestBits_congr pos (twoPow_pos 1074) (by rw [Nat.zero_mul, Nat.zero_mul])]
  exact exact

theorem bits_congr {d d' : Decimal}
    (same : d.coefficient * tenPow d.exponent.toNat * tenPow (-d'.exponent).toNat =
      d'.coefficient * tenPow d'.exponent.toNat * tenPow (-d.exponent).toNat) :
    d.bits = d'.bits :=
  nearestBits_congr (tenPow_pos _) (tenPow_pos _) same

theorem bits_scale (c k : Nat) (e : Int) :
    Decimal.bits ⟨c * tenPow k, e⟩ = Decimal.bits ⟨c, e + k⟩ := by
  apply bits_congr
  have exponents : k + e.toNat + (-(e + k)).toNat = (e + k).toNat + (-e).toNat := by omega
  simp only [Nat.mul_assoc, ← tenPow_add]
  rw [exponents]

theorem bits_zero (e : Int) : Decimal.bits ⟨0, e⟩ = 0 := by
  rw [Decimal.bits, Nat.zero_mul]
  exact nearestBits_zero (tenPow_pos _)

theorem bits_digits (steps n : Nat) :
    Decimal.bits ⟨steps * Nat.pow 5 n, -n⟩ = nearestBits steps (twoPow n) := by
  have ten : tenPow n = Nat.pow 5 n * twoPow n := Nat.mul_pow 5 2 n
  apply nearestBits_congr (tenPow_pos _) (twoPow_pos _)
  rw [Int.toNat_neg_natCast, neg_neg, Int.toNat_natCast, ten]
  simp only [Nat.mul_assoc, tenPow, Nat.pow_zero, Nat.pow_eq, Nat.one_mul]

theorem bits_allDigits (finite : bits < infinityBits) :
    Decimal.bits ⟨stepsOf bits * Nat.pow 5 1074, -1074⟩ = bits := by
  have all {n : Nat} {e : Int} (exponent : e = -n) (one : stepsInOne = twoPow n) :
      Decimal.bits ⟨stepsOf bits * Nat.pow 5 n, e⟩ = bits := by
    rw [exponent, bits_digits, ← one]
    exact nearestBits_stepsOf finite
  apply all
  · rfl
  · rfl

theorem nearer_cases (tie : Tie) (lower upper : Decimal) (twice unit : Nat) :
    nearer tie lower upper twice unit = lower ∨ nearer tie lower upper twice unit = upper := by
  unfold nearer
  repeat' split
  all_goals simp only [true_or, or_true]

theorem bits_onGrid {num den : Nat} {exponent : Int} {d : Decimal}
    (h : onGrid? tie bits num den exponent = some d) : d.bits = bits := by
  unfold onGrid? at h
  extract_lets scaled unit lower upper at h
  split at h
  · rename_i low
    split at h
    · rename_i up
      obtain rfl := Option.some.inj h
      rcases nearer_cases tie lower upper (2 * (scaled % unit)) unit with same | same
      · rw [same, low]
      · rw [same, up]
    · obtain rfl := Option.some.inj h
      exact low
  · split at h
    · rename_i up
      obtain rfl := Option.some.inj h
      exact up
    · cases h

theorem bits_shortest (finite : bits < infinityBits) : (shortest tie bits).bits = bits := by
  unfold shortest
  dsimp only
  generalize found : List.findSome? _ _ = d
  cases d with
  | none => exact bits_allDigits finite
  | some d =>
      obtain ⟨n, -, some⟩ := List.exists_of_findSome?_eq_some found
      exact bits_onGrid some

end ClassScript.Number
