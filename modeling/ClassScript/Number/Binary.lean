/-!
Magnitudes of double precision numbers, counted in steps.

Every finite magnitude is a whole number of steps of `2^-1074`, and its bits below the sign are a
code of that count which keeps the order.  `stepsOf` reads the code and `nearestBits` writes it for
any quotient of naturals: the nearest representable count, the even code where two are equally
near, and the code of infinity where the count is too large.
-/

namespace ClassScript.Number

def twoPow (n : Nat) : Nat := Nat.pow 2 n

def tenPow (n : Nat) : Nat := Nat.pow 10 n

/-- The code of infinity; larger codes stand for no number. -/
def infinityBits : Nat := 0x7FF0000000000000

def stepsInOne : Nat := twoPow 1074

def binade : Nat := twoPow 52

def shiftOf (bits : Nat) : Nat := bits / binade - 1

/-- The number of steps of `2^-1074` that a finite code stands for. -/
def stepsOf (bits : Nat) : Nat := (bits - shiftOf bits * binade) * twoPow (shiftOf bits)

def roundHalfEven (num den : Nat) : Nat :=
  let q := num / den
  match compare (2 * (num % den)) den with
  | .lt => q
  | .gt => q + 1
  | .eq => q + q % 2

/-- The code of the magnitude nearest to `num / den`. -/
def nearestBits (num den : Nat) : Nat :=
  let exact := num * stepsInOne
  let shift := (exact / den).log2 - 52
  min (shift * binade + roundHalfEven exact (den * twoPow shift)) infinityBits

def signBit : Nat := twoPow 63

def magnitudeBits (x : Float) : Nat := x.toBits.toNat % signBit

def isNegative (x : Float) : Bool := signBit ≤ x.toBits.toNat

end ClassScript.Number
