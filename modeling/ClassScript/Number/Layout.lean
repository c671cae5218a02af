import ClassScript.Number.Decimal

namespace ClassScript.Number

/-- The decisions of one written form.  Exponents are those of the leading digit. -/
structure Layout where
  tie : Tie
  positional : Int → Bool
  /-- The exponents at which a whole number ends in `.0`. -/
  pointZero : Int → Bool
  signedZero : Bool
  nan : String
  infinity : String
  negativeInfinity : String

/-- Significant digits with the place of the point: `0.d₁d₂… * 10^point`. -/
structure Digits where
  digits : List Char
  point : Int
deriving Repr, DecidableEq

namespace Digits

def zero : Digits := ⟨['0'], 1⟩

def ofDecimal (d : Decimal) : Digits :=
  let all := Nat.toDigits 10 d.coefficient
  ⟨(all.reverse.dropWhile (· == '0')).reverse, all.length + d.exponent⟩

def ofBits (tie : Tie) (bits : Nat) : Digits :=
  if bits = 0 then zero else ofDecimal (shortest tie bits)

def exponent (d : Digits) : Int := d.point - 1

def positional (pointZero : Bool) (d : Digits) : List Char :=
  if d.point ≤ 0 then
    '0' :: '.' :: List.replicate (-d.point).toNat '0' ++ d.digits
  else if d.point < d.digits.length then
    d.digits.take d.point.toNat ++ '.' :: d.digits.drop d.point.toNat
  else
    d.digits ++ List.replicate (d.point.toNat - d.digits.length) '0' ++
      if pointZero then ['.', '0'] else []

def scientific (d : Digits) : List Char :=
  let mantissa := match d.digits with
    | lead :: next :: rest => lead :: '.' :: next :: rest
    | few => few
  let sign := if d.exponent < 0 then '-' else '+'
  mantissa ++ 'e' :: sign :: Nat.toDigits 10 d.exponent.natAbs

end Digits

namespace Layout

def magnitude (l : Layout) (bits : Nat) : List Char :=
  let d := Digits.ofBits l.tie bits
  if l.positional d.exponent then d.positional (l.pointZero d.exponent) else d.scientific

def write (l : Layout) (x : Float) : String :=
  let bits := magnitudeBits x
  if infinityBits < bits then l.nan
  else if bits = infinityBits then if isNegative x then l.negativeInfinity else l.infinity
  else if isNegative x && (l.signedZero || bits != 0) then String.ofList ('-' :: l.magnitude bits)
  else String.ofList (l.magnitude bits)

end Layout

end ClassScript.Number
