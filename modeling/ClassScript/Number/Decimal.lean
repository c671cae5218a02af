import ClassScript.Number.Binary

namespace ClassScript.Number

structure Decimal where
  coefficient : Nat
  exponent : Int
deriving Repr, DecidableEq

namespace Decimal

def bits (d : Decimal) : Nat :=
  nearestBits (d.coefficient * tenPow d.exponent.toNat) (tenPow (-d.exponent).toNat)

def toFloat (d : Decimal) : Float := Float.ofBits (UInt64.ofNat d.bits)

def naturalOfDigits (digits : List Char) : Nat :=
  digits.foldl (fun n c => 10 * n + (c.toNat - '0'.toNat)) 0

def ofDigits (whole fraction : List Char) : Decimal where
  coefficient := naturalOfDigits (whole ++ fraction)
  exponent := -(fraction.length : Int)

end Decimal

inductive Tie where
  | toEven
  | up
deriving Repr, DecidableEq

def digitCount (n : Nat) : Nat := (Nat.toDigits 10 n).length

def powerAbove (num den : Nat) : Int :=
  if den ≤ num then digitCount (num / den) else 1 - (digitCount ((den - 1) / num) : Int)

/-- Of two neighbours the nearer one, where twice the way from the lower one is given. -/
def nearer (tie : Tie) (lower upper : Decimal) (twice unit : Nat) : Decimal :=
  match compare twice unit, tie with
  | .lt, _ => lower
  | .gt, _ => upper
  | .eq, .up => upper
  | .eq, .toEven => if lower.coefficient % 2 = 0 then lower else upper

/-- The neighbour of a quotient on the grid of `10^exponent` that identifies the magnitude. -/
def onGrid? (tie : Tie) (bits num den : Nat) (exponent : Int) : Option Decimal :=
  let scaled := num * tenPow (-exponent).toNat
  let unit := den * tenPow exponent.toNat
  let lower : Decimal := ⟨scaled / unit, exponent⟩
  let upper : Decimal := ⟨scaled / unit + 1, exponent⟩
  if lower.bits = bits then
    if upper.bits = bits then some (nearer tie lower upper (2 * (scaled % unit)) unit)
    else some lower
  else if upper.bits = bits then some upper
  else none

/-- The decimal of fewest digits that reads back as a positive finite magnitude. -/
def shortest (tie : Tie) (bits : Nat) : Decimal :=
  let num := stepsOf bits
  let top := powerAbove num stepsInOne - 1
  let found := (List.range 17).findSome? fun (n : Nat) =>
    onGrid? tie bits num stepsInOne (top - Int.ofNat n)
  found.getD ⟨num * Nat.pow 5 1074, -1074⟩

end ClassScript.Number
