import Concordance.Number

/-! The number nearest to a fraction. -/
namespace Concordance.Number

/-- The quotient rounded to the nearest whole number, a half to the even one. -/
def roundDiv (numerator denominator : Nat) : Nat :=
  let quotient := numerator / denominator
  let twice := 2 * (numerator % denominator)
  if twice < denominator then quotient
  else if denominator < twice then quotient + 1
  else quotient + quotient % 2

/-- The quotient of a fraction by a power of two. -/
def roundScaled (numerator denominator : Nat) (exponent : Int) : Nat :=
  if 0 ≤ exponent then roundDiv numerator (denominator <<< exponent.toNat)
  else roundDiv (numerator <<< (-exponent).toNat) denominator

/-- Two to this power is the weight of the last bit of the number nearest to a fraction. -/
def lastBit (numerator denominator : Nat) : Int :=
  let size : Int := (numerator.log2 : Int) - (denominator.log2 : Int)
  let below : Bool :=
    if 0 ≤ size then numerator < denominator <<< size.toNat
    else numerator <<< (-size).toNat < denominator
  max (-1074) (if below then size - 53 else size - 52)

/-- The magnitude of the number nearest to a fraction. -/
def nearest (numerator denominator : Nat) : Nat :=
  if numerator = 0 then 0
  else
    let exponent := lastBit numerator denominator
    min infinity (roundScaled numerator denominator exponent + (exponent + 1074).toNat * exponentWeight)

/-- A number written with decimal digits: `digits` times ten to the power of `exponent`. -/
structure Decimal where
  digits : Nat
  exponent : Int
deriving DecidableEq, Repr

/-- The magnitude of the number nearest to a decimal. -/
def Decimal.nearest (decimal : Decimal) : Nat :=
  if 0 ≤ decimal.exponent then Number.nearest (decimal.digits * Nat.pow 10 decimal.exponent.toNat) 1
  else Number.nearest decimal.digits (Nat.pow 10 (-decimal.exponent).toNat)

/-- About the number of digits of a whole number. -/
def digitCount (n : Nat) : Nat := n.log2 * 30103 / 100000

/-- The magnitude of the number nearest to a decimal whose exponent may be huge. No power of ten is
worked out where the decimal is far above or far below all numbers. -/
def Decimal.nearestOfAny (decimal : Decimal) : Nat :=
  let size := (digitCount decimal.digits : Int) + decimal.exponent
  if decimal.digits = 0 then 0
  else if 400 < size then infinity
  else if size < -400 then 0
  else decimal.nearest

/-- The digit that a character stands for. -/
def digitValue (c : Char) : Nat := c.toNat - '0'.toNat

/-- The value of a run of digits read after the digits of `start`. -/
def readDigits (start : Nat) (digits : List Char) : Nat :=
  digits.foldl (fun value c => value * 10 + digitValue c) start

/-- The decimal written as digits before and digits after a point. -/
def Decimal.ofDigits (whole fraction : List Char) : Decimal :=
  ⟨readDigits 0 (whole ++ fraction), -(fraction.length : Int)⟩

/-- The number that unsigned digits with an optional point stand for. -/
def ofText (text : List Char) : Number :=
  let whole := text.takeWhile Char.isDigit
  let fraction := (text.dropWhile Char.isDigit).drop 1
  ofMagnitude false (Decimal.ofDigits whole fraction).nearest

end Concordance.Number
