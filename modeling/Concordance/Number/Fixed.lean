import Concordance.Number.Shortest
import Concordance.Calendar

/-! Numbers with a fixed count of places after the point. -/
namespace Concordance.Number

/-- A whole number of parts of one, so many places after the point. -/
def placed (places : Nat) (parts : Nat) : List Char :=
  let digits := Moment.padded (places + 1) parts
  digits.take (digits.length - places) ++ '.' :: digits.drop (digits.length - places)

/-- A fraction rounded to so many places. A half goes to the even neighbour. -/
def fixedFraction (places numerator denominator : Nat) : List Char :=
  placed places (roundDiv (numerator * Nat.pow 10 places) denominator)

/-- A number rounded to so many places. The sign stays even where nothing else is left. -/
def fixed (places : Nat) (x : Number) : List Char :=
  if x.isNaN then ['N', 'a', 'N']
  else
    let fraction := fractionOf x.magnitude
    (if x.isNegative then ['-'] else []) ++
      if x.isInfinite then ['i', 'n', 'f'] else fixedFraction places fraction.1 fraction.2

/-- A decimal whose first digit stands before the point, with the sign and the power of ten after
it. -/
def scientific (digits : List Char) (power : Int) : List Char :=
  let fraction := digits.drop 1
  digits.take 1 ++ (if fraction.isEmpty then [] else '.' :: fraction) ++
    'e' :: (if power < 0 then '-' else '+') :: decimalDigits power.natAbs

/-- The shortest decimal that reads back, with a point. Numbers from a hundred thousandth up to ten
to the power of 16 have all their places written out. A tie goes to the even digit. -/
def pointedText (x : Number) : List Char :=
  let decimal := shortest .even x.magnitude
  let digits := decimalDigits decimal.digits
  let size : Int := digits.length + decimal.exponent
  let unsigned :=
    if decimal.digits = 0 then ['0', '.', '0']
    else if 0 ≤ decimal.exponent ∧ size ≤ 16 then decimal.positional ++ ['.', '0']
    else if -5 < size ∧ size ≤ 16 then decimal.positional
    else scientific digits (size - 1)
  (if x.isNegative then ['-'] else []) ++ unsigned

end Concordance.Number
