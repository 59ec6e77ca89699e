import Concordance.Number.Nearest

/-! The shortest decimal that reads back as a given number. -/
namespace Concordance.Number

/-- A whole power of ten as a fraction. -/
def powerOfTen (exponent : Int) : Nat × Nat :=
  if 0 ≤ exponent then (Nat.pow 10 exponent.toNat, 1)
  else (1, Nat.pow 10 (-exponent).toNat)

/-- The size of a number as a fraction. -/
def fractionOf (magnitude : Nat) : Nat × Nat :=
  let exponent := exponent magnitude
  if 0 ≤ exponent then (mantissa magnitude <<< exponent.toNat, 1)
  else (mantissa magnitude, 1 <<< (-exponent).toNat)

/-- The fraction is at least ten to the power of `exponent`. -/
def reachesPower (fraction : Nat × Nat) (exponent : Int) : Bool :=
  let power := powerOfTen exponent
  power.1 * fraction.2 ≤ fraction.1 * power.2

/-- The fraction lies below ten to this power and not below the power before it. -/
def decimalSize (fraction : Nat × Nat) : Int :=
  let estimate := ((fraction.1.log2 : Int) - (fraction.2.log2 : Int) - 1) * 30103 / 100000
  if reachesPower fraction (estimate + 2) then estimate + 3
  else if reachesPower fraction (estimate + 1) then estimate + 2
  else if reachesPower fraction estimate then estimate + 1
  else estimate

/-- What is taken when a number lies halfway between two decimals that both read back. -/
inductive Tie where
  | up
  | even
deriving DecidableEq, Repr

/-- The quotient of two numbers goes up when it is nearer to the whole number above it. -/
def Tie.goesUp (tie : Tie) (numerator denominator : Nat) : Bool :=
  let twice := 2 * (numerator % denominator)
  denominator < twice ||
    (denominator == twice && (tie == .up || numerator / denominator % 2 == 1))

/-- The neighbour on the grid of `exponent` that reads back, the nearer one if both do. -/
def neighbour? (tie : Tie) (magnitude : Nat) (exponent : Int) : Option Decimal :=
  let fraction := fractionOf magnitude
  let power := powerOfTen exponent
  let numerator := fraction.1 * power.2
  let denominator := fraction.2 * power.1
  let lower : Decimal := ⟨numerator / denominator, exponent⟩
  let upper : Decimal := ⟨numerator / denominator + 1, exponent⟩
  if lower.nearest = magnitude then
    if upper.nearest = magnitude ∧ tie.goesUp numerator denominator then some upper
    else some lower
  else if upper.nearest = magnitude then some upper
  else none

/-- Every decimal digit of a number. -/
def exact (magnitude : Nat) : Decimal :=
  let exponent := exponent magnitude
  if 0 ≤ exponent then ⟨mantissa magnitude <<< exponent.toNat, 0⟩
  else ⟨mantissa magnitude * Nat.pow 5 (-exponent).toNat, exponent⟩

/-- The decimal without the zeros that its digits end in. -/
def Decimal.trimZeros : Nat → Decimal → Decimal
  | 0, decimal => decimal
  | fuel + 1, decimal =>
      if decimal.digits ≠ 0 ∧ decimal.digits % 10 = 0 then
        Decimal.trimZeros fuel ⟨decimal.digits / 10, decimal.exponent + 1⟩
      else decimal

/-- The decimal with the fewest digits that reads back as the number. -/
def shortest (tie : Tie) (magnitude : Nat) : Decimal :=
  if magnitude = 0 then ⟨0, 0⟩
  else
    let size := decimalSize (fractionOf magnitude)
    let found := (List.range 17).findSome? fun count =>
      neighbour? tie magnitude (size - (count + 1 : Nat))
    match found with
    | some decimal => decimal.trimZeros 20
    | none => exact magnitude

/-- The digits of a number in base ten. -/
def decimalDigits (n : Nat) : List Char := Nat.toDigits 10 n

/-- The decimal with all its places written out and no exponent. -/
def Decimal.positional (decimal : Decimal) : List Char :=
  let digits := decimalDigits decimal.digits
  if 0 ≤ decimal.exponent then
    if decimal.digits = 0 then digits else digits ++ List.replicate decimal.exponent.toNat '0'
  else
    let places := (-decimal.exponent).toNat
    if places < digits.length then
      digits.take (digits.length - places) ++ '.' :: digits.drop (digits.length - places)
    else '0' :: '.' :: List.replicate (places - digits.length) '0' ++ digits

/-- The text of a number: a sign when it is negative, then the shortest decimal that reads back,
with all its places. A tie goes up. -/
def text (x : Number) : List Char :=
  if x.isNaN then ['N', 'a', 'N']
  else
    (if x.isNegative then ['-'] else []) ++
      if x.isInfinite then ['i', 'n', 'f'] else (shortest .up x.magnitude).positional

def toText (x : Number) : String := String.ofList x.text

end Concordance.Number
