/-! Numbers of metadata. -/
namespace Concordance

/-- A number in the binary format of 64 bits: a sign, eleven bits of exponent, 52 of fraction. -/
structure Number where
  bits : UInt64
deriving DecidableEq, Repr, Inhabited

namespace Number

def toFloat (x : Number) : Float := Float.ofBits x.bits

def ofFloat (x : Float) : Number := ⟨x.toBits⟩

/-- What the sign adds to the bits of a number. -/
def signWeight : Nat := 0x8000000000000000

/-- What one more in the exponent adds to the bits of a number. -/
def exponentWeight : Nat := 0x10000000000000

/-- The bits below the sign, which order numbers of one sign by size. -/
def magnitude (x : Number) : Nat := x.bits.toNat % signWeight

def isNegative (x : Number) : Bool := signWeight ≤ x.bits.toNat

/-- The number of a sign and the bits below it. -/
def ofMagnitude (negative : Bool) (magnitude : Nat) : Number :=
  ⟨UInt64.ofNat (magnitude % signWeight + if negative then signWeight else 0)⟩

/-- The magnitude of infinity. What is above it is no number. -/
def infinity : Nat := 2047 * exponentWeight

/-- The magnitude that stands for no number. -/
def notANumber : Nat := infinity + exponentWeight / 2

def isNaN (x : Number) : Bool := infinity < x.magnitude

def isInfinite (x : Number) : Bool := x.magnitude = infinity

/-- The whole number `mantissa` times two to the power of `exponent` is the size of a number. -/
def mantissa (magnitude : Nat) : Nat :=
  if magnitude < exponentWeight then magnitude
  else magnitude % exponentWeight + exponentWeight

def exponent (magnitude : Nat) : Int :=
  if magnitude < exponentWeight then -1074 else (magnitude / exponentWeight : Nat) - 1075

def negate (x : Number) : Number := ofMagnitude (!x.isNegative) x.magnitude

theorem magnitude_lt (x : Number) : x.magnitude < signWeight := Nat.mod_lt _ (by decide)

theorem toNat_ofMagnitude (negative : Bool) (magnitude : Nat) :
    (ofMagnitude negative magnitude).bits.toNat =
      magnitude % signWeight + if negative then signWeight else 0 := by
  simp only [ofMagnitude, UInt64.toNat_ofNat', signWeight]
  apply Nat.mod_eq_of_lt
  split <;> omega

theorem magnitude_ofMagnitude (negative : Bool) (magnitude : Nat) :
    (ofMagnitude negative magnitude).magnitude = magnitude % signWeight := by
  simp only [Number.magnitude, toNat_ofMagnitude, signWeight]
  split <;> omega

theorem isNegative_ofMagnitude (negative : Bool) (magnitude : Nat) :
    (ofMagnitude negative magnitude).isNegative = negative := by
  simp only [isNegative, toNat_ofMagnitude, signWeight]
  cases negative
  · simp
    omega
  · simp

theorem ofMagnitude_self (x : Number) : ofMagnitude x.isNegative x.magnitude = x := by
  obtain ⟨bits⟩ := x
  have bound := bits.toNat_lt
  simp only [ofMagnitude, isNegative, magnitude]
  congr 1
  apply UInt64.toNat_inj.mp
  rw [UInt64.toNat_ofNat']
  simp only [decide_eq_true_eq]
  split <;> simp only [signWeight] at * <;> omega

end Number
end Concordance
