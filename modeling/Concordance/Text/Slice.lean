import Concordance.Text.Utf8

/-! Pieces of a text by the places of their bytes. -/
namespace Concordance.Utf8

/-- A character begins at the place, or the bytes end there. -/
def isBoundary (bytes : List UInt8) (place : Nat) : Bool :=
  place == 0 || place == bytes.length || bytes[place]?.any (!isTail ·)

/-- The text between two places, where there is one. -/
def slice? (bytes : List UInt8) (start stop : Nat) : Option String :=
  if start ≤ stop && isBoundary bytes start && isBoundary bytes stop then
    decode? (bytes.extract start stop)
  else none

end Concordance.Utf8
