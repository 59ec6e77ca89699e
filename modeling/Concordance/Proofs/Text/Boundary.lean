import Concordance.Proofs.Text.Decoding

namespace Concordance.Utf8

/-- A place in the bytes of a text where a character begins or the text ends. -/
def IsBoundary (text : List Char) (place : Nat) : Prop :=
  ∃ before after, text = before ++ after ∧ width before = place

/-- What is left of a character whose end was cut off. -/
def IsFront (bytes : List UInt8) : Prop :=
  ∃ c count, bytes = (String.utf8EncodeChar c).take count ∧ 0 < count ∧ count < c.utf8Size

/-- A character takes at most four bytes. -/
theorem length_encodeChar_le (c : Char) : (String.utf8EncodeChar c).length ≤ 4 :=
  (charForm_encodeChar c).length_le

theorem IsFront.exists_cons {bytes : List UInt8} (front : IsFront bytes) :
    ∃ first rest, bytes = first :: rest ∧ isTail first = false := by
  obtain ⟨c, count, rfl, some, -⟩ := front
  obtain ⟨first, rest, split, lead, -⟩ := (charForm_encodeChar c).exists_cons
  obtain ⟨count, rfl⟩ := Nat.exists_eq_succ_of_ne_zero (Nat.ne_of_gt some)
  exact ⟨first, rest.take count, by rw [split, List.take_succ_cons], lead⟩

/-- The front of a character takes at most three bytes. -/
theorem IsFront.length_le {bytes : List UInt8} (front : IsFront bytes) : bytes.length ≤ 3 := by
  obtain ⟨c, count, rfl, -, cut⟩ := front
  have wide := length_encodeChar_le c
  rw [String.length_utf8EncodeChar] at wide
  rw [List.length_take]
  omega

end Concordance.Utf8
