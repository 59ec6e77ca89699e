import Concordance.Proofs.Text.ByteOrder

/-! What bytes are read as. -/
namespace Concordance.Utf8

theorem toNat_ofNat {code : Nat} (valid : code.isValidChar) : (Char.ofNat code).toNat = code := by
  unfold Char.ofNat
  rw [dif_pos valid]
  rfl

/-- What the second byte of a character tells of its first byte. -/
theorem bounds_of_isSecond {first second : UInt8} (follows : isSecond first second = true) :
    (0x80 ≤ second.toNat ∧ second.toNat ≤ 0xbf) ∧ (first.toNat = 0xe0 → 0xa0 ≤ second.toNat) ∧
      (first.toNat = 0xed → second.toNat ≤ 0x9f) ∧ (first.toNat = 0xf0 → 0x90 ≤ second.toNat) ∧
      (first.toNat = 0xf4 → second.toNat ≤ 0x8f) := by
  have same (byte : UInt8) : first = byte ↔ first.toNat = byte.toNat := UInt8.toNat_inj.symm
  simp only [isSecond, secondRange, same, UInt8.reduceToNat] at follows
  split_ifs at follows <;> simp only [UInt8.le_iff_toNat_le, Bool.and_eq_true, decide_eq_true_eq,
    UInt8.reduceToNat] at follows <;> omega

theorem ofNat_eq {number : Nat} (byte : UInt8) (same : number = byte.toNat) :
    UInt8.ofNat number = byte := by
  rw [same, UInt8.ofNat_toNat]

/-- A byte below 128 is a character by itself. -/
theorem encodeChar_one {first : UInt8} (single : first < 0x80) :
    String.utf8EncodeChar (Char.ofNat first.toNat) = [first] := by
  have small : first.toNat < 0x80 := UInt8.lt_iff_toNat_lt.mp single
  have code : (Char.ofNat first.toNat).val.toNat = first.toNat := toNat_ofNat (.inl (by omega))
  simp only [String.utf8EncodeChar, code]
  rw [if_pos (by omega), UInt8.ofNat_toNat]

/-- Two bytes of the right form are those of the character that they are read as. -/
theorem encodeChar_two {first second : UInt8} (starts : 0xc2 ≤ first.toNat ∧ first.toNat ≤ 0xdf)
    (tail : isTail second = true) :
    String.utf8EncodeChar (Char.ofNat (first.toNat % 32 * 64 + payload second)) =
      [first, second] := by
  rw [isTail_iff] at tail
  unfold payload
  generalize number : first.toNat % 32 * 64 + second.toNat % 64 = code
  have value : (Char.ofNat code).val.toNat = code := toNat_ofNat (.inl (by omega))
  simp only [String.utf8EncodeChar, value]
  rw [if_neg (by omega), if_pos (by omega), ofNat_eq first (by omega),
    ofNat_eq second (by omega)]

/-- Three bytes of the right form are those of the character that they are read as. -/
theorem encodeChar_three {first second third : UInt8}
    (starts : 0xe0 ≤ first.toNat ∧ first.toNat ≤ 0xef) (follows : isSecond first second = true)
    (tail : isTail third = true) :
    String.utf8EncodeChar
        (Char.ofNat ((first.toNat % 16 * 64 + payload second) * 64 + payload third)) =
      [first, second, third] := by
  rw [isTail_iff] at tail
  obtain ⟨range, noShort, noSurrogate, -, -⟩ := bounds_of_isSecond follows
  unfold payload
  generalize number : (first.toNat % 16 * 64 + second.toNat % 64) * 64 + third.toNat % 64 = code
  have valid : code.isValidChar := by
    rcases Nat.lt_or_ge code 0xd800 with low | high
    · exact .inl low
    · exact .inr ⟨by omega, by omega⟩
  have value : (Char.ofNat code).val.toNat = code := toNat_ofNat valid
  simp only [String.utf8EncodeChar, value]
  rw [if_neg (by omega), if_neg (by omega), if_pos (by omega), ofNat_eq first (by omega),
    ofNat_eq second (by omega), ofNat_eq third (by omega)]

/-- Four bytes of the right form are those of the character that they are read as. -/
theorem encodeChar_four {first second third fourth : UInt8}
    (starts : 0xf0 ≤ first.toNat ∧ first.toNat ≤ 0xf4) (follows : isSecond first second = true)
    (middle : isTail third = true) (tail : isTail fourth = true) :
    String.utf8EncodeChar (Char.ofNat (((first.toNat % 8 * 64 + payload second) * 64
        + payload third) * 64 + payload fourth)) = [first, second, third, fourth] := by
  rw [isTail_iff] at middle tail
  obtain ⟨range, -, -, noShort, inUnicode⟩ := bounds_of_isSecond follows
  unfold payload
  generalize number : ((first.toNat % 8 * 64 + second.toNat % 64) * 64 + third.toNat % 64) * 64
    + fourth.toNat % 64 = code
  have value : (Char.ofNat code).val.toNat = code := toNat_ofNat (.inr ⟨by omega, by omega⟩)
  simp only [String.utf8EncodeChar, value]
  rw [if_neg (by omega), if_neg (by omega), if_neg (by omega), ofNat_eq first (by omega),
    ofNat_eq second (by omega), ofNat_eq third (by omega),
    ofNat_eq fourth (by omega)]

/-- One character was read, and then the rest. -/
theorem exists_of_map_cons {c : Char} {rest : Except Fault (List Char)} {text : List Char}
    (decoded : (c :: ·) <$> rest = .ok text) : ∃ more, rest = .ok more ∧ text = c :: more := by
  cases rest with
  | error fault => cases decoded
  | ok more => exact ⟨more, rfl, (Except.ok.inj decoded).symm⟩

/-- Bytes that can be read are those of the text that they give. -/
theorem encode_of_decodeFrom {index : Nat} {bytes : List UInt8} {text : List Char}
    (decoded : decodeFrom index bytes = .ok text) : encode text = bytes := by
  fun_induction decodeFrom index bytes generalizing text with
  | case1 =>
      cases decoded
      rfl
  | case2 index first rest single ih =>
      obtain ⟨more, read, rfl⟩ := exists_of_map_cons decoded
      show String.utf8EncodeChar _ ++ encode more = _
      rw [ih read, encodeChar_one single]
      rfl
  | case4 index first large starts second rest tail ih =>
      obtain ⟨more, read, rfl⟩ := exists_of_map_cons decoded
      show String.utf8EncodeChar _ ++ encode more = _
      rw [ih read, encodeChar_two ((isBetween_iff ..).mp starts) tail]
      rfl
  | case9 index first large _ starts second follows third rest tail ih =>
      obtain ⟨more, read, rfl⟩ := exists_of_map_cons decoded
      show String.utf8EncodeChar _ ++ encode more = _
      rw [Bool.not_eq_true', Bool.not_eq_false] at follows
      rw [ih read, encodeChar_three ((isBetween_iff ..).mp starts) follows tail]
      rfl
  | case16 index first large _ _ starts second follows third middle fourth rest tail ih =>
      obtain ⟨more, read, rfl⟩ := exists_of_map_cons decoded
      show String.utf8EncodeChar _ ++ encode more = _
      rw [Bool.not_eq_true', Bool.not_eq_false] at follows middle
      rw [ih read, encodeChar_four ((isBetween_iff ..).mp starts) follows middle tail]
      rfl
  | _ => cases decoded

/-- A string has the bytes that it was read from. -/
theorem decode?_eq_some {bytes : List UInt8} {text : String} :
    decode? bytes = some text ↔ Utf8.bytes text = bytes := by
  unfold decode?
  constructor
  · intro read
    cases decoded : decode bytes with
    | error fault =>
        rw [decoded] at read
        cases read
    | ok found =>
        rw [decoded] at read
        cases read
        show encode (String.ofList found).toList = bytes
        rw [String.toList_ofList]
        exact encode_of_decodeFrom decoded
  · rintro rfl
    rw [decode_bytes]
    exact congrArg some String.ofList_toList

/-- The forms that the bytes of a character take. -/
inductive CharForm : List UInt8 → Prop where
  | one {first : UInt8} (single : first.toNat < 0x80) : CharForm [first]
  | two {first second : UInt8} (starts : 0xc2 ≤ first.toNat ∧ first.toNat ≤ 0xdf)
      (tail : isTail second = true) : CharForm [first, second]
  | three {first second third : UInt8} (starts : 0xe0 ≤ first.toNat ∧ first.toNat ≤ 0xef)
      (follows : isSecond first second = true) (tail : isTail third = true) :
      CharForm [first, second, third]
  | four {first second third fourth : UInt8} (starts : 0xf0 ≤ first.toNat ∧ first.toNat ≤ 0xf4)
      (follows : isSecond first second = true) (middle : isTail third = true)
      (tail : isTail fourth = true) : CharForm [first, second, third, fourth]

/-- The bytes of a character have the form of one. -/
theorem charForm_encodeChar (c : Char) : CharForm (String.utf8EncodeChar c) := by
  have bounds := toNat_bounds c
  have value : c.val.toNat = c.toNat := rfl
  simp only [String.utf8EncodeChar, value]
  split_ifs
  · refine .one ?_
    rw [UInt8.toNat_ofNat']
    omega
  · have first : (UInt8.ofNat (c.toNat / 64 % 0x20 + 0xc0)).toNat = c.toNat / 64 + 0xc0 :=
      toNat_marked (by omega) (by decide)
    exact .two (by omega) (isTail_marked _)
  · have first : (UInt8.ofNat (c.toNat / 4096 % 0x10 + 0xe0)).toNat = c.toNat / 4096 + 0xe0 :=
      toNat_marked (by omega) (by decide)
    have second := toNat_tail (c.toNat / 64)
    exact .three (by omega)
      (isSecond_of_bounds (by omega) (by omega) (by omega) (by omega) (by omega)) (isTail_marked _)
  · have first := toNat_lead c
    have second := toNat_tail (c.toNat / 4096)
    exact .four (by omega)
      (isSecond_of_bounds (by omega) (by omega) (by omega) (by omega) (by omega))
      (isTail_marked _) (isTail_marked _)

namespace CharForm

variable {bytes : List UInt8} (form : CharForm bytes)

include form

/-- A character takes at most four bytes. -/
theorem length_le : bytes.length ≤ 4 := by
  cases form <;> simp

/-- The first byte of a character continues none, and all others do. -/
theorem exists_cons : ∃ first rest, bytes = first :: rest ∧ isTail first = false ∧
    ∀ byte ∈ rest, isTail byte = true := by
  have lead {first : UInt8} (starts : first.toNat < 0x80 ∨ 0xc2 ≤ first.toNat) :
      isTail first = false := by
    rw [← Bool.not_eq_true, isTail_iff]
    omega
  have second {first second : UInt8} (follows : isSecond first second = true) :
      isTail second = true := (isTail_iff second).mpr (bounds_of_isSecond follows).1
  cases form with
  | one single => exact ⟨_, _, rfl, lead (.inl single), by simp⟩
  | two starts tail => exact ⟨_, _, rfl, lead (.inr starts.1), by simp [tail]⟩
  | three starts follows tail =>
      exact ⟨_, _, rfl, lead (.inr (by omega)), by simp [second follows, tail]⟩
  | four starts follows middle tail =>
      exact ⟨_, _, rfl, lead (.inr (by omega)), by simp [second follows, middle, tail]⟩

end CharForm

end Concordance.Utf8
