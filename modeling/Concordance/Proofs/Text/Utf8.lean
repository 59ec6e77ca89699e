import Concordance.Text.Utf8
import Mathlib.Tactic.SplitIfs

/-! Text survives being written as bytes: decoding the bytes of a text gives the text. -/
namespace Concordance.Utf8

/-- A byte lies between two others where its number lies between theirs. -/
theorem isBetween_iff (low high byte : UInt8) : (low ≤ byte && byte ≤ high) = true ↔
    low.toNat ≤ byte.toNat ∧ byte.toNat ≤ high.toNat := by
  rw [Bool.and_eq_true, decide_eq_true_iff, decide_eq_true_iff, UInt8.le_iff_toNat_le,
    UInt8.le_iff_toNat_le]

theorem not_isBetween {low high byte : UInt8} (above : high.toNat < byte.toNat) :
    ¬(low ≤ byte && byte ≤ high) = true := by
  rw [isBetween_iff]
  omega

theorem not_isSingle {byte : UInt8} (large : 0x80 ≤ byte.toNat) : ¬byte < 0x80 :=
  fun small => Nat.lt_irrefl _ (Nat.lt_of_lt_of_le (UInt8.lt_iff_toNat_lt.mp small) large)

/-- A mark and a number below its width make a byte that tells both. -/
theorem toNat_marked {number width mark : Nat} (short : number < width)
    (fits : width + mark ≤ 256) :
    (UInt8.ofNat (number % width + mark)).toNat = number + mark := by
  rw [UInt8.toNat_ofNat', Nat.mod_eq_of_lt short]
  omega

theorem toNat_tail (number : Nat) :
    (UInt8.ofNat (number % 0x40 + 0x80)).toNat = number % 64 + 0x80 := by
  rw [UInt8.toNat_ofNat']
  omega

/-- A byte below 128 is a character by itself. -/
theorem decodeFrom_one (index : Nat) {first : UInt8} (rest : List UInt8)
    (single : first.toNat < 0x80) :
    decodeFrom index (first :: rest) =
      (Char.ofNat first.toNat :: ·) <$> decodeFrom (index + 1) rest := by
  have small : first < 0x80 := UInt8.lt_iff_toNat_lt.mpr single
  rw [decodeFrom.eq_def]
  simp only [small, if_true]

/-- The bytes that continue a character are those from 0x80 to 0xbf. -/
theorem isTail_iff (byte : UInt8) : isTail byte = true ↔ 0x80 ≤ byte.toNat ∧ byte.toNat ≤ 0xbf :=
  isBetween_iff 0x80 0xbf byte

/-- Every later byte of a character can be read, and holds six bits of it. -/
theorem isTail_marked (number : Nat) :
    isTail (UInt8.ofNat (number % 0x40 + 0x80)) = true := by
  rw [isTail_iff, toNat_tail]
  omega

/-- A byte that continues a character carries six bits. -/
theorem payload_marked (number : Nat) :
    payload (UInt8.ofNat (number % 0x40 + 0x80)) = number % 64 := by
  rw [payload, toNat_tail]
  omega

/-- Two bytes of the right form are read as one character. -/
theorem decodeFrom_two (index : Nat) {first second : UInt8} (rest : List UInt8)
    (starts : 0xc2 ≤ first.toNat ∧ first.toNat ≤ 0xdf) (tail : isTail second = true) :
    decodeFrom index (first :: second :: rest) =
      (Char.ofNat (first.toNat % 32 * 64 + payload second) :: ·) <$>
        decodeFrom (index + 2) rest := by
  have large : ¬first < 0x80 := not_isSingle (by omega)
  have two : (0xc2 ≤ first && first ≤ 0xdf) = true := (isBetween_iff _ _ _).mpr starts
  rw [decodeFrom.eq_def]
  simp only [large, two, tail, if_false, if_true]

/-- Three bytes of the right form are read as one character. -/
theorem decodeFrom_three (index : Nat) {first second third : UInt8} (rest : List UInt8)
    (starts : 0xe0 ≤ first.toNat ∧ first.toNat ≤ 0xef) (follows : isSecond first second = true)
    (tail : isTail third = true) :
    decodeFrom index (first :: second :: third :: rest) =
      (Char.ofNat ((first.toNat % 16 * 64 + payload second) * 64 + payload third) :: ·) <$>
        decodeFrom (index + 3) rest := by
  have large : ¬first < 0x80 := not_isSingle (by omega)
  have notTwo : ¬(0xc2 ≤ first && first ≤ 0xdf) = true :=
    not_isBetween (show 0xdf < first.toNat by omega)
  have three : (0xe0 ≤ first && first ≤ 0xef) = true := (isBetween_iff _ _ _).mpr starts
  rw [decodeFrom.eq_def]
  simp only [large, notTwo, three, follows, tail, Bool.not_true, Bool.false_eq_true, if_false,
    if_true]

/-- Four bytes of the right form are read as one character. -/
theorem decodeFrom_four (index : Nat) {first second third fourth : UInt8} (rest : List UInt8)
    (starts : 0xf0 ≤ first.toNat ∧ first.toNat ≤ 0xf4) (follows : isSecond first second = true)
    (middle : isTail third = true) (tail : isTail fourth = true) :
    decodeFrom index (first :: second :: third :: fourth :: rest) =
      (Char.ofNat (((first.toNat % 8 * 64 + payload second) * 64 + payload third) * 64
        + payload fourth) :: ·) <$> decodeFrom (index + 4) rest := by
  have large : ¬first < 0x80 := not_isSingle (by omega)
  have notTwo : ¬(0xc2 ≤ first && first ≤ 0xdf) = true :=
    not_isBetween (show 0xdf < first.toNat by omega)
  have notThree : ¬(0xe0 ≤ first && first ≤ 0xef) = true :=
    not_isBetween (show 0xef < first.toNat by omega)
  have four : (0xf0 ≤ first && first ≤ 0xf4) = true := (isBetween_iff _ _ _).mpr starts
  rw [decodeFrom.eq_def]
  simp only [large, notTwo, notThree, four, follows, middle, tail, Bool.not_true,
    Bool.false_eq_true, if_false, if_true]

/-- The second byte of a character lies in the range that its first byte sets. -/
theorem isSecond_of_bounds {first second : UInt8}
    (tail : 0x80 ≤ second.toNat ∧ second.toNat ≤ 0xbf)
    (noShort : first.toNat = 0xe0 → 0xa0 ≤ second.toNat)
    (noSurrogate : first.toNat = 0xed → second.toNat ≤ 0x9f)
    (noShortFour : first.toNat = 0xf0 → 0x90 ≤ second.toNat)
    (inUnicode : first.toNat = 0xf4 → second.toNat ≤ 0x8f) : isSecond first second = true := by
  have same (byte : UInt8) : first = byte ↔ first.toNat = byte.toNat := UInt8.toNat_inj.symm
  simp only [isSecond, secondRange, same, UInt8.reduceToNat]
  split_ifs <;> simp only [UInt8.le_iff_toNat_le, Bool.and_eq_true, decide_eq_true_eq,
    UInt8.reduceToNat] <;> omega

/-- The code points of characters: surrogates are none. -/
theorem toNat_bounds (c : Char) : c.toNat < 0xd800 ∨ 0xdfff < c.toNat ∧ c.toNat < 0x110000 :=
  c.valid

/-- The bytes of a character are read as that character. -/
theorem decodeFrom_encodeChar (index : Nat) (c : Char) (rest : List UInt8) :
    decodeFrom index (String.utf8EncodeChar c ++ rest) =
      (c :: ·) <$> decodeFrom (index + c.utf8Size) rest := by
  have width := String.length_utf8EncodeChar c
  have bounds := toNat_bounds c
  have self : Char.ofNat c.toNat = c := Char.ofNat_toNat c
  have value : c.val.toNat = c.toNat := rfl
  rw [← width]
  simp only [String.utf8EncodeChar, value]
  split_ifs with one two three
  · have byte : (UInt8.ofNat c.toNat).toNat = c.toNat := by
      rw [UInt8.toNat_ofNat']
      omega
    simp only [List.cons_append, List.nil_append, List.length_singleton]
    rw [decodeFrom_one index rest (by omega), byte, self]
  · have first : (UInt8.ofNat (c.toNat / 64 % 0x20 + 0xc0)).toNat = c.toNat / 64 + 0xc0 :=
      toNat_marked (by omega) (by decide)
    have code : (c.toNat / 64 + 0xc0) % 32 * 64 + c.toNat % 64 = c.toNat := by omega
    simp only [List.cons_append, List.nil_append, List.length_cons, List.length_nil]
    rw [decodeFrom_two index rest (by omega) (isTail_marked _)]
    simp only [payload_marked, first, code, self]
  · have first : (UInt8.ofNat (c.toNat / 4096 % 0x10 + 0xe0)).toNat = c.toNat / 4096 + 0xe0 :=
      toNat_marked (by omega) (by decide)
    have second := toNat_tail (c.toNat / 64)
    have code : ((c.toNat / 4096 + 0xe0) % 16 * 64 + c.toNat / 64 % 64) * 64 + c.toNat % 64 =
        c.toNat := by omega
    simp only [List.cons_append, List.nil_append, List.length_cons, List.length_nil]
    rw [decodeFrom_three index rest (by omega)
      (isSecond_of_bounds (by omega) (by omega) (by omega) (by omega) (by omega))
      (isTail_marked _)]
    simp only [payload_marked, first, code, self]
  · have first : (UInt8.ofNat (c.toNat / 262144 % 0x08 + 0xf0)).toNat =
        c.toNat / 262144 + 0xf0 :=
      toNat_marked (by omega) (by decide)
    have second := toNat_tail (c.toNat / 4096)
    have code : (((c.toNat / 262144 + 0xf0) % 8 * 64 + c.toNat / 4096 % 64) * 64
        + c.toNat / 64 % 64) * 64 + c.toNat % 64 = c.toNat := by omega
    simp only [List.cons_append, List.nil_append, List.length_cons, List.length_nil]
    rw [decodeFrom_four index rest (by omega)
      (isSecond_of_bounds (by omega) (by omega) (by omega) (by omega) (by omega))
      (isTail_marked _) (isTail_marked _)]
    simp only [payload_marked, first, code, self]

/-- The bytes of a text are read as the text. -/
theorem decodeFrom_encode (index : Nat) (text : List Char) :
    decodeFrom index (encode text) = .ok text := by
  induction text generalizing index with
  | nil => rfl
  | cons c rest ih =>
      have split : encode (c :: rest) = String.utf8EncodeChar c ++ encode rest := rfl
      rw [split, decodeFrom_encodeChar, ih]
      rfl

/-- The bytes of a text are decoded to the text. -/
theorem decode_bytes (text : String) : decode (bytes text) = .ok text.toList :=
  decodeFrom_encode 0 text.toList

/-- Only the empty text has no bytes. -/
theorem bytes_eq_nil {text : String} : bytes text = [] ↔ text = "" := by
  refine ⟨fun none => ?_, fun empty => empty ▸ rfl⟩
  have read := decode_bytes text
  rw [none] at read
  exact String.toList_eq_nil_iff.mp (Except.ok.inj read).symm

/-- No mark stands in a text that is spelt in its own bytes. -/
theorem lossy_bytes (text : String) : lossy (bytes text) = text.toList := by
  unfold lossy chunks chunksWithin
  rw [decode_bytes]
  exact List.append_nil _

end Concordance.Utf8
