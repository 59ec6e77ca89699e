import Concordance.Proofs.Text.Utf8
import Mathlib.Data.Char
import Mathlib.Data.List.Lex

namespace Concordance

instance byteOrder : LinearOrder UInt8 where
  le_refl := UInt8.le_refl
  le_trans _ _ _ := UInt8.le_trans
  le_antisymm _ _ := UInt8.le_antisymm
  le_total := UInt8.le_total
  lt_iff_le_not_ge first second := by
    rw [UInt8.not_le]
    exact ⟨fun less => ⟨UInt8.le_of_lt less, less⟩, And.right⟩
  toDecidableLE := inferInstance
  toDecidableLT := inferInstance
  toDecidableEq := inferInstance

namespace Utf8

/-- Bytes are in order at the first place where they differ. -/
theorem cons_lt_cons {first second : UInt8} {rest more : List UInt8} :
    first :: rest < second :: more ↔ first.toNat < second.toNat ∨
      first.toNat = second.toNat ∧ rest < more := by
  rw [List.cons_lt_cons_iff, UInt8.lt_iff_toNat_lt, UInt8.toNat_inj]

/-- Numbers of four digits of six bits are in order at the first digit where they differ. -/
theorem digits_lt {a b : Nat} (less : a < b) :
    a / 262144 < b / 262144 ∨ a / 262144 = b / 262144 ∧
      (a / 4096 % 64 < b / 4096 % 64 ∨ a / 4096 % 64 = b / 4096 % 64 ∧
        (a / 64 % 64 < b / 64 % 64 ∨ a / 64 % 64 = b / 64 % 64 ∧ a % 64 < b % 64)) := by
  have digits (n : Nat) : n =
      ((n / 262144 * 64 + n / 4096 % 64) * 64 + n / 64 % 64) * 64 + n % 64 := by omega
  have bounds (n : Nat) : n / 4096 % 64 < 64 ∧ n / 64 % 64 < 64 ∧ n % 64 < 64 := by omega
  have low := bounds a
  have high := bounds b
  rw [digits a, digits b] at less
  generalize a / 262144 = a₁, a / 4096 % 64 = a₂, a / 64 % 64 = a₃, a % 64 = a₄ at *
  generalize b / 262144 = b₁, b / 4096 % 64 = b₂, b / 64 % 64 = b₃, b % 64 = b₄ at *
  omega

/-- The byte that starts a character of four bytes. -/
theorem toNat_lead (c : Char) :
    (UInt8.ofNat (c.toNat / 262144 % 0x08 + 0xf0)).toNat = c.toNat / 262144 + 0xf0 := by
  have bounds := toNat_bounds c
  exact toNat_marked (by omega) (by decide)

/-- Of two characters the lesser has the lesser bytes, whatever follows. -/
theorem encodeChar_lt {c d : Char} (less : c < d) (first second : List UInt8) :
    String.utf8EncodeChar c ++ first < String.utf8EncodeChar d ++ second := by
  have order : c.toNat < d.toNat := less
  have digits := digits_lt order
  have low := toNat_bounds c
  have high := toNat_bounds d
  have left : c.val.toNat = c.toNat := rfl
  have right : d.val.toNat = d.toNat := rfl
  simp only [String.utf8EncodeChar, left, right]
  rcases Nat.lt_or_ge 0xffff c.toNat with wide | narrow
  · rw [if_neg (by omega), if_neg (by omega), if_neg (by omega), if_neg (by omega),
      if_neg (by omega), if_neg (by omega)]
    simp only [List.cons_append, List.nil_append, cons_lt_cons, toNat_tail, toNat_lead]
    clear order low high wide
    omega
  · split_ifs <;>
      simp only [List.cons_append, List.nil_append, cons_lt_cons, toNat_tail,
        UInt8.toNat_ofNat'] <;>
      omega

/-- Of two texts the lesser has the lesser bytes. -/
theorem encode_lt_encode {first second : List Char} (less : first < second) :
    encode first < encode second := by
  induction less with
  | @nil c rest =>
      obtain ⟨byte, more, split⟩ : ∃ byte more, String.utf8EncodeChar c = byte :: more := by
        apply List.exists_cons_of_ne_nil
        exact List.ne_nil_of_length_pos (by rw [String.length_utf8EncodeChar]; exact c.utf8Size_pos)
      show [] < String.utf8EncodeChar c ++ encode rest
      rw [split]
      exact List.Lex.nil
  | @cons c rest more _ ih => exact List.Lex.append_left _ ih (String.utf8EncodeChar c)
  | @rel c rest d more less => exact encodeChar_lt less (encode rest) (encode more)

/-- Texts are ordered as their bytes are. -/
theorem encode_lt_encode_iff {first second : List Char} :
    encode first < encode second ↔ first < second := by
  constructor
  · intro less
    rcases lt_trichotomy first second with before | rfl | after
    · exact before
    · exact absurd less (lt_irrefl _)
    · exact absurd less (lt_asymm (encode_lt_encode after))
  · exact encode_lt_encode

/-- Texts of the same bytes are the same text. -/
theorem encode_inj {first second : List Char} : encode first = encode second ↔ first = second := by
  constructor
  · intro same
    have read := decodeFrom_encode 0 first
    rw [same, decodeFrom_encode] at read
    exact (Except.ok.inj read).symm
  · exact congrArg encode

/-- Only the empty text has no bytes. -/
theorem encode_eq_nil {text : List Char} : encode text = [] ↔ text = [] := by
  show encode text = encode [] ↔ text = []
  exact encode_inj

/-- What begins with the bytes of a text is read as that text and what the rest is read as. -/
theorem decodeFrom_encode_append (index : Nat) (text : List Char) (rest : List UInt8) :
    decodeFrom index (encode text ++ rest) =
      (text ++ ·) <$> decodeFrom (index + width text) rest := by
  induction text generalizing index with
  | nil => exact (id_map _).symm
  | cons c more ih =>
      have split : encode (c :: more) = String.utf8EncodeChar c ++ encode more := rfl
      rw [split, List.append_assoc, decodeFrom_encodeChar, ih, ← comp_map, width_cons,
        Nat.add_assoc]
      rfl

/-- A text starts with another one where its bytes start with those of the other. -/
theorem isPrefixOf_encode (start text : List Char) :
    (encode start).isPrefixOf (encode text) = start.isPrefixOf text := by
  rw [Bool.eq_iff_iff, List.isPrefixOf_iff_prefix, List.isPrefixOf_iff_prefix]
  constructor
  · intro ⟨rest, joined⟩
    have read := decodeFrom_encode 0 text
    rw [← joined, decodeFrom_encode_append] at read
    cases tail : decodeFrom (0 + width start) rest with
    | error fault => rw [tail] at read; cases read
    | ok after =>
        rw [tail] at read
        exact ⟨after, Except.ok.inj read⟩
  · intro ⟨rest, joined⟩
    exact ⟨encode rest, by rw [← joined, encode_append]⟩

end Utf8
end Concordance
