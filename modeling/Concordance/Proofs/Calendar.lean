import Concordance.Calendar
import Mathlib.Algebra.Group.Nat.Defs
import Mathlib.Tactic.SplitIfs

namespace Concordance

namespace Number

/-- Reading digits is counting them off in base ten. -/
theorem readDigits_eq_ofDigitChars (start : Nat) (digits : List Char) :
    readDigits start digits = Nat.ofDigitChars 10 digits start := by
  simp only [readDigits, digitValue, Nat.ofDigitChars, Nat.mul_comm 10]

/-- The digits of a number are read as the number. -/
theorem readDigits_decimalDigits (n : Nat) : readDigits 0 (decimalDigits n) = n := by
  rw [readDigits_eq_ofDigitChars, decimalDigits, Nat.ofDigitChars_ten_toDigits]

theorem isDigit_of_mem_decimalDigits {n : Nat} {c : Char} (member : c ∈ decimalDigits n) :
    c.isDigit = true :=
  Nat.isDigit_of_mem_toDigits (by decide) (by decide) member

end Number

/-- A digit is no blank. -/
theorem Text.isBlank_of_isDigit {c : Char} (digit : c.isDigit = true) : isBlank c = false := by
  have bounds : 48 ≤ c.toNat ∧ c.toNat ≤ 57 := by
    simpa [Char.isDigit, UInt32.le_iff_toNat_le] using digit
  rw [Bool.eq_false_iff, isBlank, ne_eq, inRanges_iff]
  simp only [blankRanges, List.mem_cons, List.not_mem_nil, or_false, exists_eq_or_imp,
    exists_eq_left]
  omega

namespace Moment

theorem isDigit_of_mem_padded {width n : Nat} {c : Char} (member : c ∈ padded width n) :
    c.isDigit = true := by
  rcases List.mem_append.mp member with zero | digit
  · rw [List.eq_of_mem_replicate zero]
    rfl
  · exact Number.isDigit_of_mem_decimalDigits digit

/-- Zeros before a number do not change it. -/
theorem readDigits_padded (width n : Nat) : Number.readDigits 0 (padded width n) = n := by
  rw [Number.readDigits_eq_ofDigitChars, padded, Nat.ofDigitChars_append,
    Nat.ofDigitChars_replicate_zero, Nat.mul_zero, ← Number.readDigits_eq_ofDigitChars,
    Number.readDigits_decimalDigits]

theorem padded_ne_nil (width n : Nat) : padded width n ≠ [] := by
  simp [padded, Number.decimalDigits]

/-- A number that fits into a width fills it. -/
theorem length_padded {width n : Nat} (positive : 0 < width) (fits : n < 10 ^ width) :
    (padded width n).length = width := by
  have short := (Nat.length_toDigits_le_iff (by decide : 1 < 10) positive).mpr fits
  simp only [padded, Number.decimalDigits, List.length_append, List.length_replicate]
  omega

/-- The first digits of a text are taken up to the limit or up to what is no digit. -/
theorem readNumber_append {limit : Nat} {digits rest : List Char} (filled : digits ≠ [])
    (all : ∀ c ∈ digits, c.isDigit = true) (within : digits.length ≤ limit)
    (stops : digits.length = limit ∨ ∀ c ∈ rest.head?, c.isDigit = false) :
    readNumber limit (digits ++ rest) = some (Number.readDigits 0 digits, rest) := by
  have cut : ((digits ++ rest).take limit).takeWhile Char.isDigit = digits := by
    rw [List.take_append, List.take_of_length_le within, List.takeWhile_append_of_pos all]
    rcases stops with full | stop
    · simp [full]
    · cases rest with
      | nil => simp
      | cons c more =>
          have other : c.isDigit = false := stop c rfl
          cases limit - digits.length <;> simp [other]
  have present : digits.isEmpty = false := by simpa using filled
  simp [readNumber, cut, present]

/-- A number that was filled up with zeros is read back. -/
theorem readNumber_padded {limit width n : Nat} {rest : List Char}
    (within : (padded width n).length ≤ limit)
    (stops : (padded width n).length = limit ∨ ∀ c ∈ rest.head?, c.isDigit = false) :
    readNumber limit (padded width n ++ rest) = some (n, rest) := by
  rw [readNumber_append (padded_ne_nil width n) (fun c => isDigit_of_mem_padded) within stops,
    readDigits_padded]

theorem trimStart_padded (width n : Nat) (rest : List Char) :
    Text.trimStart (padded width n ++ rest) = padded width n ++ rest := by
  obtain ⟨c, more, shape⟩ := List.exists_cons_of_ne_nil (padded_ne_nil width n)
  have digit : c.isDigit = true := isDigit_of_mem_padded (by rw [shape]; exact List.mem_cons_self)
  simp [shape, Text.trimStart, Text.isBlank_of_isDigit digit]

/-- A field of two digits is read as the number it was written from. -/
theorem readField_padded {n : Nat} (fits : n < 100) (rest : List Char) :
    readField (padded 2 n ++ rest) = some (n, rest) := by
  have width : (padded 2 n).length = 2 := length_padded (by decide) fits
  rw [readField, trimStart_padded, readNumber_padded (Nat.le_of_eq width) (.inl width)]

/-- A year is read from its digits, with a sign where it has one. -/
theorem readYear_yearText (year : Int) (rest : List Char) :
    readYear (yearText year ++ '-' :: rest) = some (year, '-' :: rest) := by
  have stops : ∀ c ∈ ('-' :: rest).head?, c.isDigit = false := by
    intro c first
    cases first
    rfl
  have enough : (padded 4 year.natAbs).length ≤ (padded 4 year.natAbs ++ '-' :: rest).length := by
    simp
  have signed := readNumber_padded enough (.inr stops)
  simp only [yearText]
  split_ifs with negative large
  · have trimmed : Text.trimStart ('-' :: (padded 4 year.natAbs ++ '-' :: rest)) =
        '-' :: (padded 4 year.natAbs ++ '-' :: rest) := rfl
    simp only [List.cons_append, readYear, trimmed, signed, Option.map_some]
    congr 2
    omega
  · have trimmed : Text.trimStart ('+' :: (padded 4 year.natAbs ++ '-' :: rest)) =
        '+' :: (padded 4 year.natAbs ++ '-' :: rest) := rfl
    simp only [List.cons_append, readYear, trimmed, signed, Option.map_some]
    congr 2
    omega
  · have width : (padded 4 year.natAbs).length = 4 := length_padded (by decide) (by omega)
    have plain : readNumber 4 (padded 4 year.natAbs ++ '-' :: rest) =
        some (year.natAbs, '-' :: rest) :=
      readNumber_padded (Nat.le_of_eq width) (.inl width)
    obtain ⟨c, more, shape⟩ := List.exists_cons_of_ne_nil (padded_ne_nil 4 year.natAbs)
    have digit : c.isDigit = true := isDigit_of_mem_padded (by rw [shape]; exact List.mem_cons_self)
    have value : ((year.natAbs : Nat) : Int) = year := by omega
    rw [readYear, trimStart_padded]
    split
    next other same =>
      rw [shape] at same
      cases same
      cases digit
    next other same =>
      rw [shape] at same
      cases same
      cases digit
    next => simp only [plain, Option.map_some, value]

/-- No month has more than 31 days. -/
theorem daysInMonth_le (year : Int) (month : Nat) : daysInMonth year month ≤ 31 := by
  unfold daysInMonth
  split_ifs <;> omega

/-- The text of a moment spells the moment. -/
theorem ofText?_toText (moment : Moment) : ofText? moment.toText = some moment := by
  obtain ⟨year, month, day, hour, minute, second, civil⟩ := moment
  have bounds := civil
  simp only [isCivil, Bool.and_eq_true, decide_eq_true_eq] at bounds
  have days := daysInMonth_le year month
  have spelt : ofFields? year month day hour minute second =
      some ⟨year, month, day, hour, minute, second, civil⟩ := dif_pos civil
  have last : readField (padded 2 second) = some (second, []) := by
    simpa using readField_padded (n := second) (by omega) []
  have blank (rest : List Char) : readField (' ' :: rest) = readField rest := by
    simp [readField, Text.trimStart, show Text.isBlank ' ' = true by decide]
  simp only [ofText?, toText, String.toList_ofList, text, List.append_assoc, List.cons_append]
  simp [read, readYear_yearText, skipMark, blank, last, spelt,
    readField_padded (n := month) (by omega), readField_padded (n := day) (by omega),
    readField_padded (n := hour) (by omega), readField_padded (n := minute) (by omega)]

/-- No moment comes before itself. -/
instance : Std.ReflOrd Moment where
  compare_self {moment} := by
    simp [compare, compareOfLessAndEq]

end Moment
end Concordance
