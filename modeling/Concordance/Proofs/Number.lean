import Concordance.Number.Shortest
import Concordance.Proofs.Calendar
import Mathlib.Data.Int.Log
import Mathlib.Data.Rat.Floor
import Mathlib.Tactic.FieldSimp
import Mathlib.Tactic.Positivity
import Mathlib.Tactic.Ring

namespace Concordance.Number

/-- Two to this power is the greatest that the quotient reaches. -/
def quotientLog (numerator denominator : Nat) : Int := Int.log 2 ((numerator : ℚ) / denominator)

theorem le_quotientLog {a b : Nat} (ha : 0 < a) (hb : 0 < b) {s : Int} :
    s ≤ quotientLog a b ↔ (b : ℚ) * 2 ^ s ≤ a := by
  have b_pos : (0 : ℚ) < b := by exact_mod_cast hb
  have quotient_pos : (0 : ℚ) < (a : ℚ) / b := by positivity
  have reaches := Int.zpow_le_iff_le_log (b := 2) (by decide) (x := s) quotient_pos
  rw [quotientLog, ← reaches, le_div_iff₀ b_pos, mul_comm]
  simp

/-- The size of a fraction does not change with a common factor. -/
theorem quotientLog_mul {a b c : Nat} (hc : 0 < c) :
    quotientLog (a * c) (b * c) = quotientLog a b := by
  have apart : (c : ℚ) ≠ 0 := by exact_mod_cast hc.ne'
  rw [quotientLog, quotientLog, Nat.cast_mul, Nat.cast_mul, mul_div_mul_right _ _ apart]

theorem cast_log2_le {a : Nat} (ha : 0 < a) : (2 : ℚ) ^ (a.log2 : Int) ≤ a := by
  exact_mod_cast Nat.log2_self_le ha.ne'

theorem cast_lt_log2 (a : Nat) : (a : ℚ) < 2 ^ ((a.log2 : Int) + 1) := by
  exact_mod_cast Nat.lt_log2_self (n := a)

/-- Comparing a quotient with a power of two takes whole numbers only. -/
theorem scaled_le_iff {a b : Nat} {size : Int} : (b : ℚ) * 2 ^ size ≤ a ↔
    ¬(if 0 ≤ size then decide (a < b <<< size.toNat)
      else decide (a <<< (-size).toNat < b)) = true := by
  by_cases positive : 0 ≤ size
  · obtain ⟨n, rfl⟩ := Int.eq_ofNat_of_zero_le positive
    rw [if_pos positive, Int.toNat_natCast, zpow_natCast, decide_eq_true_eq, not_lt,
      Nat.shiftLeft_eq]
    exact_mod_cast Iff.rfl
  · obtain ⟨n, negated⟩ := Int.eq_ofNat_of_zero_le (a := -size) (by omega)
    obtain rfl : size = -n := by omega
    have power : (0 : ℚ) < 2 ^ n := by positivity
    rw [if_neg positive, neg_neg, Int.toNat_natCast, zpow_neg, zpow_natCast, ← div_eq_mul_inv,
      div_le_iff₀ power, decide_eq_true_eq, not_lt, Nat.shiftLeft_eq]
    exact_mod_cast Iff.rfl

/-- The weight of the last bit depends on the size of the fraction alone. -/
theorem lastBit_eq {a b : Nat} (ha : 0 < a) (hb : 0 < b) :
    lastBit a b = max (-1074) (quotientLog a b - 52) := by
  have least : (a.log2 : Int) - b.log2 - 1 ≤ quotientLog a b := by
    rw [le_quotientLog ha hb]
    calc (b : ℚ) * 2 ^ ((a.log2 : Int) - b.log2 - 1)
        ≤ 2 ^ ((b.log2 : Int) + 1) * 2 ^ ((a.log2 : Int) - b.log2 - 1) :=
          mul_le_mul_of_nonneg_right (cast_lt_log2 b).le (zpow_nonneg zero_le_two _)
      _ = 2 ^ (a.log2 : Int) := by
          rw [← zpow_add₀ two_ne_zero]
          congr 1
          omega
      _ ≤ a := cast_log2_le ha
  have greatest : quotientLog a b < (a.log2 : Int) - b.log2 + 1 := by
    rw [← not_le, le_quotientLog ha hb, not_le]
    calc (a : ℚ) < 2 ^ ((a.log2 : Int) + 1) := cast_lt_log2 a
      _ = 2 ^ (b.log2 : Int) * 2 ^ ((a.log2 : Int) - b.log2 + 1) := by
          rw [← zpow_add₀ two_ne_zero]
          congr 1
          omega
      _ ≤ b * 2 ^ ((a.log2 : Int) - b.log2 + 1) :=
          mul_le_mul_of_nonneg_right (cast_log2_le hb) (zpow_nonneg zero_le_two _)
  have reaches := le_quotientLog ha hb (s := (a.log2 : Int) - b.log2)
  rw [scaled_le_iff] at reaches
  unfold lastBit
  grind

/-- A rounded quotient does not change when the fraction is expanded. -/
theorem roundDiv_mul {a b c : Nat} (hc : 0 < c) : roundDiv (a * c) (b * c) = roundDiv a b := by
  have rest : 2 * (a * c % (b * c)) = 2 * (a % b) * c := by
    rw [Nat.mul_mod_mul_right, Nat.mul_assoc]
  simp only [roundDiv, rest, Nat.mul_div_mul_right _ _ hc, Nat.mul_lt_mul_right hc]

theorem roundScaled_mul {a b c : Nat} (hc : 0 < c) (exponent : Int) :
    roundScaled (a * c) (b * c) exponent = roundScaled a b exponent := by
  have shift : ∀ n k : Nat, (n * c) <<< k = n <<< k * c := by
    intro n k
    simp only [Nat.shiftLeft_eq]
    ring
  simp only [roundScaled, shift, roundDiv_mul hc]

/-- The number nearest to a fraction does not change with a common factor. -/
theorem nearest_mul {a b c : Nat} (hb : 0 < b) (hc : 0 < c) :
    nearest (a * c) (b * c) = nearest a b := by
  obtain rfl | ha := Nat.eq_zero_or_pos a
  · simp [nearest]
  · have bits : lastBit (a * c) (b * c) = lastBit a b := by
      rw [lastBit_eq ha hb, lastBit_eq (Nat.mul_pos ha hc) (Nat.mul_pos hb hc), quotientLog_mul hc]
    simp only [nearest, bits, roundScaled_mul hc, Nat.mul_eq_zero, hc.ne', or_false]

theorem nearest_of_places (digits places : Nat) :
    Decimal.nearest ⟨digits, -(places : Int)⟩ = nearest digits (10 ^ places) := by
  cases places with
  | zero => simp [Decimal.nearest]
  | succ places =>
      simp only [Decimal.nearest]
      rw [if_neg (by omega), neg_neg, Int.toNat_natCast]
      rfl

theorem nearest_of_zeros (digits zeros : Nat) :
    Decimal.nearest ⟨digits, zeros⟩ = nearest (digits * 10 ^ zeros) 1 := by
  simp [Decimal.nearest]

/-- A zero at the end of a decimal does not change its nearest number. -/
theorem nearest_shift (digits : Nat) (exponent : Int) :
    Decimal.nearest ⟨digits * 10, exponent⟩ = Decimal.nearest ⟨digits, exponent + 1⟩ := by
  by_cases positive : 0 ≤ exponent
  · obtain ⟨zeros, rfl⟩ := Int.eq_ofNat_of_zero_le positive
    have more := nearest_of_zeros digits (zeros + 1)
    rw [Nat.cast_succ] at more
    rw [nearest_of_zeros, more, pow_succ]
    congr 1
    ring
  · obtain ⟨places, rfl⟩ : ∃ places : Nat, exponent = -((places + 1 : Nat) : Int) :=
      ⟨(-exponent).toNat - 1, by omega⟩
    have fewer : -((places + 1 : Nat) : Int) + 1 = -(places : Int) := by omega
    rw [fewer, nearest_of_places, nearest_of_places, pow_succ]
    exact nearest_mul (by positivity) (by decide)

/-- Zeros at the end of a decimal do not count. -/
theorem nearest_trimZeros (fuel : Nat) (decimal : Decimal) :
    (decimal.trimZeros fuel).nearest = decimal.nearest := by
  induction fuel generalizing decimal with
  | zero => rfl
  | succ fuel ih =>
      rw [Decimal.trimZeros]
      split
      next zero =>
        obtain ⟨digits, exponent⟩ := decimal
        have whole : digits / 10 * 10 = digits := Nat.div_mul_cancel (Nat.dvd_of_mod_eq_zero zero.2)
        rw [ih, ← nearest_shift, whole]
      next => rfl

/-- The fraction of a number takes its exponent to one side or the other. -/
theorem fractionOf_cases (magnitude : Nat) :
    (∃ n : Nat, exponent magnitude = n ∧ fractionOf magnitude = (mantissa magnitude * 2 ^ n, 1)) ∨
      ∃ n : Nat, exponent magnitude = -((n + 1 : Nat) : Int) ∧
        fractionOf magnitude = (mantissa magnitude, 2 ^ (n + 1)) := by
  unfold fractionOf
  generalize exponent magnitude = size
  by_cases positive : 0 ≤ size
  · obtain ⟨n, rfl⟩ := Int.eq_ofNat_of_zero_le positive
    exact .inl ⟨n, rfl, by simp [Nat.shiftLeft_eq]⟩
  · obtain ⟨n, rfl⟩ : ∃ n : Nat, size = -((n + 1 : Nat) : Int) := ⟨(-size).toNat - 1, by omega⟩
    refine .inr ⟨n, rfl, ?_⟩
    simp only [if_neg positive, neg_neg, Int.toNat_natCast, Nat.shiftLeft_eq, one_mul]

/-- A number is its mantissa times a power of two. -/
theorem cast_fractionOf (magnitude : Nat) : ((fractionOf magnitude).1 : ℚ) =
    (fractionOf magnitude).2 * (mantissa magnitude * 2 ^ exponent magnitude) := by
  obtain ⟨n, size, fraction⟩ | ⟨n, size, fraction⟩ := fractionOf_cases magnitude
  · simp [size, fraction]
  · simp only [size, fraction, zpow_neg, zpow_natCast]
    push_cast
    field_simp

theorem fractionOf_pos {magnitude : Nat} (positive : 0 < mantissa magnitude) :
    0 < (fractionOf magnitude).1 ∧ 0 < (fractionOf magnitude).2 := by
  obtain ⟨n, -, fraction⟩ | ⟨n, -, fraction⟩ := fractionOf_cases magnitude <;>
    simp [fraction, positive]

theorem quotientLog_fractionOf {magnitude : Nat} (positive : 0 < mantissa magnitude) :
    quotientLog (fractionOf magnitude).1 (fractionOf magnitude).2 =
      (mantissa magnitude).log2 + exponent magnitude := by
  obtain ⟨above, below⟩ := fractionOf_pos positive
  have below_pos : (0 : ℚ) < (fractionOf magnitude).2 := by exact_mod_cast below
  -- A power of two is reached by the number where the power without the exponent is reached by the
  -- mantissa.
  have reaches : ∀ s : Int, s ≤ quotientLog (fractionOf magnitude).1 (fractionOf magnitude).2 ↔
      (2 : ℚ) ^ (s - exponent magnitude) ≤ mantissa magnitude := by
    intro s
    have power : (0 : ℚ) < 2 ^ exponent magnitude := zpow_pos two_pos _
    rw [le_quotientLog above below, cast_fractionOf, mul_le_mul_iff_right₀ below_pos,
      zpow_sub₀ two_ne_zero, div_le_iff₀ power]
  apply le_antisymm
  · by_contra more
    have reached := (reaches ((mantissa magnitude).log2 + exponent magnitude + 1)).1 (by omega)
    rw [show (mantissa magnitude).log2 + exponent magnitude + 1 - exponent magnitude =
      ((mantissa magnitude).log2 : Int) + 1 by omega] at reached
    exact absurd reached (not_le.2 (cast_lt_log2 _))
  · rw [reaches, add_sub_cancel_right]
    exact cast_log2_le positive

theorem roundScaled_fractionOf (magnitude : Nat) :
    roundScaled (fractionOf magnitude).1 (fractionOf magnitude).2 (exponent magnitude) =
      mantissa magnitude := by
  have whole : ∀ n k : Nat, roundDiv (n * 2 ^ k) (1 * 2 ^ k) = n := by
    intro n k
    rw [roundDiv_mul (by positivity)]
    simp [roundDiv, Nat.mod_one]
  obtain ⟨n, size, fraction⟩ | ⟨n, size, fraction⟩ := fractionOf_cases magnitude
  · simpa [roundScaled, size, fraction, Nat.shiftLeft_eq] using whole (mantissa magnitude) n
  · rw [roundScaled, size, fraction, if_neg (by omega), neg_neg, Int.toNat_natCast,
      Nat.shiftLeft_eq]
    simpa using whole (mantissa magnitude) (n + 1)

/-- The last bit of a number weighs two to the power of its exponent. -/
theorem max_mantissa_log2 {magnitude : Nat} (positive : 0 < mantissa magnitude) :
    max (-1074) ((mantissa magnitude).log2 + exponent magnitude - 52) = exponent magnitude := by
  by_cases small : magnitude < exponentWeight
  · have size : exponent magnitude = -1074 := if_pos small
    have bits : (mantissa magnitude).log2 < 52 := by
      rw [Nat.log2_lt positive.ne', mantissa, if_pos small]
      exact small
    omega
  · have size : exponent magnitude = (magnitude / exponentWeight : Nat) - 1075 := if_neg small
    have filled : mantissa magnitude = magnitude % exponentWeight + exponentWeight := if_neg small
    have least : 1 ≤ magnitude / exponentWeight :=
      (Nat.one_le_div_iff (by decide)).2 (not_lt.1 small)
    have below : magnitude % exponentWeight < exponentWeight := Nat.mod_lt _ (by decide)
    have bits : (mantissa magnitude).log2 = 52 := by
      rw [Nat.log2_eq_iff positive.ne', filled]
      simp only [exponentWeight] at below ⊢
      omega
    omega

/-- The number nearest to the size of a number is the number itself. -/
theorem nearest_fractionOf {magnitude : Nat} (finite : magnitude < infinity) :
    nearest (fractionOf magnitude).1 (fractionOf magnitude).2 = magnitude := by
  obtain rfl | positive := Nat.eq_zero_or_pos magnitude
  · decide
  · have filled : 0 < mantissa magnitude := by
      unfold mantissa exponentWeight
      split <;> omega
    obtain ⟨above, below⟩ := fractionOf_pos filled
    have bits : lastBit (fractionOf magnitude).1 (fractionOf magnitude).2 = exponent magnitude := by
      rw [lastBit_eq above below, quotientLog_fractionOf filled]
      exact max_mantissa_log2 filled
    simp only [nearest, if_neg above.ne', bits, roundScaled_fractionOf]
    by_cases small : magnitude < exponentWeight
    · rw [mantissa, exponent, if_pos small, if_pos small]
      simp only [infinity, exponentWeight] at finite ⊢
      omega
    · rw [mantissa, exponent, if_neg small, if_neg small]
      simp only [infinity, exponentWeight] at finite small ⊢
      omega

/-- The decimal of all digits of a number is nearest to the number. -/
theorem nearest_exact {magnitude : Nat} (finite : magnitude < infinity) :
    (exact magnitude).nearest = magnitude := by
  have same := nearest_fractionOf finite
  obtain ⟨n, size, fraction⟩ | ⟨n, size, fraction⟩ := fractionOf_cases magnitude
  · rw [fraction] at same
    simpa [exact, size, Nat.shiftLeft_eq, Decimal.nearest] using same
  · rw [fraction, ← nearest_mul (c := 5 ^ (n + 1)) (by positivity) (by positivity), ← Nat.mul_pow]
      at same
    simp only [exact, size]
    rw [if_neg (by omega), neg_neg, Int.toNat_natCast, nearest_of_places]
    exact same

/-- What is found on a grid reads back. -/
theorem nearest_of_neighbour? {tie : Tie} {magnitude : Nat} {exponent : Int} {decimal : Decimal}
    (found : neighbour? tie magnitude exponent = some decimal) : decimal.nearest = magnitude := by
  unfold neighbour? at found
  grind

/-- The shortest decimal of a finite number reads back as the number. -/
theorem nearest_shortest (tie : Tie) {magnitude : Nat} (finite : magnitude < infinity) :
    (shortest tie magnitude).nearest = magnitude := by
  unfold shortest
  split
  next zero => simp [zero, Decimal.nearest, nearest]
  next =>
    simp only
    split
    next decimal found =>
      obtain ⟨count, -, near⟩ := List.exists_of_findSome?_eq_some found
      rw [nearest_trimZeros, nearest_of_neighbour? near]
    next => exact nearest_exact finite

/-- What stands before the point and after it is read as one decimal. -/
theorem ofText_point {whole : List Char} (digits : ∀ c ∈ whole, c.isDigit = true)
    (fraction : List Char) : ofText (whole ++ '.' :: fraction) =
      ofMagnitude false (Decimal.ofDigits whole fraction).nearest := by
  simp [ofText, List.takeWhile_append_of_pos digits, List.dropWhile_append_of_pos digits]

theorem ofText_digits {whole : List Char} (digits : ∀ c ∈ whole, c.isDigit = true) :
    ofText whole = ofMagnitude false (Decimal.ofDigits whole []).nearest := by
  have taken : (whole ++ []).takeWhile Char.isDigit = _ := List.takeWhile_append_of_pos digits
  have dropped : (whole ++ []).dropWhile Char.isDigit = _ := List.dropWhile_append_of_pos digits
  simp only [List.append_nil, List.takeWhile_nil, List.dropWhile_nil] at taken dropped
  simp [ofText, taken, dropped]

theorem readDigits_append (start : Nat) (first second : List Char) :
    readDigits start (first ++ second) = readDigits (readDigits start first) second :=
  List.foldl_append

theorem readDigits_zeros (start count : Nat) :
    readDigits start (List.replicate count '0') = start * 10 ^ count := by
  induction count generalizing start with
  | zero => simp [readDigits]
  | succ count ih =>
      have step : readDigits start ('0' :: List.replicate count '0') =
          readDigits (start * 10) (List.replicate count '0') := rfl
      rw [List.replicate_succ, step, ih, pow_succ]
      ring

/-- Digits before and after a point spell a decimal: they are digits, they have its value, and they
are how it is written. -/
def Decimal.IsSpeltBy (decimal : Decimal) (whole fraction : List Char) : Prop :=
  (whole ≠ [] ∧ ∀ c ∈ whole, c.isDigit = true) ∧ (∀ c ∈ fraction, c.isDigit = true) ∧
    (Decimal.ofDigits whole fraction).nearest = decimal.nearest ∧
    (fraction = [] ∧ decimal.positional = whole ∨
      fraction ≠ [] ∧ decimal.positional = whole ++ '.' :: fraction)

theorem decimalDigits_ne_nil (digits : Nat) : decimalDigits digits ≠ [] := Nat.toDigits_ne_nil

theorem isDigit_of_mem_replicate {count : Nat} :
    ∀ c ∈ List.replicate count '0', c.isDigit = true :=
  fun _ member => (List.eq_of_mem_replicate member) ▸ rfl

/-- A whole number is spelt by its digits with zeros after them. -/
theorem exists_isSpeltBy_natCast (digits zeros : Nat) :
    ∃ whole fraction, Decimal.IsSpeltBy ⟨digits, zeros⟩ whole fraction := by
  have valid : ∀ c ∈ decimalDigits digits, c.isDigit = true :=
    fun c => isDigit_of_mem_decimalDigits
  have value := readDigits_decimalDigits digits
  have same : ∀ whole, readDigits 0 whole = digits * 10 ^ zeros →
      (Decimal.ofDigits whole []).nearest = Decimal.nearest ⟨digits, zeros⟩ := by
    intro whole read
    simp [Decimal.ofDigits, read, Decimal.nearest]
  by_cases none : digits = 0
  · refine ⟨decimalDigits digits, [], ⟨decimalDigits_ne_nil digits, valid⟩, List.forall_mem_nil _,
      same _ (by rw [value, none, Nat.zero_mul]), .inl ⟨rfl, ?_⟩⟩
    simp [Decimal.positional, none]
  · refine ⟨decimalDigits digits ++ List.replicate zeros '0', [],
      ⟨by simp [decimalDigits_ne_nil],
        List.forall_mem_append.2 ⟨valid, isDigit_of_mem_replicate⟩⟩, List.forall_mem_nil _,
      same _ (by rw [readDigits_append, value, readDigits_zeros]), .inl ⟨rfl, ?_⟩⟩
    simp [Decimal.positional, none]

/-- A decimal with places is spelt by the same digits around a point, with zeros before them where
they are too few. -/
theorem exists_isSpeltBy_neg (digits places : Nat) :
    ∃ whole fraction,
      Decimal.IsSpeltBy ⟨digits, -((places + 1 : Nat) : Int)⟩ whole fraction := by
  have valid : ∀ c ∈ decimalDigits digits, c.isDigit = true :=
    fun c => isDigit_of_mem_decimalDigits
  have value := readDigits_decimalDigits digits
  have negative : ¬(0 : Int) ≤ -((places + 1 : Nat) : Int) := by omega
  have same : ∀ whole fraction, readDigits 0 (whole ++ fraction) = digits →
      fraction.length = places + 1 →
      Decimal.ofDigits whole fraction = ⟨digits, -((places + 1 : Nat) : Int)⟩ := by
    intro whole fraction read length
    rw [Decimal.ofDigits, read, length]
  by_cases short : places + 1 < (decimalDigits digits).length
  · have length : ((decimalDigits digits).drop
        ((decimalDigits digits).length - (places + 1))).length = places + 1 := by
      rw [List.length_drop]
      omega
    refine ⟨(decimalDigits digits).take ((decimalDigits digits).length - (places + 1)),
      (decimalDigits digits).drop ((decimalDigits digits).length - (places + 1)),
      ⟨?_, fun c member => valid c (List.mem_of_mem_take member)⟩,
      fun c member => valid c (List.mem_of_mem_drop member),
      by rw [same _ _ (by rw [List.take_append_drop, value]) length], .inr ⟨?_, ?_⟩⟩
    · exact List.ne_nil_of_length_pos (by rw [List.length_take]; omega)
    · exact List.ne_nil_of_length_pos (by omega)
    · simp only [Decimal.positional, neg_neg, Int.toNat_natCast]
      rw [if_neg negative, if_pos short]
  · have length : (List.replicate (places + 1 - (decimalDigits digits).length) '0' ++
        decimalDigits digits).length = places + 1 := by
      rw [List.length_append, List.length_replicate]
      omega
    have read : readDigits 0 (['0'] ++ (List.replicate
        (places + 1 - (decimalDigits digits).length) '0' ++ decimalDigits digits)) = digits := by
      rw [← List.append_assoc, readDigits_append, readDigits_append, readDigits_zeros]
      simpa [readDigits, digitValue] using value
    refine ⟨['0'], _, ⟨List.cons_ne_nil _ _, by simp⟩,
      List.forall_mem_append.2 ⟨isDigit_of_mem_replicate, valid⟩,
      by rw [same _ _ read length], .inr ⟨by simp [decimalDigits_ne_nil], ?_⟩⟩
    simp only [Decimal.positional, neg_neg, Int.toNat_natCast]
    rw [if_neg negative, if_neg short]
    rfl

/-- Every decimal is written with digits, and with a point where it has places. -/
theorem positional_cases (decimal : Decimal) :
    ∃ whole fraction, decimal.IsSpeltBy whole fraction := by
  obtain ⟨digits, exponent⟩ := decimal
  by_cases positive : 0 ≤ exponent
  · obtain ⟨zeros, rfl⟩ := Int.eq_ofNat_of_zero_le positive
    exact exists_isSpeltBy_natCast digits zeros
  · obtain ⟨places, rfl⟩ : ∃ places : Nat, exponent = -((places + 1 : Nat) : Int) :=
      ⟨(-exponent).toNat - 1, by omega⟩
    exact exists_isSpeltBy_neg digits places

/-- A finite number reads back from its text, up to its sign. -/
theorem ofText_shortest {magnitude : Nat} (tie : Tie) (finite : magnitude < infinity) :
    ofText (shortest tie magnitude).positional = ofMagnitude false magnitude := by
  obtain ⟨whole, fraction, ⟨-, digits⟩, -, value, ⟨rfl, text⟩ | ⟨-, text⟩⟩ :=
    positional_cases (shortest tie magnitude)
  · rw [text, ofText_digits digits, value, nearest_shortest tie finite]
  · rw [text, ofText_point digits, value, nearest_shortest tie finite]

end Concordance.Number
