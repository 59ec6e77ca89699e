import Concordance.IdSet

namespace Concordance.IdSet

theorem bitIn_zero (place : Nat) : bitIn 0 place = false := BitVec.getLsbD_zero

theorem bitIn_one (place : Nat) : bitIn 1 place = decide (place = 0) := by
  simp [bitIn]

/-- The conjunction of two words has the bits of both. -/
theorem bitIn_and (first second : UInt64) (place : Nat) :
    bitIn (first &&& second) place = (bitIn first place && bitIn second place) := by
  simp [bitIn]

/-- The disjunction of two words has the bits of either. -/
theorem bitIn_or (first second : UInt64) (place : Nat) :
    bitIn (first ||| second) place = (bitIn first place || bitIn second place) := by
  simp [bitIn]

/-- The negation of a word has the bits that the word has not. -/
theorem bitIn_not (word : UInt64) {place : Nat} (low : place < 64) :
    bitIn (~~~word) place = !bitIn word place := by
  simp [bitIn, low]

/-- A shift moves all bits up. -/
theorem bitIn_shiftLeft (word : UInt64) {amount : Nat} (few : amount < 64) (place : Nat) :
    bitIn (word <<< UInt64.ofNat amount) place =
      (decide (place < 64) && (!decide (place < amount) && bitIn word (place - amount))) := by
  have whole : amount % 18446744073709551616 % 64 = amount := by omega
  simp [bitIn, BitVec.shiftLeft_eq', BitVec.getLsbD_shiftLeft, BitVec.toNat_umod, whole,
    Bool.and_assoc]

/-- The bit of a number is its only one. -/
theorem bitIn_bitOf {id place : Nat} (low : place < 64) :
    bitIn (bitOf id) place = decide (place = id % 64) := by
  rw [bitOf, bitIn_shiftLeft 1 (Nat.mod_lt _ (by decide)), bitIn_one, Bool.eq_iff_iff]
  simp
  omega

/-- The bits below a place are those of the number before the word of that place. -/
theorem bitIn_below {count : Nat} (few : count < 64) (place : Nat) :
    bitIn ((1 <<< UInt64.ofNat count) - 1) place = decide (place < count) := by
  have power : 2 ^ count < 2 ^ 64 := Nat.pow_lt_pow_right (by decide) few
  have shifted : (1 <<< UInt64.ofNat count : UInt64).toNat = 2 ^ count := by
    rw [UInt64.toNat_shiftLeft, UInt64.toNat_ofNat_of_lt' (by have : UInt64.size = 2 ^ 64 := rfl; omega),
      Nat.mod_eq_of_lt few, UInt64.toNat_one, Nat.one_shiftLeft, Nat.mod_eq_of_lt power]
  have least : (1 : UInt64) ≤ 1 <<< UInt64.ofNat count := by
    rw [UInt64.le_iff_toNat_le, shifted]
    exact Nat.one_le_two_pow
  have value : ((1 <<< UInt64.ofNat count : UInt64) - 1).toNat = 2 ^ count - 1 := by
    rw [UInt64.toNat_sub_of_le _ _ least, shifted]
    rfl
  change Nat.testBit ((1 <<< UInt64.ofNat count : UInt64) - 1).toNat place = _
  rw [value, Nat.testBit_two_pow_sub_one]

/-- A word has a bit where it meets the word of that bit alone. -/
theorem meets_bitOf (word : UInt64) (id : Nat) :
    (word &&& bitOf id != 0) = bitIn word (id % 64) := by
  have low : id % 64 < 64 := Nat.mod_lt _ (by decide)
  cases there : bitIn word (id % 64) with
  | true =>
      rw [bne_iff_ne]
      intro nothing
      have both := bitIn_and word (bitOf id) (id % 64)
      rw [nothing, bitIn_zero, there, bitIn_bitOf low] at both
      simp at both
  | false =>
      rw [bne_eq_false_iff_eq, ← UInt64.toBitVec_inj]
      apply BitVec.eq_of_getLsbD_eq
      intro place less
      change bitIn (word &&& bitOf id) place = bitIn 0 place
      rw [bitIn_and, bitIn_bitOf less, bitIn_zero]
      by_cases same : place = id % 64
      · rw [same, there, Bool.false_and]
      · rw [decide_eq_false same, Bool.and_false]

/-- Words with the same bits are the same word. -/
theorem eq_of_bitIn {first second : UInt64}
    (same : ∀ place < 64, bitIn first place = bitIn second place) : first = second := by
  rw [← UInt64.toBitVec_inj]
  exact BitVec.eq_of_getLsbD_eq same

/-- A word that is not zero has a lowest bit, and it is where the zeros below it end. -/
theorem trailingZeros_spec {word : UInt64} (filled : word ≠ 0) :
    (List.range 64).find? (bitIn word) = some (trailingZeros word) := by
  unfold trailingZeros
  cases found : (List.range 64).find? (bitIn word) with
  | some place => rfl
  | none =>
      refine absurd (eq_of_bitIn fun place low => ?_) filled
      rw [bitIn_zero, ← Bool.not_eq_true]
      exact List.find?_eq_none.mp found place (List.mem_range.mpr low)

/-- Below the lowest bit of a number its predecessor has all bits, and above it the same ones. -/
theorem testBit_pred {number lowest : Nat} (here : number.testBit lowest = true)
    (below : ∀ place < lowest, number.testBit place = false) (place : Nat) :
    (number - 1).testBit place =
      if place < lowest then true else number.testBit place && decide (place ≠ lowest) := by
  obtain ⟨high, split⟩ : ∃ high, number = 2 ^ (lowest + 1) * high + 2 ^ lowest := by
    refine ⟨number / 2 ^ (lowest + 1), ?_⟩
    have rest : number % 2 ^ (lowest + 1) = 2 ^ lowest := by
      apply Nat.eq_of_testBit_eq
      intro other
      rw [Nat.testBit_mod_two_pow, Nat.testBit_two_pow]
      rcases Nat.lt_trichotomy other lowest with less | rfl | more
      · rw [below other less]
        simp [Nat.ne_of_gt less]
      · simp [here]
      · simp [Nat.ne_of_lt more, Nat.not_lt.mpr more]
    conv => lhs; rw [← Nat.div_add_mod number (2 ^ (lowest + 1)), rest]
  have positive : 0 < 2 ^ lowest := Nat.two_pow_pos lowest
  have wide : 2 ^ lowest < 2 ^ (lowest + 1) := Nat.pow_lt_pow_right (by decide) (Nat.lt_succ_self _)
  have pred : number - 1 = 2 ^ (lowest + 1) * high + (2 ^ lowest - 1) := by omega
  rw [pred, Nat.testBit_two_pow_mul_add _ (by omega), Nat.testBit_two_pow_sub_one]
  rcases Nat.lt_trichotomy place lowest with less | rfl | more
  · simp [less, Nat.lt_succ_of_lt less]
  · simp
  · rw [if_neg (by omega), if_neg (by omega), split, Nat.testBit_two_pow_mul_add _ wide,
      if_neg (by omega), decide_eq_true (Nat.ne_of_gt more), Bool.and_true]

/-- A word without its lowest bit has all its other bits. -/
theorem bitIn_dropLowest {word : UInt64} (filled : word ≠ 0) (place : Nat) :
    bitIn (dropLowest word) place =
      (bitIn word place && decide (place ≠ trailingZeros word)) := by
  obtain ⟨here, -, below⟩ := List.find?_range_eq_some.mp (trailingZeros_spec filled)
  have clear : ∀ other < trailingZeros word, bitIn word other = false :=
    fun other early => by simpa using below other early
  have pred : bitIn (word - 1) place =
      if place < trailingZeros word then true
      else bitIn word place && decide (place ≠ trailingZeros word) := by
    change (word - 1).toNat.testBit place = _
    rw [toNat_pred filled]
    exact testBit_pred here clear place
  rw [dropLowest, bitIn_and, pred]
  split
  next early => rw [clear place early, Bool.false_and, Bool.false_and]
  next => rw [← Bool.and_assoc, Bool.and_self]

/-- The first element that a test accepts comes before the others. -/
theorem filter_of_find? {test : Nat → Bool} {places : List Nat} {first : Nat}
    (distinct : places.Nodup) (found : places.find? test = some first) :
    places.filter test = first :: places.filter fun place => test place && decide (place ≠ first) := by
  induction places with
  | nil => cases found
  | cons head rest ih =>
      obtain ⟨absent, later⟩ := List.nodup_cons.mp distinct
      cases accepted : test head with
      | true =>
          rw [List.find?_cons_of_pos accepted, Option.some.injEq] at found
          subst found
          rw [List.filter_cons_of_pos accepted, List.filter_cons_of_neg (by simp)]
          congr 1
          apply List.filter_congr
          intro place member
          have apart : place ≠ head := fun same => absent (same ▸ member)
          simp [apart]
      | false =>
          rw [List.find?_cons_of_neg (by simp [accepted])] at found
          rw [List.filter_cons_of_neg (by simp [accepted]),
            List.filter_cons_of_neg (by simp [accepted])]
          exact ih later found

/-- The bits of a word are listed from the lowest on. -/
theorem bitsIn_eq (word : UInt64) : bitsIn word = (List.range 64).filter (bitIn word) := by
  fun_induction bitsIn word with
  | case1 =>
      symm
      rw [List.filter_eq_nil_iff]
      intro place _
      simp [bitIn_zero]
  | case2 word filled ih =>
      have rest : bitIn (dropLowest word) = fun place =>
          bitIn word place && decide (place ≠ trailingZeros word) :=
        funext (bitIn_dropLowest filled)
      rw [ih, rest, filter_of_find? List.nodup_range (trailingZeros_spec filled)]

/-- As many bits are listed as are counted. -/
theorem length_bitsIn (word : UInt64) : (bitsIn word).length = onesIn word := by
  rw [bitsIn_eq, onesIn, List.countP_eq_length_filter]

end Concordance.IdSet
