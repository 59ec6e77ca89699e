import Concordance.Proofs.IdSet
import Mathlib.Order.Interval.Finset.Nat

namespace Concordance.IdSet

/-- How a set came about. -/
inductive Origin where
  | empty
  | full
  | ofIds (ids : List Nat)
  | insert (set : Origin) (id : Nat)
  | complement (set : Origin)
  | inter (first second : Origin)
  | union (first second : Origin)

namespace Origin

/-- The set up to a greatest number. -/
def build (greatest : Nat) : Origin → IdSet
  | empty => .empty greatest
  | full => .full greatest
  | ofIds ids => .ofIds greatest ids
  | insert set id => (set.build greatest).insert id
  | complement set => (set.build greatest).complement
  | inter first second => (first.build greatest).inter (second.build greatest)
  | union first second => (first.build greatest).union (second.build greatest)

/-- The numbers up to a greatest one that the set stands for. -/
def members (greatest : Nat) : Origin → Finset Nat
  | empty => ∅
  | full => .Icc 1 greatest
  | ofIds ids => ids.toFinset ∩ .Icc 1 greatest
  | insert set id => set.members greatest ∪ {id} ∩ .Icc 1 greatest
  | complement set => .Icc 1 greatest \ set.members greatest
  | inter first second => first.members greatest ∩ second.members greatest
  | union first second => first.members greatest ∪ second.members greatest

variable {greatest : Nat}

/-- The members of a set are in range. -/
theorem members_subset (greatest : Nat) (origin : Origin) :
    origin.members greatest ⊆ .Icc 1 greatest := by
  induction origin with
  | empty => exact Finset.empty_subset _
  | full => exact Finset.Subset.refl _
  | ofIds ids => exact Finset.inter_subset_right
  | insert set id ih => exact Finset.union_subset ih Finset.inter_subset_right
  | complement set => exact Finset.sdiff_subset
  | inter first second ih => exact Finset.inter_subset_left.trans ih
  | union first second ih also => exact Finset.union_subset ih also

theorem greatest_build (greatest : Nat) (origin : Origin) :
    (origin.build greatest).greatest = greatest := by
  induction origin with
  | empty => rfl
  | full => rfl
  | ofIds ids => exact greatest_ofIds greatest ids
  | insert set id ih => exact (greatest_insert _ id).trans ih
  | complement set ih => exact ih
  | inter first second ih => exact ih
  | union first second ih => exact ih

theorem same_build (greatest : Nat) (first second : Origin) :
    (first.build greatest).greatest = (second.build greatest).greatest :=
  (greatest_build greatest first).trans (greatest_build greatest second).symm

theorem inRange_eq (greatest id : Nat) : inRange greatest id = decide (id ∈ Finset.Icc 1 greatest) := by
  rw [Bool.eq_iff_iff]
  simp [inRange, Nat.one_le_iff_ne_zero]

section Counted

variable (counted : greatest + 1 < UInt64.size)

include counted

/-- The bits of a set can be counted, however it came about. -/
theorem counted_build (origin : Origin) : (origin.build greatest).greatest + 1 < UInt64.size := by
  rwa [greatest_build]

/-- The bits of a set are those of its numbers. -/
theorem bit_build (origin : Origin) (id : Nat) :
    (origin.build greatest).bit id = decide (id ∈ origin.members greatest) := by
  induction origin with
  | empty => exact bit_empty greatest id
  | full => exact (bit_full counted id).trans (inRange_eq greatest id)
  | ofIds ids =>
      rw [build, (isClean_ofIds counted ids).bit_eq, contains_ofIds counted, inRange_eq, members,
        Bool.eq_iff_iff]
      simp [and_comm]
  | insert set other ih =>
      rw [build, bit_insert (counted_build counted set), ih, greatest_build, inRange_eq, members,
        Bool.eq_iff_iff]
      simp [and_comm]
  | complement set ih =>
      rw [build, bit_complement (counted_build counted set), ih, greatest_build, inRange_eq, members,
        Bool.eq_iff_iff]
      simp
  | inter first second ih also =>
      rw [build, bit_inter (same_build greatest first second), ih, also, members, Bool.eq_iff_iff]
      simp
  | union first second ih also =>
      rw [build, bit_union (same_build greatest first second), ih, also, members, Bool.eq_iff_iff]
      simp

/-- A set is clean, however it came about. -/
theorem isClean_build (origin : Origin) : (origin.build greatest).IsClean := by
  intro id there
  rw [bit_build counted, decide_eq_true_iff] at there
  rw [greatest_build, inRange_eq, decide_eq_true_iff]
  exact members_subset greatest origin there

/-- A set contains its members and nothing else. -/
theorem contains_build (origin : Origin) (id : Nat) :
    (origin.build greatest).contains id = decide (id ∈ origin.members greatest) := by
  rw [← (isClean_build counted origin).bit_eq, bit_build counted]

/-- The list of a set has its members and nothing else. -/
theorem mem_toList_build (origin : Origin) (id : Nat) :
    id ∈ (origin.build greatest).toList ↔ id ∈ origin.members greatest := by
  have within := @members_subset greatest origin id
  rw [Finset.mem_Icc] at within
  rw [(isClean_build counted origin).toList_eq (counted_build counted origin), List.mem_filter,
    contains_build counted, decide_eq_true_iff, greatest_build, List.mem_range'_1,
    and_iff_right_iff_imp]
  exact fun member => ⟨(within member).1, by have := (within member).2; omega⟩

/-- The list of a set is ascending. -/
theorem pairwise_toList_build (origin : Origin) :
    (origin.build greatest).toList.Pairwise (· < ·) := by
  rw [(isClean_build counted origin).toList_eq (counted_build counted origin)]
  exact List.Pairwise.sublist List.filter_sublist List.pairwise_lt_range'

/-- The size of a set is the number of its members. -/
theorem size_build (origin : Origin) :
    (origin.build greatest).size = (origin.members greatest).card := by
  have distinct := (pairwise_toList_build counted origin).imp Nat.ne_of_lt
  have same : (origin.build greatest).toList.toFinset = origin.members greatest := by
    ext id
    rw [List.mem_toFinset, mem_toList_build counted]
  rw [size_eq_length, ← same, List.toFinset_card_of_nodup distinct]

/-- A set is empty where it has no members. -/
theorem isEmpty_build (origin : Origin) :
    (origin.build greatest).isEmpty = true ↔ origin.members greatest = ∅ := by
  simp only [isEmpty_iff, bit_build counted, decide_eq_false_iff_not,
    Finset.eq_empty_iff_forall_notMem]

/-- Sets are equal where they have the same members. -/
theorem build_eq_iff (first second : Origin) :
    first.build greatest = second.build greatest ↔
      first.members greatest = second.members greatest := by
  constructor
  · intro same
    ext id
    rw [← decide_eq_decide, ← bit_build counted, ← bit_build counted, same]
  · intro same
    apply eq_of_bit (same_build greatest first second)
    intro id
    rw [bit_build counted, bit_build counted, same]

end Counted

end Origin

/-- However a set came about, the word of every number is found as long as the bits can be counted. The
set contains the numbers in range that the same steps give for finite sets, no bit beside theirs is
set, they are listed in ascending order and counted, and two sets are equal when they stand for the
same numbers. -/
theorem exact_of_origin {greatest : Nat} (counted : greatest + 1 < UInt64.size) (origin : Origin) :
    let set := origin.build greatest
    let members := origin.members greatest
    set.greatest = greatest ∧ members ⊆ .Icc 1 greatest ∧ (∀ id, set.lacksWord id = false) ∧
    (∀ id, set.contains id = decide (id ∈ members)) ∧
    (∀ id, id = 0 ∨ greatest < id → set.bit id = false) ∧
    (∀ id, id ∈ set.toList ↔ id ∈ members) ∧ set.toList.Pairwise (· < ·) ∧
    set.size = members.card ∧ (set.isEmpty = true ↔ members = ∅) ∧
    ∀ other : Origin, set = other.build greatest ↔ members = other.members greatest := by
  intro set members
  refine ⟨origin.greatest_build greatest, origin.members_subset greatest,
    lacksWord_eq_false (origin.counted_build counted), origin.contains_build counted,
    fun id outside => ?_, origin.mem_toList_build counted,
    origin.pairwise_toList_build counted, origin.size_build counted,
    origin.isEmpty_build counted, origin.build_eq_iff counted⟩
  have clean := origin.isClean_build counted id
  rw [origin.greatest_build greatest, inRange_eq_false outside] at clean
  exact Bool.eq_false_iff.mpr fun there => Bool.false_ne_true (clean there)

/-- A complement up to 70 fills one word up and a part of another. -/
theorem exact_of_origin_complement :
    let set := (Origin.complement (.ofIds [3, 71])).build 70
    (70 + 1 < UInt64.size) ∧ set.words = [0xfffffffffffffff6, 0x7f] ∧
      (∀ id, set.lacksWord id = false) ∧ set.contains 3 = false ∧ set.contains 70 = true ∧
      set.size = 69 := by
  intro set
  have counted : 70 + 1 < UInt64.size := by decide
  obtain ⟨-, -, found, contains, -, -, -, size, -⟩ :=
    exact_of_origin counted (.complement (.ofIds [3, 71]))
  exact ⟨counted, by decide, found, (contains 3).trans (by decide), (contains 70).trans (by decide),
    size.trans (by decide +kernel)⟩

end Concordance.IdSet
