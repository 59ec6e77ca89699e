import Concordance.Proofs.Retrieval.Stage

/-! The algebra of the sets that words select. -/
namespace Concordance.Retrieval

open Query

/-- The document of a number is listed at a word. -/
def isListed (catalog : Catalog) (id : DocId) (word : String) : Bool :=
  (catalog.posting? word).any fun posting => id ∈ posting.documents

/-- A word stands in the documents that are listed at it. -/
theorem hasWord_eq_isListed (catalog : Catalog) : hasWord catalog = isListed catalog := by
  funext id word
  unfold hasWord isListed
  congr 1
  funext posting
  rw [Bool.eq_iff_iff, decide_eq_true_iff]
  exact Posting.mem_documents.symm

section

variable (catalog : Catalog) {greatest : Nat}

/-- A negation selects the numbers in range that its operand does not select. -/
theorem contains_selected_negation (counted : greatest + 1 < UInt64.size) (inner : Formula String)
    (id : Nat) : (selected catalog greatest (.negation inner)).contains id =
      (IdSet.inRange greatest id && !(selected catalog greatest inner).contains id) := by
  rw [selected_negation catalog counted,
    IdSet.contains_complement (counted_selected catalog counted inner),
    greatest_selected catalog counted]

/-- A conjunction selects what all of its parts select. -/
theorem contains_selected_conjunction (counted : greatest + 1 < UInt64.size)
    {parts : List (Formula String)} (filled : parts ≠ []) (id : Nat) :
    (selected catalog greatest (.conjunction parts)).contains id =
      parts.all fun part => (selected catalog greatest part).contains id := by
  obtain ⟨first, rest, rfl⟩ := List.exists_cons_of_ne_nil filled
  rw [selected_conjunction catalog counted,
    contains_foldl_inter catalog counted _ (greatest_selected catalog counted first), List.all_cons]

/-- A disjunction selects what one of its parts selects. -/
theorem contains_selected_disjunction (counted : greatest + 1 < UInt64.size)
    {parts : List (Formula String)} (filled : parts ≠ []) (id : Nat) :
    (selected catalog greatest (.disjunction parts)).contains id =
      parts.any fun part => (selected catalog greatest part).contains id := by
  obtain ⟨first, rest, rfl⟩ := List.exists_cons_of_ne_nil filled
  rw [selected_disjunction catalog counted,
    contains_foldl_union catalog counted _ (greatest_selected catalog counted first), List.any_cons]

/-- Intersections of clean sets are clean. -/
theorem isClean_foldl_inter (counted : greatest + 1 < UInt64.size) (parts : List (Formula String))
    {set : IdSet} (same : set.greatest = greatest) (clean : set.IsClean) :
    (parts.foldl (fun set part => set.inter (selected catalog greatest part)) set).IsClean := by
  induction parts generalizing set with
  | nil => exact clean
  | cons part rest ih =>
      have alike := same.trans (greatest_selected catalog counted part).symm
      have kept : (set.inter (selected catalog greatest part)).greatest = greatest := same
      exact ih kept (clean.inter alike)

mutual

/-- No formula sets a bit that is out of range. -/
theorem isClean_selected (counted : greatest + 1 < UInt64.size) :
    ∀ formula : Formula String, (selected catalog greatest formula).IsClean
  | .leaf word => by
      rw [selected_leaf catalog counted]
      split
      next => exact IdSet.isClean_ofIds counted _
      next => exact IdSet.isClean_empty greatest
  | .negation inner => by
      rw [selected_negation catalog counted]
      exact IdSet.isClean_complement (counted_selected catalog counted inner)
  | .conjunction [] => by
      rw [selected, select]
      exact IdSet.isClean_empty greatest
  | .conjunction (first :: rest) => by
      rw [selected_conjunction catalog counted]
      exact isClean_foldl_inter catalog counted rest (greatest_selected catalog counted first)
        (isClean_selected counted first)
  | .disjunction [] => by
      rw [selected, select]
      exact IdSet.isClean_empty greatest
  | .disjunction (first :: rest) => by
      rw [selected_disjunction catalog counted]
      exact isClean_foldl_union counted rest _ (greatest_selected catalog counted first)
        (isClean_selected counted first)

/-- Unions of clean sets are clean. -/
theorem isClean_foldl_union (counted : greatest + 1 < UInt64.size) :
    ∀ (parts : List (Formula String)) (set : IdSet), set.greatest = greatest → set.IsClean →
      (parts.foldl (fun set part => set.union (selected catalog greatest part)) set).IsClean
  | [], _, _, clean => clean
  | part :: rest, _, same, clean =>
      isClean_foldl_union counted rest _ same
        (clean.union (same.trans (greatest_selected catalog counted part).symm)
          (isClean_selected counted part))

end

end

/-- A number is in range from 1 to the greatest. -/
theorem inRange_toNat {greatest id : DocId} :
    IdSet.inRange greatest.toNat id.toNat = true ↔ 1 ≤ id ∧ id ≤ greatest := by
  rw [UInt64.le_iff_toNat_le, UInt64.le_iff_toNat_le, IdSet.inRange, Bool.and_eq_true,
    decide_eq_true_eq, decide_eq_true_eq]
  exact and_congr_left' Nat.one_le_iff_ne_zero.symm

/-- As long as the bits up to the greatest number can be counted, every formula selects a set. One
without empty groups selects the numbers from 1 to the greatest of which it is true when a word holds
of the numbers that are listed at it, and its set lists these and no others. At every node the sets of
the parts are met, joined or complemented. -/
theorem select_of_isFilled (catalog : Catalog) {greatest : DocId}
    (counted : greatest.toNat + 1 < UInt64.size) :
    ∃ sets : Formula String → IdSet,
    (∀ formula, select catalog greatest.toNat formula = some (sets formula)) ∧
    (∀ formula : Formula String, formula.IsFilled →
      (∀ id : DocId, (sets formula).contains id.toNat = true ↔
        1 ≤ id ∧ id ≤ greatest ∧ formula.evaluate (isListed catalog id) = true) ∧
      (sets formula).toList = (List.range' 1 greatest.toNat).filter
        (fun id => formula.evaluate (isListed catalog (.ofNat id)))) ∧
    (∀ inner id, (sets (.negation inner)).contains id =
      (IdSet.inRange greatest.toNat id && !(sets inner).contains id)) ∧
    ∀ parts, parts ≠ [] → ∀ id,
      (sets (.conjunction parts)).contains id = (parts.all fun part => (sets part).contains id) ∧
      (sets (.disjunction parts)).contains id = parts.any fun part => (sets part).contains id := by
  refine ⟨selected catalog greatest.toNat, select_eq catalog counted, fun formula filled => ?_,
    contains_selected_negation catalog counted, fun parts some id =>
      ⟨contains_selected_conjunction catalog counted some id,
        contains_selected_disjunction catalog counted some id⟩⟩
  have holds : ∀ id : DocId, IdSet.inRange greatest.toNat id.toNat = true →
      (selected catalog greatest.toNat formula).contains id.toNat =
        formula.evaluate (isListed catalog id) := by
    intro id within
    rw [contains_selected catalog counted within, chooses_eq _ formula filled,
      hasWord_eq_isListed]
  constructor
  · intro id
    rw [← and_assoc, ← inRange_toNat]
    constructor
    · intro held
      have within : IdSet.inRange greatest.toNat id.toNat = true := by
        rw [IdSet.contains_eq, greatest_selected catalog counted, Bool.and_eq_true] at held
        exact held.1
      exact ⟨within, holds id within ▸ held⟩
    · rintro ⟨within, true⟩
      exact (holds id within).trans true
  · rw [(isClean_selected catalog counted formula).toList_eq
      (counted_selected catalog counted formula), greatest_selected catalog counted]
    apply List.filter_congr
    intro number member
    obtain ⟨positive, less⟩ := List.mem_range'_1.mp member
    have small : number < UInt64.size := by omega
    have same : (UInt64.ofNat number).toNat = number := UInt64.toNat_ofNat_of_lt' small
    have within : IdSet.inRange greatest.toNat (UInt64.ofNat number).toNat = true :=
      IdSet.inRange_of_not (by omega)
    have held := holds (.ofNat number) within
    rwa [same] at held

/-- A word is listed at the last number in range and at one beyond it, neither of which numbers a
document. What does not have the word ends before them, though the bits of 64 and 65 share a word. -/
theorem select_of_isFilled_beyond :
    let catalog := ((Catalog.empty ⟨"/"⟩ .empty).addPlace "hi" 64 0).addPlace "hi" 65 0
    let formula : Formula String := .negation (.conjunction [.leaf "hi", .negation (.leaf "no")])
    (64 : DocId).toNat + 1 < UInt64.size ∧ formula.IsFilled ∧ catalog.isLive 64 = false ∧
      ∃ set, select catalog 64 formula = some set ∧ set.contains 63 = true ∧
        set.contains 64 = false ∧ set.contains 65 = false ∧ set.toList = List.range' 1 63 := by
  intro catalog formula
  have counted : (64 : DocId).toNat + 1 < UInt64.size := by decide
  have filled : formula.IsFilled :=
    ⟨List.cons_ne_nil _ _, True.intro, (True.intro : (Formula.leaf "no").IsFilled), True.intro⟩
  obtain ⟨sets, selects, exact, -⟩ := select_of_isFilled catalog counted
  obtain ⟨contains, lists⟩ := exact formula filled
  have refused : ∀ id : DocId, ¬(1 ≤ id ∧ id ≤ 64 ∧
      formula.evaluate (isListed catalog id) = true) →
      (sets formula).contains id.toNat = false := by
    intro id outside
    rw [Bool.eq_false_iff]
    exact mt (contains id).mp outside
  exact ⟨counted, filled, by decide, _, selects formula, (contains 63).mpr (by decide +kernel),
    refused 64 (by decide +kernel), refused 65 (by decide +kernel), lists.trans (by decide +kernel)⟩

end Concordance.Retrieval
