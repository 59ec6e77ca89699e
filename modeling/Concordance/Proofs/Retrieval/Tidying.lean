import Concordance.Proofs.Catalog.Places
import Concordance.Proofs.Retrieval.Stage
import Mathlib.Algebra.GroupWithZero.Nat

/-! Tidying takes away what is recorded of documents that are gone, and no search can tell. -/
namespace Concordance

namespace Catalog

/-- The words with the documents that are recorded for them. -/
def entries (catalog : Catalog) : List (String × DocId) :=
  catalog.terms.entries.flatMap fun entry => entry.2.documents.map (entry.1, ·)

/-- An entry stands in a catalog where places are recorded for it. -/
theorem mem_entries {catalog : Catalog} {entry : String × DocId} :
    entry ∈ catalog.entries ↔ (catalog.places entry.1 entry.2).isSome = true := by
  obtain ⟨word, id⟩ := entry
  rw [entries, List.mem_flatMap]
  constructor
  · rintro ⟨⟨other, posting⟩, member, here⟩
    obtain ⟨document, held, same⟩ := List.mem_map.mp here
    cases same
    rw [places_of_posting?_eq_some (OrderedMap.get?_of_mem member)]
    exact Posting.mem_documents.mp held
  · intro found
    obtain ⟨offsets, place⟩ := Option.isSome_iff_exists.mp found
    obtain ⟨posting, known, held⟩ := Option.bind_eq_some_iff.mp place
    refine ⟨(word, posting), OrderedMap.get?_eq_some_iff.mp known, List.mem_map.mpr ⟨id, ?_, rfl⟩⟩
    exact Posting.mem_documents.mpr (Option.isSome_of_eq_some held)

theorem nodup_entries (catalog : Catalog) : catalog.entries.Nodup := by
  rw [entries, List.nodup_flatMap]
  constructor
  · intro entry _
    apply entry.2.nodup_documents.map
    exact fun _ _ same => (Prod.mk.inj same).2
  · have apart := catalog.terms.nodup_keys
    rw [OrderedMap.keys, List.Nodup, List.pairwise_map] at apart
    apply apart.imp
    intro first second different pair here there
    obtain ⟨_, -, rfl⟩ := List.mem_map.mp here
    obtain ⟨_, -, same⟩ := List.mem_map.mp there
    exact different (Prod.mk.inj same).1.symm

/-- The entries of a catalog are counted by the frequencies of its words. -/
theorem length_entries (catalog : Catalog) :
    catalog.entries.length = (catalog.terms.values.map Posting.frequency).sum := by
  rw [entries, List.length_flatMap, OrderedMap.values, List.map_map]
  congr 1
  apply List.map_congr_left
  intro entry _
  exact List.length_map _

/-- What tidying a word takes away is counted. -/
theorem tidy_add_length (catalog : Catalog) (word : String) :
    (catalog.tidy word).1 + (catalog.tidy word).2.entries.length = catalog.entries.length := by
  unfold tidy
  split
  next => exact Nat.zero_add _
  next posting found =>
    split
    next => exact Nat.zero_add _
    next =>
      have kept : (posting.retain catalog.isLive).frequency ≤ posting.frequency := by
        rw [Posting.frequency, Posting.documents_retain]
        exact List.length_filter_le _ _
      have before := ((catalog.terms.perm_values_erase word).map Posting.frequency).sum_nat
      have known : catalog.terms.get? word = some posting := found
      rw [known, Option.toList_some, List.singleton_append, List.map_cons, List.sum_cons] at before
      simp only [length_entries, before, touch]
      split
      next bare =>
        have none : (posting.retain catalog.isLive).frequency = 0 :=
          List.length_eq_zero_iff.mpr (List.isEmpty_iff.mp bare)
        simp only [none]
        omega
      next =>
        have after := ((catalog.terms.perm_values_insert word
          (posting.retain catalog.isLive)).map Posting.frequency).sum_nat
        rw [List.map_cons, List.sum_cons] at after
        simp only [after]
        omega

/-- What tidying takes away and what it leaves are all entries there were. -/
theorem tidyWords_add_length (catalog : Catalog) (words : List String) :
    (catalog.tidyWords words).1 + (catalog.tidyWords words).2.entries.length =
      catalog.entries.length := by
  induction words generalizing catalog with
  | nil => exact Nat.zero_add _
  | cons word rest ih =>
      have step := tidy_add_length catalog word
      have more := ih (catalog.tidy word).2
      simp only [tidyWords]
      omega

/-- Where all documents of all words are there, tidying takes nothing away. -/
theorem tidyWords_of_alive {catalog : Catalog}
    (alive : ∀ entry ∈ catalog.entries, catalog.isLive entry.2 = true) (words : List String) :
    catalog.tidyWords words = (0, catalog) := by
  have single (word : String) : catalog.tidy word = (0, catalog) := by
    cases found : catalog.posting? word with
    | none =>
        unfold tidy
        rw [found]
    | some posting =>
        apply tidy_of_alive found
        rw [List.all_eq_true]
        intro id member
        apply alive (word, id)
        rw [mem_entries, places_of_posting?_eq_some found]
        exact Posting.mem_documents.mp member
  induction words with
  | nil => rfl
  | cons word rest ih =>
      rw [tidyWords, single]
      simp only [ih]

/-- After a complete tidying those entries are left of which the document is there. -/
theorem mem_entries_tidyAll {catalog : Catalog} {entry : String × DocId} :
    entry ∈ catalog.tidyAll.2.entries ↔
      entry ∈ catalog.entries ∧ catalog.isLive entry.2 = true := by
  rw [mem_entries, mem_entries, places_tidyAll]
  cases catalog.isLive entry.2 <;> simp

/-- After a complete tidying every entry is of a live document. -/
theorem alive_tidyAll {catalog : Catalog} :
    ∀ entry ∈ catalog.tidyAll.2.entries, catalog.tidyAll.2.isLive entry.2 = true := by
  intro entry member
  have same := (sameDocuments_tidyWords catalog catalog.terms.keys).isLive_eq entry.2
  exact same.trans (mem_entries_tidyAll.mp member).2

/-- A complete tidying tells how many entries it has taken away. -/
theorem tidyAll_eq_length (catalog : Catalog) : catalog.tidyAll.1 =
    (catalog.entries.filter (· ∉ catalog.tidyAll.2.entries)).length := by
  have counted := tidyWords_add_length catalog catalog.terms.keys
  have kept : catalog.tidyAll.2.entries.Perm
      (catalog.entries.filter (· ∈ catalog.tidyAll.2.entries)) := by
    rw [List.perm_ext_iff_of_nodup (nodup_entries _) ((nodup_entries _).filter _)]
    intro entry
    rw [List.mem_filter, decide_eq_true_iff]
    exact ⟨fun left => ⟨(mem_entries_tidyAll.mp left).1, left⟩, And.right⟩
  have split := List.length_eq_length_filter_add
    (fun entry => decide (entry ∈ catalog.tidyAll.2.entries)) (l := catalog.entries)
  rw [← kept.length_eq] at split
  simp only [decide_not]
  show (catalog.tidyWords catalog.terms.keys).1 = _
  have same : (catalog.tidyWords catalog.terms.keys).2 = catalog.tidyAll.2 := rfl
  rw [same] at counted
  omega

/-- One call that tidies. -/
inductive Tidying where
  | word (text : String)
  | all

def Tidying.apply (catalog : Catalog) : Tidying → Catalog
  | word text => (catalog.tidy text).2
  | all => catalog.tidyAll.2

/-- A catalog after calls that tidy. -/
def tidied (catalog : Catalog) (calls : List Tidying) : Catalog := calls.foldl Tidying.apply catalog

/-- A catalog with the documents of another one and with the same places in these. -/
structure SamePlaces (first second : Catalog) : Prop extends SameDocuments first second where
  places : ∀ id, second.isLive id = true → ∀ word, first.places word id = second.places word id

/-- Tidying words keeps the places in live documents. -/
theorem samePlaces_tidyWords (catalog : Catalog) (words : List String) :
    SamePlaces (catalog.tidyWords words).2 catalog where
  toSameDocuments := sameDocuments_tidyWords catalog words
  places id live word := by
    rw [places_tidyWords, live]
    simp

/-- No calls that tidy touch the places in live documents. -/
theorem samePlaces_tidied (catalog : Catalog) (calls : List Tidying) :
    SamePlaces (catalog.tidied calls) catalog := by
  induction calls generalizing catalog with
  | nil => exact ⟨.refl catalog, fun _ _ _ => rfl⟩
  | cons call rest ih =>
      have step : SamePlaces (call.apply catalog) catalog := by
        cases call with
        | word text => exact samePlaces_tidyWords catalog [text]
        | all => exact samePlaces_tidyWords catalog catalog.terms.keys
      have more := ih (call.apply catalog)
      refine ⟨more.toSameDocuments.trans step.toSameDocuments, fun id live word => ?_⟩
      rw [← step.places id live word]
      exact more.places id (step.isLive_eq id ▸ live) word

end Catalog

namespace Retrieval

open Catalog

variable {first second : Catalog}

/-- Words choose the same documents where the same places are recorded of these. -/
theorem choose_of_samePlaces (same : SamePlaces first second) (unwrapped : second.nextId ≠ 0)
    (words : Option (Query.Formula String)) :
    Stage.choose first words = Stage.choose second words := by
  have live : first.live = second.live := by
    unfold live
    congr 1
    rw [same.documents]
  have greatest : first.greatestId = second.greatestId := by
    unfold greatestId
    rw [same.nextId]
  rw [choose_eq unwrapped, choose_eq (same.nextId ▸ unwrapped)]
  congr 1
  cases words with
  | none => exact live
  | some formula =>
      have counted := counted_greatestId unwrapped
      apply OrderedSet.ext
      show List.filter _ first.live.toList = List.filter _ second.live.toList
      rw [live, greatest]
      apply List.filter_congr
      intro id member
      -- A number out of range is in no set, so that what is recorded of it does not matter.
      cases within : IdSet.inRange second.greatestId.toNat id.toNat with
      | true =>
          have holds : hasWord first id = hasWord second id := by
            funext word
            rw [hasWord_eq_isSome, hasWord_eq_isSome, same.places id (mem_live.mp member)]
          rw [contains_selected first counted within, contains_selected second counted within, holds]
      | false =>
          rw [IdSet.contains_eq, IdSet.contains_eq, greatest_selected first counted,
            greatest_selected second counted, within]
          rfl

/-- No calls that tidy change what words select as long as the counter has not come back to 0, nor what
is recorded of a document that is there. A complete tidying leaves nothing recorded of documents that
are gone and tells how many entries it has taken away, and after it there is nothing to tidy. -/
theorem selection_of_tidied (catalog : Catalog) (calls : List Tidying) :
    (catalog.nextId ≠ 0 → ∀ settings words selection,
      (Stage.terms words).run settings (catalog.tidied calls) selection =
        (Stage.terms words).run settings catalog selection) ∧
      (∀ id, catalog.isLive id = true →
        ∀ word, (catalog.tidied calls).places word id = catalog.places word id) ∧
      (∀ entry ∈ catalog.tidyAll.2.entries, catalog.tidyAll.2.isLive entry.2 = true) ∧
      catalog.tidyAll.1 = (catalog.entries.filter (· ∉ catalog.tidyAll.2.entries)).length ∧
      catalog.tidyAll.2.tidyAll = (0, catalog.tidyAll.2) := by
  have same := samePlaces_tidied catalog calls
  refine ⟨fun unwrapped settings words selection => ?_, same.places, alive_tidyAll,
    tidyAll_eq_length catalog, tidyWords_of_alive alive_tidyAll _⟩
  show (do return Selection.chosen (← require (Stage.choose _ words))) =
    (do return Selection.chosen (← require (Stage.choose catalog words)))
  rw [choose_of_samePlaces same unwrapped words]

/-- Of two files with the same words one is deleted, and tidying leaves the other one. -/
theorem selection_of_tidied_deleted :
    let catalog := ((((Catalog.empty ⟨"/"⟩ .empty).register note).2.register note).2).removeDocument 1
    catalog.nextId ≠ 0 ∧ catalog.isLive 2 = true ∧ catalog.entries = [("hi", 1), ("hi", 2)] ∧
      (∀ settings words selection,
        (Stage.terms words).run settings (catalog.tidied [.word "hi", .all]) selection =
          (Stage.terms words).run settings catalog selection) ∧
      (catalog.tidied [.word "hi", .all]).places "hi" 2 = some (.ofList [0, 3]) ∧
      catalog.tidyAll.2.entries = [("hi", 2)] ∧ catalog.tidyAll.1 = 1 := by
  intro catalog
  have unwrapped : catalog.nextId ≠ 0 := by decide +kernel
  have live : catalog.isLive 2 = true := by decide +kernel
  have recorded : catalog.entries = [("hi", 1), ("hi", 2)] := by decide +kernel
  have left : catalog.tidyAll.2.entries = [("hi", 2)] := by decide +kernel
  obtain ⟨selects, places, -, counted, -⟩ := selection_of_tidied catalog [.word "hi", .all]
  have place : catalog.places "hi" 2 = some (.ofList [0, 3]) := by decide +kernel
  refine ⟨unwrapped, live, recorded, selects unwrapped, (places 2 live "hi").trans place, left, ?_⟩
  rw [counted, recorded, left]
  decide

end Retrieval
end Concordance
