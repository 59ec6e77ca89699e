import Concordance.Indexing
import Concordance.Proofs.Posting

/-! What a catalog records, told by the offsets of a word in a document. -/
namespace Concordance

namespace Extract

/-- The offsets of a word among the words of a file, as a catalog counts them. -/
def offsetsOf (words : List Word) (text : String) : List UInt64 :=
  (words.filter (·.text == text)).map fun word => UInt64.ofNat word.offset

/-- The places of a word among the words of a file, none when it does not stand there. -/
def placesOf (words : List Word) (text : String) : Option Offsets :=
  match offsetsOf words text with
  | [] => none
  | offsets => some (.ofList offsets)

end Extract

namespace Catalog

open Extract

/-- The offsets that are recorded of a word in a document. -/
def places (catalog : Catalog) (word : String) (id : DocId) : Option Offsets :=
  (catalog.posting? word).bind (·.offsets? id)

/-- Two catalogs with the same documents, of the same directory and with the same next number. -/
structure SameDocuments (first second : Catalog) : Prop where
  documents : first.documents = second.documents
  nextId : first.nextId = second.nextId
  directory : first.directory = second.directory

theorem SameDocuments.refl (catalog : Catalog) : SameDocuments catalog catalog := ⟨rfl, rfl, rfl⟩

/-- Having the same documents is transitive. -/
theorem SameDocuments.trans {first second third : Catalog} (left : SameDocuments first second)
    (right : SameDocuments second third) : SameDocuments first third :=
  ⟨left.documents.trans right.documents, left.nextId.trans right.nextId,
    left.directory.trans right.directory⟩

/-- In catalogs with the same documents the same numbers are live. -/
theorem SameDocuments.isLive_eq {first second : Catalog} (same : SameDocuments first second)
    (id : DocId) : first.isLive id = second.isLive id := by
  unfold isLive
  rw [same.documents]

/-- A word without a posting has no places. -/
theorem places_of_posting?_eq_none {catalog : Catalog} {word : String}
    (none : catalog.posting? word = none) (id : DocId) : catalog.places word id = .none := by
  unfold places
  rw [none]
  rfl

/-- The places of a word are the offsets in its posting. -/
theorem places_of_posting?_eq_some {catalog : Catalog} {word : String} {posting : Posting}
    (found : catalog.posting? word = some posting) (id : DocId) :
    catalog.places word id = posting.offsets? id := by
  unfold places
  rw [found]
  rfl

/-- Adding a place touches no document. -/
theorem sameDocuments_addPlace (catalog : Catalog) (word : String) (id : DocId) (offset : UInt64) :
    SameDocuments (catalog.addPlace word id offset) catalog := by
  unfold addPlace
  split <;> exact ⟨rfl, rfl, rfl⟩

/-- Adding a place changes the posting of its own word only. -/
theorem posting?_addPlace (catalog : Catalog) (word other : String) (id : DocId)
    (offset : UInt64) :
    (catalog.addPlace word id offset).posting? other =
      if other = word then some (((catalog.posting? word).getD .empty).add id offset)
      else catalog.posting? other := by
  unfold addPlace
  split
  next posting found =>
    show (catalog.terms.insert word _).get? other = _
    rw [OrderedMap.get?_insert]
    simp only [Std.LawfulEqOrd.compare_eq_iff_eq, found, Option.getD_some]
    rfl
  next found =>
    show (catalog.terms.insert word _).get? other = _
    rw [OrderedMap.get?_insert]
    simp only [Std.LawfulEqOrd.compare_eq_iff_eq, found, Option.getD_none]
    rfl

/-- An added place joins those of its word in its document. -/
theorem places_addPlace (catalog : Catalog) (word other : String) (id document : DocId)
    (offset : UInt64) :
    (catalog.addPlace word id offset).places other document =
      if other = word ∧ document = id then
        some (((catalog.places word id).getD .empty).insert offset)
      else catalog.places other document := by
  have before : ∀ document, (((catalog.posting? word).getD .empty).offsets? document) =
      catalog.places word document := by
    intro document
    unfold places
    cases catalog.posting? word <;> rfl
  by_cases same : other = word
  · rw [places_of_posting?_eq_some ((posting?_addPlace ..).trans (if_pos same)),
      Posting.offsets?_add, before, before, same]
    simp only [true_and]
  · rw [if_neg fun both => same both.1]
    unfold places
    rw [posting?_addPlace, if_neg same]

/-- The places of a word after more offsets have been added. -/
def extend (start : Option Offsets) : List UInt64 → Option Offsets
  | [] => start
  | offset :: rest => some (rest.foldl OrderedSet.insert ((start.getD .empty).insert offset))

theorem extend_cons (start : Option Offsets) (offset : UInt64) (rest : List UInt64) :
    extend start (offset :: rest) = extend (some ((start.getD .empty).insert offset)) rest := by
  cases rest <;> rfl

/-- The offsets of a text extend nothing to its places. -/
theorem extend_none (words : List Word) (text : String) :
    extend none (offsetsOf words text) = placesOf words text := by
  unfold placesOf
  cases offsetsOf words text <;> rfl

/-- Adding words touches no document. -/
theorem sameDocuments_addWords (catalog : Catalog) (id : DocId) (words : List Word) :
    SameDocuments (catalog.addWords id words) catalog := by
  unfold addWords
  induction words generalizing catalog with
  | nil => exact .refl catalog
  | cons word rest ih => exact (ih _).trans (sameDocuments_addPlace ..)

/-- The words of a file are recorded in its document and nowhere else. -/
theorem places_addWords (catalog : Catalog) (id document : DocId) (words : List Word)
    (text : String) :
    (catalog.addWords id words).places text document =
      if document = id then extend (catalog.places text id) (offsetsOf words text)
      else catalog.places text document := by
  induction words generalizing catalog with
  | nil =>
      by_cases same : document = id
      · rw [if_pos same, same]
        rfl
      · rw [if_neg same]
        rfl
  | cons word rest ih =>
      have step : catalog.addWords id (word :: rest) =
          (catalog.addPlace word.text id (UInt64.ofNat word.offset)).addWords id rest := rfl
      rw [step, ih, places_addPlace, places_addPlace]
      by_cases same : document = id
      · rw [if_pos same, if_pos same]
        by_cases here : text = word.text
        · have offsets : offsetsOf (word :: rest) text =
              UInt64.ofNat word.offset :: offsetsOf rest text := by
            simp [offsetsOf, here]
          rw [if_pos ⟨here, rfl⟩, offsets, extend_cons, here]
        · have offsets : offsetsOf (word :: rest) text = offsetsOf rest text := by
            simp [offsetsOf, Ne.symm here]
          rw [if_neg fun both => here both.1, offsets]
      · rw [if_neg same, if_neg same, if_neg fun both => same both.2]

/-- Removing a document leaves all places behind. -/
theorem places_removeDocument (catalog : Catalog) (id : DocId) (word : String)
    (document : DocId) :
    (catalog.removeDocument id).places word document = catalog.places word document := by
  unfold removeDocument
  split <;> rfl

theorem nextId_removeDocument (catalog : Catalog) (id : DocId) :
    (catalog.removeDocument id).nextId = catalog.nextId := by
  unfold removeDocument
  split <;> rfl

theorem terms_removeDocument (catalog : Catalog) (id : DocId) :
    (catalog.removeDocument id).terms = catalog.terms := by
  unfold removeDocument
  split <;> rfl

/-- Removing a document takes it away and no other. -/
theorem document?_removeDocument (catalog : Catalog) (id other : DocId) :
    (catalog.removeDocument id).document? other =
      if other = id then none else catalog.document? other := by
  unfold removeDocument
  by_cases live : catalog.isLive id = true
  · rw [if_pos live]
    show (catalog.documents.erase id).get? other = _
    rw [OrderedMap.get?_erase]
    simp only [Std.LawfulEqOrd.compare_eq_iff_eq]
    rfl
  · rw [if_neg live]
    split
    next same =>
      rw [same]
      exact Option.not_isSome_iff_eq_none.mp live
    next => rfl

/-- What is found after a document has been deleted was there before. -/
theorem document?_of_removeDocument {catalog : Catalog} {id other : DocId} {document : Document}
    (found : (catalog.removeDocument id).document? other = some document) :
    catalog.document? other = some document := by
  rw [document?_removeDocument] at found
  split at found
  next => cases found
  next => exact found

theorem directory_removeDocument (catalog : Catalog) (id : DocId) :
    (catalog.removeDocument id).directory = catalog.directory := by
  unfold removeDocument
  split <;> rfl

/-- A word of which every document is there is left as it is. -/
theorem tidy_of_alive {catalog : Catalog} {word : String} {posting : Posting}
    (found : catalog.posting? word = some posting)
    (alive : posting.documents.all catalog.isLive = true) :
    catalog.tidy word = (0, catalog) := by
  unfold tidy
  simp only [found, alive, if_true]

/-- A word of which some document is gone keeps its places in the others, if there are any. -/
theorem posting?_tidy_of_dead {catalog : Catalog} {word : String} {posting : Posting}
    (found : catalog.posting? word = some posting)
    (dead : posting.documents.all catalog.isLive = false) (other : String) :
    (catalog.tidy word).2.posting? other =
      if other = word then
        if (posting.retain catalog.isLive).isEmpty then none
        else some (posting.retain catalog.isLive)
      else catalog.posting? other := by
  unfold tidy
  simp only [found, dead, Bool.false_eq_true, if_false]
  by_cases bare : (posting.retain catalog.isLive).isEmpty = true
  · rw [if_pos bare, if_pos bare]
    show (catalog.terms.erase word).get? other = _
    rw [OrderedMap.get?_erase]
    simp only [Std.LawfulEqOrd.compare_eq_iff_eq]
    rfl
  · rw [if_neg bare, if_neg bare]
    show (catalog.terms.insert word _).get? other = _
    rw [OrderedMap.get?_insert]
    simp only [Std.LawfulEqOrd.compare_eq_iff_eq]
    rfl

/-- Tidying a word takes away its places in documents that are gone and no others. -/
theorem places_tidy (catalog : Catalog) (word other : String) (id : DocId) :
    (catalog.tidy word).2.places other id =
      if other = word ∧ catalog.isLive id = false then none else catalog.places other id := by
  cases found : catalog.posting? word with
  | none =>
      have same : (catalog.tidy word).2 = catalog := by
        unfold tidy
        rw [found]
      rw [same]
      split
      next gone => rw [gone.1, places_of_posting?_eq_none found]
      next => rfl
  | some posting =>
      by_cases alive : posting.documents.all catalog.isLive = true
      · rw [tidy_of_alive found alive]
        split
        next gone =>
          rw [gone.1, places_of_posting?_eq_some found, ← Option.not_isSome_iff_eq_none]
          intro held
          have live := List.all_eq_true.mp alive id (Posting.mem_documents.mpr held)
          rw [gone.2] at live
          cases live
        next => rfl
      · have after := posting?_tidy_of_dead found (Bool.eq_false_iff.mpr alive) other
        by_cases same : other = word
        · rw [if_pos same] at after
          have kept : (catalog.tidy word).2.places other id =
              (posting.retain catalog.isLive).offsets? id := by
            by_cases bare : (posting.retain catalog.isLive).isEmpty = true
            · rw [if_pos bare] at after
              rw [places_of_posting?_eq_none after, Posting.isEmpty_iff.mp bare]
            · rw [if_neg bare] at after
              exact places_of_posting?_eq_some after id
          rw [kept, Posting.offsets?_retain, same, places_of_posting?_eq_some found]
          cases catalog.isLive id <;> simp
        · rw [if_neg same] at after
          rw [if_neg fun both => same both.1]
          unfold places
          rw [after]

/-- Tidying a word touches no document. -/
theorem sameDocuments_tidy (catalog : Catalog) (word : String) :
    SameDocuments (catalog.tidy word).2 catalog := by
  unfold tidy
  split
  next => exact .refl catalog
  next =>
    split
    next => exact .refl catalog
    next =>
      simp only
      split <;> exact ⟨rfl, rfl, rfl⟩

/-- Tidying words touches no document. -/
theorem sameDocuments_tidyWords (catalog : Catalog) (words : List String) :
    SameDocuments (catalog.tidyWords words).2 catalog := by
  induction words generalizing catalog with
  | nil => exact .refl catalog
  | cons word rest ih => exact (ih _).trans (sameDocuments_tidy catalog word)

/-- Tidying words takes away their places in documents that are gone and no others. -/
theorem places_tidyWords (catalog : Catalog) (words : List String) (other : String) (id : DocId) :
    (catalog.tidyWords words).2.places other id =
      if other ∈ words ∧ catalog.isLive id = false then none else catalog.places other id := by
  induction words generalizing catalog with
  | nil => simp [tidyWords]
  | cons word rest ih =>
      have step : (catalog.tidyWords (word :: rest)).2 =
          ((catalog.tidy word).2.tidyWords rest).2 := rfl
      rw [step, ih, places_tidy, (sameDocuments_tidy catalog word).isLive_eq]
      simp only [List.mem_cons]
      grind

/-- A word that is no key has no posting. -/
theorem posting?_eq_none_of_not_mem {catalog : Catalog} {word : String}
    (missing : word ∉ catalog.terms.keys) : catalog.posting? word = none := by
  rw [← Option.not_isSome_iff_eq_none]
  intro found
  exact missing (OrderedMap.contains_iff.mp found)

/-- After a complete tidying no place is left in a document that is gone. -/
theorem places_tidyAll (catalog : Catalog) (word : String) (id : DocId) :
    catalog.tidyAll.2.places word id =
      if catalog.isLive id = false then none else catalog.places word id := by
  unfold tidyAll
  rw [places_tidyWords]
  by_cases known : word ∈ catalog.terms.keys
  · simp only [known, true_and]
  · have nowhere := places_of_posting?_eq_none (posting?_eq_none_of_not_mem known) id
    rw [nowhere]
    simp

end Catalog
end Concordance
