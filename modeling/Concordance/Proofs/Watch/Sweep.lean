import Concordance.Proofs.Catalog.Faithful
import Concordance.Watch

/-! What a sync does with the files that became documents. -/
namespace Concordance

namespace Catalog

/-- Documents are deleted one after another. -/
def removeAll (catalog : Catalog) (ids : List DocId) : Catalog := ids.foldl removeDocument catalog

/-- Removing documents takes these away and no others. -/
theorem document?_removeAll (catalog : Catalog) (ids : List DocId) (id : DocId) :
    (catalog.removeAll ids).document? id = if id ∈ ids then none else catalog.document? id := by
  induction ids generalizing catalog with
  | nil => rfl
  | cons head rest ih =>
      show ((catalog.removeDocument head).removeAll rest).document? id = _
      rw [ih, document?_removeDocument]
      by_cases later : id ∈ rest
      · rw [if_pos later, if_pos (List.mem_cons_of_mem head later)]
      · rw [if_neg later]
        by_cases same : id = head
        · rw [if_pos same, if_pos (List.mem_cons.mpr (.inl same))]
        · rw [if_neg same, if_neg]
          rw [List.mem_cons, not_or]
          exact ⟨same, later⟩

/-- Removing documents leaves all places behind. -/
theorem places_removeAll (catalog : Catalog) (ids : List DocId) (word : String) (id : DocId) :
    (catalog.removeAll ids).places word id = catalog.places word id := by
  induction ids generalizing catalog with
  | nil => rfl
  | cons head rest ih => exact (ih _).trans (places_removeDocument catalog head word id)

theorem nextId_removeAll (catalog : Catalog) (ids : List DocId) :
    (catalog.removeAll ids).nextId = catalog.nextId := by
  induction ids generalizing catalog with
  | nil => rfl
  | cons head rest ih => exact (ih _).trans (nextId_removeDocument catalog head)

theorem terms_removeAll (catalog : Catalog) (ids : List DocId) :
    (catalog.removeAll ids).terms = catalog.terms := by
  induction ids generalizing catalog with
  | nil => rfl
  | cons head rest ih => exact (ih _).trans (terms_removeDocument catalog head)

/-- Removing documents keeps a catalog faithful. -/
theorem faithful_removeAll {catalog : Catalog} {origins : Origins}
    (faithful : catalog.snapshot.Faithful origins) (ids : List DocId) :
    (catalog.removeAll ids).snapshot.Faithful origins := by
  induction ids generalizing catalog with
  | nil => exact faithful
  | cons head rest ih => exact ih (faithful_removeDocument faithful head)

/-- Live documents that are deleted leave the others. -/
theorem perm_keys_removeAll {catalog : Catalog} {ids others : List DocId}
    (live : catalog.documents.keys.Perm (ids ++ others)) :
    (catalog.removeAll ids).documents.keys.Perm others := by
  induction ids generalizing catalog with
  | nil => exact live
  | cons head rest ih =>
      apply ih
      have there : catalog.isLive head = true :=
        OrderedMap.contains_iff.mpr (live.mem_iff.mpr List.mem_cons_self)
      have erased : (catalog.removeDocument head).documents = catalog.documents.erase head := by
        unfold removeDocument
        rw [if_pos there]
        rfl
      rw [erased]
      exact ((OrderedMap.perm_keys_erase there).symm.trans live).cons_inv

end Catalog

/-- The fate of a file depends on its own document only. -/
theorem fateOf_congr {disk : Disk} {existing : OrderedSet Path} {first second : Catalog}
    {file : Path} {id : DocId} (same : first.document? id = second.document? id) :
    fateOf disk existing first file id = fateOf disk existing second file id := by
  unfold fateOf
  rw [same]

section Sweep

variable (disk : Disk) (existing : OrderedSet Path)

/-- The files whose fate passes a test. -/
def withFate (catalog : Catalog) (test : Fate → Bool) (entries : List (Path × DocId)) :
    List (Path × DocId) :=
  entries.filter fun entry => test (fateOf disk existing catalog entry.1 entry.2)

/-- The numbers of the files that do not stay as they are. -/
def stale (catalog : Catalog) (entries : List (Path × DocId)) : List DocId :=
  (withFate disk existing catalog (· != .same) entries).map Prod.snd

theorem withFate_cons (catalog : Catalog) (test : Fate → Bool) (entry : Path × DocId)
    (rest : List (Path × DocId)) :
    withFate disk existing catalog test (entry :: rest) =
      if test (fateOf disk existing catalog entry.1 entry.2) then
        entry :: withFate disk existing catalog test rest
      else withFate disk existing catalog test rest := List.filter_cons

/-- Removing a document changes no other fate. -/
theorem withFate_removeDocument {catalog : Catalog} {id : DocId} {entries : List (Path × DocId)}
    (other : id ∉ entries.map Prod.snd) (test : Fate → Bool) :
    withFate disk existing (catalog.removeDocument id) test entries =
      withFate disk existing catalog test entries := by
  apply List.filter_congr
  intro entry member
  rw [fateOf_congr]
  rw [Catalog.document?_removeDocument, if_neg]
  intro same
  exact other (same ▸ List.mem_map_of_mem member)

/-- A sweep deals with each file by its fate in the catalog at the start. -/
theorem sweep_eq {catalog : Catalog} {entries : List (Path × DocId)}
    (distinct : (entries.map Prod.snd).Nodup) :
    sweep disk existing catalog entries =
      ⟨(withFate disk existing catalog (· == .gone) entries).map Prod.fst,
        (withFate disk existing catalog (· == .changed) entries).map Prod.fst,
        catalog.removeAll (stale disk existing catalog entries)⟩ := by
  induction entries generalizing catalog with
  | nil => rfl
  | cons entry rest ih =>
      obtain ⟨file, id⟩ := entry
      rw [List.map_cons, List.nodup_cons] at distinct
      have unmoved : ∀ test, withFate disk existing (catalog.removeDocument id) test rest =
          withFate disk existing catalog test rest :=
        withFate_removeDocument disk existing distinct.1
      rw [sweep]
      cases fate : fateOf disk existing catalog file id with
      | same => simp [stale, withFate_cons, fate, ih distinct.2]
      | gone => simp [stale, withFate_cons, fate, ih distinct.2, unmoved, Catalog.removeAll]
      | changed => simp [stale, withFate_cons, fate, ih distinct.2, unmoved, Catalog.removeAll]

/-- A file is gone when no spelling of its path is found any more. -/
theorem fateOf_eq_gone {catalog : Catalog} {file : Path} {id : DocId} :
    fateOf disk existing catalog file id = .gone ↔ existing.contains file = false := by
  unfold fateOf
  by_cases there : existing.contains file = true
  · rw [there, Bool.not_true, if_neg Bool.false_ne_true]
    constructor
    · intro gone
      split at gone
      next => cases gone
      next =>
        split at gone
        next =>
          split at gone <;> cases gone
        next => cases gone
    · intro missing
      cases missing
  · rw [Bool.eq_false_iff.mpr there]
    exact ⟨fun _ => rfl, fun _ => rfl⟩

/-- A file that stays was not written later than is known of it. -/
theorem not_later_of_same {catalog : Catalog} {file : Path} {id : DocId} {document : Document}
    {modified : Int} (same : fateOf disk existing catalog file id = .same)
    (found : catalog.document? id = some document) (written : disk.modified? file = some modified) :
    compare (disk.zone.moment modified) document.facts.modified ≠ .gt := by
  intro later
  unfold fateOf at same
  rw [found, written] at same
  simp only [later] at same
  split at same
  next => cases same
  next => cases same

/-- Files that exist either stay or have changed. -/
theorem perm_withFate (catalog : Catalog) (entries : List (Path × DocId)) :
    (withFate disk existing catalog (· == .same) entries ++
      withFate disk existing catalog (· == .changed) entries).Perm
      (entries.filter fun entry => existing.contains entry.1) := by
  have split := List.filter_append_perm
    (fun entry : Path × DocId => fateOf disk existing catalog entry.1 entry.2 == .same)
    (entries.filter fun entry => existing.contains entry.1)
  rw [List.filter_filter, List.filter_filter] at split
  refine List.Perm.trans (List.Perm.of_eq ?_) split
  have each : ∀ entry : Path × DocId, existing.contains entry.1 =
      (fateOf disk existing catalog entry.1 entry.2 != .gone) := by
    intro entry
    rw [Bool.eq_iff_iff, bne_iff_ne, ne_eq, fateOf_eq_gone, Bool.not_eq_false]
  unfold withFate
  congr 1
  · apply List.filter_congr
    intro entry _
    rw [each]
    cases fateOf disk existing catalog entry.1 entry.2 <;> rfl
  · apply List.filter_congr
    intro entry _
    rw [each]
    cases fateOf disk existing catalog entry.1 entry.2 <;> rfl

/-- Every file has one fate. -/
theorem length_withFate (catalog : Catalog) (entries : List (Path × DocId)) :
    (withFate disk existing catalog (· == .same) entries).length +
      (withFate disk existing catalog (· == .gone) entries).length +
        (withFate disk existing catalog (· == .changed) entries).length = entries.length := by
  induction entries with
  | nil => rfl
  | cons entry rest ih =>
      simp only [withFate_cons]
      rw [List.length_cons, ← ih]
      cases fateOf disk existing catalog entry.1 entry.2 with
      | same => simp; omega
      | gone => simp; omega
      | changed => simp; omega

/-- The numbers of tracked files are those of stale ones and of those that stay the same. -/
theorem perm_stale (catalog : Catalog) (entries : List (Path × DocId)) :
    (stale disk existing catalog entries ++
      (withFate disk existing catalog (· == .same) entries).map Prod.snd).Perm
      (entries.map Prod.snd) := by
  have split := List.filter_append_perm
    (fun entry : Path × DocId => fateOf disk existing catalog entry.1 entry.2 != .same) entries
  have opposite : ∀ entry : Path × DocId,
      (!(fateOf disk existing catalog entry.1 entry.2 != .same)) =
        (fateOf disk existing catalog entry.1 entry.2 == .same) := by
    intro entry
    rw [bne, Bool.not_not]
  simp only [opposite] at split
  have whole := split.map Prod.snd
  rwa [List.map_append] at whole

end Sweep

end Concordance
