import Concordance.Proofs.Catalog.Snapshot
import Concordance.Proofs.Indexing

/-! A catalog is faithful to the files it was built from, whatever is done to it. -/
namespace Concordance

/-- A document that a file gives under a number: the one that is registered, or the one that is read
where that was written. -/
def Indexable.Gives (item : Indexable) (id : DocId) (document : Document) : Prop :=
  document = item.document id ∨ document = (item.document id).written

namespace Indexable.Gives

variable {item : Indexable} {id : DocId} {document : Document}

/-- A document that a file gives is still given by it after it has been written and read back. -/
theorem written (gives : item.Gives id document) : item.Gives id document.written := by
  rcases gives with rfl | rfl
  · exact .inr rfl
  · exact .inr (Document.written_written _)

/-- A document that a file gives under a number has that number. -/
theorem id_eq (gives : item.Gives id document) : document.id = id := by
  rcases gives with rfl | rfl <;> rfl

/-- What is known of a document that a file gives is what is known of the file. -/
theorem facts_eq (gives : item.Gives id document) :
    document.facts = (item.document id).facts := by
  rcases gives with rfl | rfl <;> rfl

end Indexable.Gives

/-- The file that each number was last given to. -/
abbrev Origins := DocId → Option Indexable

namespace Origins

/-- No number has been given. -/
def none : Origins := fun _ => .none

def set (origins : Origins) (id : DocId) (item : Indexable) : Origins := fun other =>
  if other = id then some item else origins other

/-- Numbers are given to files one after another. -/
def assign (origins : Origins) (given : List (DocId × Indexable)) : Origins :=
  given.foldl (fun origins entry => origins.set entry.1 entry.2) origins

end Origins

/-- A number that has been given before the counter reached the next one. -/
def IsTaken (nextId id : DocId) : Prop := id ≠ 0 ∧ id < nextId

theorem toNat_succ {nextId : DocId} (room : nextId.toNat + 1 < UInt64.size) :
    (nextId + 1).toNat = nextId.toNat + 1 := by
  rw [UInt64.toNat_add, UInt64.toNat_one]
  exact Nat.mod_eq_of_lt room

theorem succ_ne_zero {nextId : DocId} (room : nextId.toNat + 1 < UInt64.size) : nextId + 1 ≠ 0 := by
  intro zero
  have wrapped := congrArg UInt64.toNat zero
  rw [toNat_succ room] at wrapped
  cases wrapped

theorem lt_succ {nextId id : DocId} (room : nextId.toNat + 1 < UInt64.size)
    (known : id = nextId ∨ id < nextId) : id < nextId + 1 := by
  rw [UInt64.lt_iff_toNat_lt, toNat_succ room]
  rcases known with rfl | less
  · exact Nat.lt_succ_self _
  · exact Nat.lt_succ_of_lt (UInt64.lt_iff_toNat_lt.mp less)

/-- A number that is taken, or the next one, is taken when the counter has gone up by one. -/
theorem isTaken_succ {nextId id : DocId} (room : nextId.toNat + 1 < UInt64.size)
    (counts : nextId ≠ 0) (known : id = nextId ∨ IsTaken nextId id) : IsTaken (nextId + 1) id := by
  rcases known with rfl | ⟨counted, less⟩
  · exact ⟨counts, lt_succ room (.inl rfl)⟩
  · exact ⟨counted, lt_succ room (.inr less)⟩

namespace Snapshot

/-- The offsets that are recorded of a word in a document. -/
def places (snapshot : Snapshot) (word : String) (id : DocId) : Option Offsets :=
  (snapshot.terms.get? word).bind (·.offsets? id)

/-- Every document is one that its file gives, its places are those of the words of that file, and every
number has been taken. -/
structure Faithful (snapshot : Snapshot) (origins : Origins) : Prop where
  counts : snapshot.nextId ≠ 0
  taken : ∀ {id document}, snapshot.documents.get? id = some document →
    IsTaken snapshot.nextId id
  posted : ∀ {word id}, (snapshot.places word id).isSome = true → IsTaken snapshot.nextId id
  original : ∀ {id document}, snapshot.documents.get? id = some document →
    ∃ item, origins id = some item ∧ item.Gives id document ∧
      ∀ word, snapshot.places word id = Extract.placesOf item.extraction.words word

/-- A faithful snapshot is one that can be read back. -/
theorem Faithful.consistent {snapshot : Snapshot} {origins : Origins}
    (faithful : snapshot.Faithful origins) : snapshot.Consistent := by
  refine ⟨?_, faithful.counts, ?_⟩
  · rintro ⟨id, document⟩ member
    obtain ⟨item, -, gives, -⟩ := faithful.original (OrderedMap.get?_of_mem member)
    exact gives.id_eq
  · intro id member
    obtain ⟨⟨_, document⟩, held, rfl⟩ := List.mem_map.mp member
    exact (faithful.taken (OrderedMap.get?_of_mem held)).2

/-- A snapshot without words and documents is faithful to anything. -/
theorem faithful_of_empty {snapshot : Snapshot} (origins : Origins) (counts : snapshot.nextId ≠ 0)
    (documents : snapshot.documents = .empty) (terms : snapshot.terms = .empty) :
    snapshot.Faithful origins := by
  obtain ⟨nextId, words, filed⟩ := snapshot
  cases documents
  cases terms
  refine ⟨counts, ?_, ?_, ?_⟩
  · intro id document found
    cases found
  · intro word id found
    cases found
  · intro id document found
    cases found

/-- The same counter, with fewer documents and fewer places, but all places of the documents. -/
structure Loses (snapshot other : Snapshot) : Prop where
  counter : other.nextId = snapshot.nextId
  documents : ∀ {id document}, other.documents.get? id = some document →
    snapshot.documents.get? id = some document
  kept : ∀ {id document}, other.documents.get? id = some document →
    ∀ word, other.places word id = snapshot.places word id
  fewer : ∀ {word id}, (other.places word id).isSome = true →
    (snapshot.places word id).isSome = true

/-- A snapshot stays faithful when it loses documents, and places in documents it has not got. -/
theorem Faithful.restrict {snapshot other : Snapshot} {origins : Origins}
    (faithful : snapshot.Faithful origins) (loses : snapshot.Loses other) :
    other.Faithful origins where
  counts := loses.counter ▸ faithful.counts
  taken found := loses.counter ▸ faithful.taken (loses.documents found)
  posted found := loses.counter ▸ faithful.posted (loses.fewer found)
  original := by
    intro id document found
    obtain ⟨item, origin, gives, places⟩ := faithful.original (loses.documents found)
    exact ⟨item, origin, gives, fun word => (loses.kept found word).trans (places word)⟩

/-- A snapshot stays faithful when it is written and read. -/
theorem Faithful.written {snapshot : Snapshot} {origins : Origins}
    (faithful : snapshot.Faithful origins) : snapshot.written.Faithful origins where
  counts := faithful.counts
  taken found := by
    obtain ⟨document, held, -⟩ := Option.map_eq_some_iff.mp (snapshot.get?_written _ ▸ found)
    exact faithful.taken held
  posted := faithful.posted
  original := by
    intro id document found
    obtain ⟨before, held, rfl⟩ := Option.map_eq_some_iff.mp (snapshot.get?_written _ ▸ found)
    obtain ⟨item, origin, gives, places⟩ := faithful.original held
    exact ⟨item, origin, gives.written, places⟩

end Snapshot

namespace Catalog

/-- A snapshot has the places of its catalog. -/
theorem places_snapshot (catalog : Catalog) (word : String) (id : DocId) :
    catalog.snapshot.places word id = catalog.places word id := rfl

/-- A number has been taken exactly when it lies between 1 and the greatest one. -/
theorem isTaken_iff {catalog : Catalog} (counts : catalog.nextId ≠ 0) (id : DocId) :
    IsTaken catalog.nextId id ↔ 1 ≤ id ∧ id ≤ catalog.greatestId := by
  have one : 1 ≤ catalog.nextId := by
    rw [UInt64.le_iff_toNat_le, UInt64.toNat_one]
    have positive : catalog.nextId.toNat ≠ 0 := fun zero => counts (UInt64.toNat_inj.mp zero)
    omega
  have greatest : catalog.greatestId.toNat = catalog.nextId.toNat - 1 :=
    UInt64.toNat_sub_of_le _ _ one
  have counted : id ≠ 0 ↔ 1 ≤ id.toNat := by
    rw [ne_eq, ← UInt64.toNat_inj]
    show ¬id.toNat = 0 ↔ _
    omega
  rw [UInt64.le_iff_toNat_le, UInt64.toNat_one] at one
  rw [IsTaken, counted, UInt64.lt_iff_toNat_lt, UInt64.le_iff_toNat_le, UInt64.le_iff_toNat_le,
    UInt64.toNat_one, greatest]
  omega

/-- The numbers of live documents lie between 1 and the greatest one. -/
theorem numbered_of_faithful {catalog : Catalog} {origins : Origins}
    (faithful : catalog.snapshot.Faithful origins) (id : DocId) (live : catalog.isLive id = true) :
    1 ≤ id ∧ id ≤ catalog.greatestId := by
  obtain ⟨document, held⟩ := Option.isSome_iff_exists.mp live
  exact (isTaken_iff faithful.counts id).mp (faithful.taken held)

/-- An empty catalog is faithful, whatever its numbers are said to come from. -/
theorem faithful_empty (directory : Path) (usage : UsageLog) (origins : Origins) :
    (empty directory usage).snapshot.Faithful origins :=
  Snapshot.faithful_of_empty origins (show (1 : DocId) ≠ 0 by decide) rfl rfl

/-- No place is recorded under the next number. -/
theorem places_nextId {catalog : Catalog} {origins : Origins}
    (faithful : catalog.snapshot.Faithful origins) (word : String) :
    catalog.places word catalog.nextId = none := by
  rw [← Option.not_isSome_iff_eq_none]
  intro found
  have taken : IsTaken catalog.nextId catalog.nextId := faithful.posted found
  exact absurd taken.2 (UInt64.lt_irrefl catalog.nextId)

/-- Registering a file keeps a catalog faithful, where the next number is that of the file. -/
theorem faithful_register {catalog : Catalog} {origins : Origins}
    (faithful : catalog.snapshot.Faithful origins) (item : Indexable)
    (room : catalog.nextId.toNat + 1 < UInt64.size) :
    (catalog.register item).2.snapshot.Faithful (origins.set catalog.nextId item) := by
  have nextId : (catalog.register item).2.snapshot.nextId = catalog.nextId + 1 :=
    nextId_register catalog item
  have documents : ∀ id, (catalog.register item).2.snapshot.documents.get? id =
      if id = catalog.nextId then some (item.document id) else catalog.document? id :=
    document?_register catalog item
  refine ⟨?_, ?_, ?_, ?_⟩
  · rw [nextId]
    exact succ_ne_zero room
  · intro id document found
    rw [nextId]
    rw [documents] at found
    apply isTaken_succ room faithful.counts
    by_cases same : id = catalog.nextId
    · exact .inl same
    · rw [if_neg same] at found
      exact .inr (faithful.taken found)
  · intro word id found
    rw [nextId]
    rw [places_snapshot, places_register] at found
    apply isTaken_succ room faithful.counts
    by_cases same : id = catalog.nextId
    · exact .inl same
    · rw [if_neg same] at found
      exact .inr (faithful.posted found)
  · intro id document found
    rw [documents] at found
    simp only [places_snapshot, places_register]
    by_cases same : id = catalog.nextId
    · rw [if_pos same] at found
      refine ⟨item, if_pos same, .inl (Option.some.inj found).symm, fun word => ?_⟩
      rw [if_pos same, same, places_nextId faithful, extend_none]
    · rw [if_neg same] at found
      obtain ⟨old, origin, gives, places⟩ := faithful.original found
      refine ⟨old, (if_neg same).trans origin, gives, fun word => ?_⟩
      rw [if_neg same]
      exact places word

/-- Removing a document only loses something. -/
theorem loses_removeDocument (catalog : Catalog) (id : DocId) :
    catalog.snapshot.Loses (catalog.removeDocument id).snapshot where
  counter := nextId_removeDocument catalog id
  documents found := document?_of_removeDocument found
  kept _ word := places_removeDocument ..
  fewer := by
    intro word other found
    rwa [places_snapshot, places_removeDocument] at found

/-- Removing a document keeps a catalog faithful. -/
theorem faithful_removeDocument {catalog : Catalog} {origins : Origins}
    (faithful : catalog.snapshot.Faithful origins) (id : DocId) :
    (catalog.removeDocument id).snapshot.Faithful origins :=
  faithful.restrict (loses_removeDocument catalog id)

/-- Tidying loses places in documents that are gone. -/
theorem loses_of_tidied {catalog tidied : Catalog} (same : SameDocuments tidied catalog)
    (lost : ∀ word id, tidied.places word id = catalog.places word id ∨
      catalog.isLive id = false ∧ tidied.places word id = none) :
    catalog.snapshot.Loses tidied.snapshot := by
  have documents : tidied.snapshot.documents = catalog.snapshot.documents := same.documents
  refine ⟨same.nextId, ?_, ?_, ?_⟩
  · intro id document found
    rwa [documents] at found
  · intro id document found word
    rw [documents] at found
    rcases lost word id with kept | ⟨dead, -⟩
    · exact kept
    · have live : catalog.isLive id = true := Option.isSome_of_eq_some found
      rw [live] at dead
      cases dead
  · intro word id found
    rw [places_snapshot] at found ⊢
    rcases lost word id with kept | ⟨-, gone⟩
    · rwa [kept] at found
    · rw [gone] at found
      cases found

/-- Tidying a word only loses something. -/
theorem loses_tidy (catalog : Catalog) (word : String) :
    catalog.snapshot.Loses (catalog.tidy word).2.snapshot := by
  refine loses_of_tidied (sameDocuments_tidy catalog word) fun other id => ?_
  rw [places_tidy]
  split
  next gone => exact .inr ⟨gone.2, rfl⟩
  next => exact .inl rfl

/-- Tidying all words only loses something. -/
theorem loses_tidyAll (catalog : Catalog) : catalog.snapshot.Loses catalog.tidyAll.2.snapshot := by
  refine loses_of_tidied (sameDocuments_tidyWords catalog _) fun other id => ?_
  rw [places_tidyAll]
  split
  next gone => exact .inr ⟨gone, rfl⟩
  next => exact .inl rfl

/-- Clearing a catalog only loses something. -/
theorem loses_clear (catalog : Catalog) : catalog.snapshot.Loses catalog.clear.snapshot where
  counter := rfl
  documents found := nomatch found
  kept found := nomatch found
  fewer found := nomatch found

/-- A cleared catalog is faithful. -/
theorem faithful_clear {catalog : Catalog} {origins : Origins}
    (faithful : catalog.snapshot.Faithful origins) : catalog.clear.snapshot.Faithful origins :=
  faithful.restrict (loses_clear catalog)

/-- What is kept of a snapshot and the files of its numbers by all that is done to a catalog. -/
structure IsKept (Holds : Snapshot → Origins → Prop) : Prop where
  consistent : ∀ {snapshot origins}, Holds snapshot origins → snapshot.Consistent
  empty : ∀ directory usage origins, Holds (empty directory usage).snapshot origins
  register : ∀ {catalog : Catalog} {origins : Origins}, Holds catalog.snapshot origins →
    ∀ item : Indexable, catalog.nextId.toNat + 1 < UInt64.size →
      Holds (catalog.register item).2.snapshot (origins.set catalog.nextId item)
  restrict : ∀ {snapshot other : Snapshot} {origins : Origins}, Holds snapshot origins →
    snapshot.Loses other → Holds other origins
  written : ∀ {snapshot origins}, Holds snapshot origins → Holds snapshot.written origins

/-- After a file is registered there are numbers for those that come after it. -/
theorem room_register {catalog : Catalog} (item : Indexable) {count : Nat}
    (room : catalog.nextId.toNat + (count + 1) < UInt64.size) :
    (catalog.register item).2.nextId.toNat + count < UInt64.size := by
  rw [nextId_register, toNat_succ (by omega)]
  omega

/-- Registering files keeps what registering one of them keeps, as long as the counter does not come
round. -/
theorem IsKept.registerAll {Holds : Snapshot → Origins → Prop} (kept : IsKept Holds)
    {catalog : Catalog} {origins : Origins} (holds : Holds catalog.snapshot origins)
    (items : List Indexable) (room : catalog.nextId.toNat + items.length < UInt64.size) :
    Holds (catalog.registerAll items).2.snapshot
      (origins.assign (((catalog.registerAll items).1.map Prod.snd).zip items)) := by
  induction items generalizing catalog origins with
  | nil => exact holds
  | cons item rest ih =>
      rw [List.length_cons] at room
      exact ih (kept.register holds item (by omega)) (room_register item room)

/-- Faithfulness is kept by everything that can be done to a catalog and its files. -/
theorem isKept_faithful : IsKept Snapshot.Faithful where
  consistent faithful := faithful.consistent
  empty := faithful_empty
  register := faithful_register
  restrict faithful := faithful.restrict
  written faithful := faithful.written

/-- Registering files keeps a catalog faithful when the new numbers come from them. -/
theorem faithful_registerAll {catalog : Catalog} {origins : Origins}
    (faithful : catalog.snapshot.Faithful origins) (items : List Indexable)
    (room : catalog.nextId.toNat + items.length < UInt64.size) :
    (catalog.registerAll items).2.snapshot.Faithful
      (origins.assign (((catalog.registerAll items).1.map Prod.snd).zip items)) :=
  isKept_faithful.registerAll faithful items room

end Catalog

end Concordance
