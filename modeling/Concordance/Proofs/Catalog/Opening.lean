import Concordance.Proofs.Catalog.Damage

/-! What an opened catalog can be relied on for, whoever wrote its file. -/
namespace Concordance

namespace Posting

/-- The documents and the offsets of a posting that is read are the two lists that were there. -/
theorem lists_of_read {bytes rest : Bytes} {posting : Posting}
    (whole : read bytes = .ok posting rest) :
    ∃ left, (Binary.read : Reader (List DocId)) bytes = .ok posting.documents left ∧
      (Binary.read : Reader (List Offsets)) left = .ok posting.places.values rest := by
  obtain ⟨documents, left, first, more⟩ := ok_of_bind whole
  obtain ⟨offsets, last, second, result⟩ := ok_of_bind more
  split at result
  next =>
    split at result
    next =>
      cases result
      exact ⟨left, first, by rw [values_places, second]⟩
    next => cases result
  next => cases result

end Posting

namespace Snapshot

open Codec

/-- Every posting of a snapshot is one that was read. -/
theorem exists_read_of_parts {bytes left : Bytes} {snapshot : Snapshot}
    (parts : readParts bytes = .ok snapshot left) {word : String} {posting : Posting}
    (found : snapshot.terms.get? word = some posting) :
    ∃ bytes rest, Posting.read bytes = .ok posting rest := by
  obtain ⟨nextId, first, -, more⟩ := ok_of_bind parts
  obtain ⟨terms, second, read, more⟩ := ok_of_bind more
  obtain ⟨documents, third, -, result⟩ := ok_of_bind more
  cases result
  obtain ⟨entries, last, listed, result⟩ := ok_of_bind read
  cases result
  have each : ∀ {bytes rest : Bytes} {entry : String × Posting},
      (do
        let key ← Binary.read
        let value ← Binary.read
        return (key, value) : Reader (String × Posting)) bytes = .ok entry rest →
      ∃ bytes rest, Posting.read bytes = .ok entry.2 rest := by
    intro bytes rest entry whole
    obtain ⟨key, left, -, more⟩ := ok_of_bind whole
    obtain ⟨value, last, read, result⟩ := ok_of_bind more
    cases result
    exact ⟨left, rest, read⟩
  exact forall_of_readList each listed (word, posting)
    (OrderedMap.mem_of_mem_ofList (OrderedMap.get?_eq_some_iff.mp found))

/-- Every document is filed under its own number, no place stands under a number that is yet to be
taken, and the documents of known files are those that these give, with the places of their words. -/
structure Exact (snapshot : Snapshot) (origins : Origins) : Prop where
  consistent : snapshot.Consistent
  posted : ∀ {word id}, (snapshot.places word id).isSome = true → id < snapshot.nextId
  original : ∀ {id document item}, origins id = some item →
    snapshot.documents.get? id = some document → item.Gives id document ∧
      ∀ word, snapshot.places word id = Extract.placesOf item.extraction.words word

/-- What only loses something of an exact snapshot is exact. -/
theorem Exact.restrict {snapshot other : Snapshot} {origins : Origins}
    (exact : snapshot.Exact origins) (loses : snapshot.Loses other) : other.Exact origins where
  consistent := exact.consistent.restrict loses.counter fun _ _ found => loses.documents found
  posted found := loses.counter ▸ exact.posted (loses.fewer found)
  original := by
    intro id document item origin found
    obtain ⟨same, places⟩ := exact.original origin (loses.documents found)
    exact ⟨same, fun word => (loses.kept found word).trans (places word)⟩

/-- An exact snapshot is exact after it has been written and read back. -/
theorem Exact.written {snapshot : Snapshot} {origins : Origins} (exact : snapshot.Exact origins) :
    snapshot.written.Exact origins where
  consistent := exact.consistent.written
  posted := exact.posted
  original := by
    intro id document item origin found
    obtain ⟨before, held, rfl⟩ := Option.map_eq_some_iff.mp (snapshot.get?_written _ ▸ found)
    obtain ⟨gives, places⟩ := exact.original origin held
    exact ⟨gives.written, places⟩

end Snapshot

namespace Catalog

/-- Where no place stands under the next number, a file that is registered has the places of its
words. -/
theorem places_register_nextId {catalog : Catalog} (item : Indexable)
    (bare : ∀ word, catalog.places word catalog.nextId = none) (word : String) :
    (catalog.register item).2.places word catalog.nextId =
      Extract.placesOf item.extraction.words word := by
  rw [places_register, if_pos rfl, bare, extend_none]

/-- A registered file has the places of its own words and no others. -/
theorem exact_register {catalog : Catalog} {origins : Origins}
    (exact : catalog.snapshot.Exact origins) (item : Indexable)
    (room : catalog.nextId.toNat + 1 < UInt64.size) :
    (catalog.register item).2.snapshot.Exact (origins.set catalog.nextId item) := by
  have nextId : (catalog.register item).2.snapshot.nextId = catalog.nextId + 1 :=
    nextId_register catalog item
  have documents : ∀ id, (catalog.register item).2.snapshot.documents.get? id =
      if id = catalog.nextId then some (item.document id) else catalog.document? id :=
    document?_register catalog item
  have bare : ∀ word, catalog.places word catalog.nextId = none := by
    intro word
    rw [← Option.not_isSome_iff_eq_none]
    exact fun found => UInt64.lt_irrefl _ (exact.posted found)
  refine ⟨consistent_register exact.consistent item room, ?_, ?_⟩
  · intro word id found
    rw [nextId]
    rw [places_snapshot, places_register] at found
    by_cases same : id = catalog.nextId
    · exact lt_succ room (.inl same)
    · rw [if_neg same] at found
      exact lt_succ room (.inr (exact.posted found))
  · intro id document other origin found
    rw [documents] at found
    simp only [places_snapshot]
    by_cases same : id = catalog.nextId
    · rw [if_pos same] at found
      have item_eq : item = other := Option.some.inj ((if_pos same).symm.trans origin)
      rw [← item_eq, same]
      refine ⟨?_, fun word => places_register_nextId item bare word⟩
      rw [← same]
      exact .inl (Option.some.inj found).symm
    · rw [if_neg same] at found
      obtain ⟨document_eq, places⟩ := exact.original ((if_neg same).symm.trans origin) found
      refine ⟨document_eq, fun word => ?_⟩
      rw [places_register, if_neg same]
      exact places word

/-- Exactness is kept by everything that can be done to a catalog and its files. -/
theorem isKept_exact : IsKept Snapshot.Exact where
  consistent exact := exact.consistent
  empty directory usage origins := by
    refine ⟨(faithful_empty directory usage origins).consistent, ?_, ?_⟩
    · exact fun found => nomatch found
    · exact fun _ found => nomatch found
  register := exact_register
  restrict exact := exact.restrict
  written exact := exact.written

/-- Without known files a snapshot is exact when its places stand under numbers that were taken. -/
theorem exact_none {snapshot : Snapshot} (consistent : snapshot.Consistent)
    (posted : ∀ word posting, snapshot.terms.get? word = some posting →
      ∀ id ∈ posting.documents, id < snapshot.nextId) : snapshot.Exact .none where
  consistent := consistent
  posted := by
    intro word id found
    unfold Snapshot.places at found
    cases held : snapshot.terms.get? word with
    | none =>
        rw [held] at found
        cases found
    | some posting =>
        rw [held] at found
        exact posted word posting held id (Posting.mem_documents.mpr found)
  original origin := nomatch origin

/-- Whatever file is accepted, its counter is above the numbers of its documents, each of which is
filed under its own, and its postings are two lists of one length, the first ascending. Where no
posting names a number that is yet to be taken, every file that is indexed afterwards has in every
word the places that were registered for it, whatever else is done. -/
theorem exact_of_load {disk : Disk} {directory : Path} {catalog : Catalog}
    (loaded : load disk directory = .ok catalog) :
    1 ≤ catalog.nextId ∧
    (∀ id document, catalog.document? id = some document →
      document.id = id ∧ id < catalog.nextId) ∧
    (∀ word posting, catalog.posting? word = some posting →
      posting.documents.Pairwise (· < ·) ∧
      posting.documents.length = posting.places.values.length ∧
      ∃ bytes left rest, (Binary.read : Reader (List DocId)) bytes = .ok posting.documents left ∧
        (Binary.read : Reader (List Offsets)) left = .ok posting.places.values rest) ∧
    ((∀ word posting, catalog.posting? word = some posting →
        ∀ id ∈ posting.documents, id < catalog.nextId) →
      (∀ item word, (catalog.register item).2.places word catalog.allocate.1 =
        Extract.placesOf item.extraction.words word) ∧
      (IsReady disk directory → ∀ last,
        Relation.ReflTransGen History.Step ⟨catalog, disk, .none, .none⟩ last →
        ∀ id document item, last.origins id = some item →
          last.catalog.document? id = some document → item.Gives id document ∧
            ∀ word, last.catalog.places word id =
              Extract.placesOf item.extraction.words word)) := by
  obtain ⟨snapshot, read, rfl⟩ := install_of_load loaded
  obtain ⟨bytes, whole⟩ := ofBytes_of_readSnapshot read
  have consistent := Snapshot.consistent_of_ofBytes whole
  refine ⟨?_, fun id document found => consistent.of_get? found, ?_, fun posted => ⟨?_, ?_⟩⟩
  · have positive : snapshot.nextId.toNat ≠ 0 := fun zero =>
      consistent.counts (UInt64.toNat_inj.mp zero)
    exact UInt64.le_iff_toNat_le.mpr (Nat.one_le_iff_ne_zero.mpr positive)
  · intro word posting found
    obtain ⟨bytes, rest, taken⟩ :=
      Snapshot.exists_read_of_parts (Snapshot.parts_of_ofBytes whole).1 found
    obtain ⟨left, lists⟩ := Posting.lists_of_read taken
    refine ⟨?_, ?_, bytes, left, rest, lists⟩
    · exact posting.sound.ascending.imp Std.compare_eq_lt.mp
    · rw [Posting.values_places]
      exact posting.sound.aligned.symm
  · intro item word
    refine places_register_nextId item (fun word => ?_) word
    rw [← Option.not_isSome_iff_eq_none]
    exact fun found => UInt64.lt_irrefl _ ((exact_none consistent posted).posted found)
  · intro ready last run id document item origin found
    have begun : History.Keeps Snapshot.Exact
        ⟨(empty directory (readUsage disk directory)).install snapshot, disk, .none, .none⟩ := by
      refine ⟨exact_none consistent posted, ready, ?_⟩
      intro other again
      rw [show other = snapshot from Except.ok.inj (again.symm.trans read)]
      exact exact_none consistent posted
    exact (History.Keeps.of_run isKept_exact run begun).here.original origin found

/-- A disk that holds a consistent snapshot is opened with it. -/
theorem load_storedDisk {snapshot : Snapshot} (consistent : snapshot.Consistent)
    (fits : snapshot.write.length < UInt64.size) :
    load (storedDisk snapshot.write) ⟨"/"⟩ =
      .ok ((empty ⟨"/"⟩ (readUsage (storedDisk snapshot.write) ⟨"/"⟩)).install
        snapshot.written) := by
  rw [load_of_isReady ⟨[], plain_storedDisk _⟩, readSnapshot_eq (read_storedDisk _),
    Snapshot.ofBytes_write consistent fits]
  rfl

/-- The catalog of one file is opened, and the file is indexed once more. -/
theorem exact_of_load_reindexed :
    let disk := storedDisk ((empty ⟨"/"⟩ .empty).register note).2.snapshot.write
    ∃ catalog, load disk ⟨"/"⟩ = .ok catalog ∧
      (∀ word posting, catalog.posting? word = some posting →
        ∀ id ∈ posting.documents, id < catalog.nextId) ∧
      IsReady disk ⟨"/"⟩ ∧
      ∃ last, Relation.ReflTransGen History.Step ⟨catalog, disk, .none, .none⟩ last ∧
        last.catalog.isLive 2 = true ∧
        last.catalog.places "hi" 2 = Extract.placesOf note.extraction.words "hi" := by
  intro disk
  have faithful := faithful_register (faithful_empty ⟨"/"⟩ .empty .none) note (by decide)
  have loaded := load_storedDisk faithful.consistent (by decide +kernel)
  have ready : IsReady disk ⟨"/"⟩ := ⟨[], plain_storedDisk _⟩
  have posted : ∀ word posting,
      ((empty ⟨"/"⟩ .empty).register note).2.snapshot.terms.get? word = some posting →
      ∀ id ∈ posting.documents, id < ((empty ⟨"/"⟩ .empty).register note).2.snapshot.nextId := by
    intro word posting found id member
    have held : (((empty ⟨"/"⟩ .empty).register note).2.snapshot.places word id).isSome = true := by
      unfold Snapshot.places
      rw [found]
      exact Posting.mem_documents.mp member
    exact (faithful.posted held).2
  refine ⟨_, loaded, posted, ready, ?_⟩
  generalize opening : (empty ⟨"/"⟩ (readUsage disk ⟨"/"⟩)).install _ = opened at loaded ⊢
  have next : opened.nextId = 2 := by
    rw [← opening]
    exact nextId_register (empty ⟨"/"⟩ .empty) note
  have read : Indexable.ofFile ⟨[], []⟩ disk notePath = .ok (some note) :=
    ofFile_of_found _ rfl rfl (Disk.entry?_put (by decide) ..)
  have indexed : opened.indexFile ⟨[], []⟩ disk notePath =
      .ok (some opened.nextId, (opened.register note).2) := by
    rw [indexFile_eq, read]
    rfl
  have step : History.Step ⟨opened, disk, .none, .none⟩ _ :=
    .indexFile read (by rw [next]; decide) indexed
  have found : (opened.register note).2.document? 2 = some (note.document 2) := by
    rw [document?_register, next, if_pos rfl]
  have origin : (Origins.none.assign ([opened.nextId].zip [note])) 2 = some note := by
    rw [next]
    rfl
  rw [← opening] at loaded
  have exact := ((exact_of_load loaded).2.2.2 posted).2 ready
  rw [opening] at exact
  have run := Relation.ReflTransGen.single step
  exact ⟨_, run, Option.isSome_of_eq_some found, (exact _ run 2 _ note origin found).2 "hi"⟩

/-- A file that names the first number before it was taken. -/
def ghost : Snapshot := ⟨1, .insert .empty "ghost" (Posting.empty.add 1 7), .empty⟩

/-- A file that has a document under no number. -/
def numberless : Snapshot := ⟨1, .empty, .insert .empty 0 (note.document 0)⟩

theorem consistent_ghost : ghost.Consistent where
  filed _ member := absurd member List.not_mem_nil
  counts := by decide
  taken _ member := absurd member List.not_mem_nil

theorem consistent_numberless : numberless.Consistent where
  filed entry member := by
    rw [List.mem_singleton.mp member]
    rfl
  counts := by decide
  taken id member := by
    rw [List.mem_singleton.mp member]
    decide

theorem document?_numberless : numberless.documents.get? 0 = some (note.document 0) :=
  OrderedMap.get?_insert_self ..

theorem posting?_ghost : ghost.terms.get? "ghost" = some (Posting.empty.add 1 7) :=
  OrderedMap.get?_insert_self ..

theorem offsets?_ghost : (Posting.empty.add 1 7).offsets? 1 = some (.ofList [7]) := by
  rw [Posting.offsets?_add, if_pos rfl]
  rfl

/-- Both files are accepted, and the first file that is indexed after the one has a place of a word
that it does not contain. -/
theorem places_of_ghost :
    (∃ catalog, load (storedDisk ghost.write) ⟨"/"⟩ = .ok catalog ∧ catalog.nextId = 1 ∧
      (∃ posting, catalog.posting? "ghost" = some posting ∧ 1 ∈ posting.documents) ∧
      (catalog.register note).1 = 1 ∧
      (catalog.register note).2.places "ghost" 1 = some (.ofList [7]) ∧
      Extract.placesOf note.extraction.words "ghost" = none) ∧
    ∃ catalog, load (storedDisk numberless.write) ⟨"/"⟩ = .ok catalog ∧
      catalog.isLive 0 = true := by
  have offsets : Extract.offsetsOf note.extraction.words "ghost" = [] := by decide +kernel
  have loaded := load_storedDisk consistent_ghost (by decide +kernel)
  generalize opening : (empty ⟨"/"⟩ (readUsage (storedDisk ghost.write) ⟨"/"⟩)).install _ = opened
    at loaded
  have next : opened.nextId = 1 := by
    rw [← opening]
    rfl
  have found : opened.posting? "ghost" = some (Posting.empty.add 1 7) := by
    rw [← opening]
    exact posting?_ghost
  refine ⟨⟨opened, loaded, next, ⟨_, found, ?_⟩, next, ?_, ?_⟩,
    _, load_storedDisk consistent_numberless (by decide +kernel), ?_⟩
  · rw [Posting.mem_documents, offsets?_ghost]
    rfl
  · rw [places_register, offsets, if_pos next.symm]
    exact (places_of_posting?_eq_some found 1).trans offsets?_ghost
  · unfold Extract.placesOf
    rw [offsets]
  · exact Option.isSome_of_eq_some document?_numberless

end Catalog
end Concordance
