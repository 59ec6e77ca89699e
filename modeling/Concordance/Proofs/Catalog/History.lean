import Concordance.Proofs.Catalog.Faithful
import Concordance.Proofs.Catalog.Flush
import Mathlib.Logic.Relation

namespace Concordance

/-- A catalog and its disk, with the files that numbers were given to in memory and on the disk. -/
structure History where
  catalog : Catalog
  disk : Disk
  origins : Origins
  saved : Origins

namespace History

open Catalog

/-- A new catalog in a directory. -/
def start (directory : Path) (usage : UsageLog) (disk : Disk) : History :=
  ⟨.empty directory usage, disk, .none, .none⟩

/-- One thing that is done to a catalog or to its disk. Files are indexed as they are at that time,
and others may change all of the disk but the files of the catalog. -/
inductive Step : History → History → Prop where
  | index {now : History} {extensions : ExtensionSettings} {path : Path} {items : List Indexable}
      {ids : List DocId} {next : Catalog}
      (read : Indexable.ofRoot extensions now.disk path = .ok items)
      (room : now.catalog.nextId.toNat + items.length < UInt64.size)
      (indexed : now.catalog.index extensions now.disk path = .ok (ids, next)) :
      Step now { now with catalog := next, origins := now.origins.assign (ids.zip items) }
  | indexFile {now : History} {extensions : ExtensionSettings} {path : Path}
      {item : Option Indexable} {id : Option DocId} {next : Catalog}
      (read : Indexable.ofFile extensions now.disk path = .ok item)
      (room : now.catalog.nextId.toNat + 1 < UInt64.size)
      (indexed : now.catalog.indexFile extensions now.disk path = .ok (id, next)) :
      Step now { now with
        catalog := next, origins := now.origins.assign (id.toList.zip item.toList) }
  | remove (now : History) (id : DocId) :
      Step now { now with catalog := now.catalog.removeDocument id }
  | tidy (now : History) (word : String) :
      Step now { now with catalog := (now.catalog.tidy word).2 }
  | tidyAll (now : History) : Step now { now with catalog := now.catalog.tidyAll.2 }
  | clear (now : History) : Step now { now with catalog := now.catalog.clear }
  | flush {now : History} {second : Int} {disk : Disk}
      (fits : now.catalog.snapshot.write.length < UInt64.size)
      (flushed : now.catalog.flush second now.disk = .ok () disk) :
      Step now { now with disk := disk, saved := now.origins }
  | reload {now : History} {next : Catalog} (loaded : Catalog.reload now.disk now.catalog = .ok () next) :
      Step now { now with catalog := next, origins := now.saved }
  | reopen {now : History} {next : Catalog}
      (loaded : load now.disk now.catalog.directory = .ok next) :
      Step now { now with catalog := next, origins := now.saved }
  | reopenOrCreate {now : History} {next : Catalog} {disk : Disk}
      (opened : loadOrCreate now.catalog.directory now.disk = .ok next disk) :
      Step now { now with catalog := next, disk := disk, origins := now.saved }
  | others {now : History} {disk : Disk} (ready : IsReady disk now.catalog.directory)
      (kept : disk.read (snapshotPath now.catalog.directory) =
        now.disk.read (snapshotPath now.catalog.directory)) :
      Step now { now with disk := disk }

/-- What holds at every point of a history. -/
structure Sound (history : History) : Prop where
  faithful : history.catalog.snapshot.Faithful history.origins
  ready : IsReady history.disk history.catalog.directory
  saved : ∀ {snapshot}, readSnapshot history.disk history.catalog.directory = .ok snapshot →
    snapshot.Faithful history.saved

/-- A history starts with a catalog that is sound. -/
theorem sound_start {directory : Path} {usage : UsageLog} {disk : Disk}
    (ready : IsReady disk directory) (unwritten : disk.holds (snapshotPath directory) = false) :
    (start directory usage disk).Sound where
  faithful := faithful_empty directory usage .none
  ready := ready
  saved := by
    intro snapshot read
    change readSnapshot disk directory = _ at read
    unfold Disk.holds at unwritten
    unfold readSnapshot Disk.read at read
    split at unwritten
    next => cases unwritten
    next fault missing =>
      rw [missing] at read
      cases read

/-- Something holds of the catalog in memory and of the one that was written last. -/
structure Keeps (Holds : Snapshot → Origins → Prop) (history : History) : Prop where
  here : Holds history.catalog.snapshot history.origins
  ready : IsReady history.disk history.catalog.directory
  saved : ∀ {snapshot}, readSnapshot history.disk history.catalog.directory = .ok snapshot →
    Holds snapshot history.saved

variable {Holds : Snapshot → Origins → Prop}

/-- What holds of a history goes on to hold with another such catalog of the same directory. -/
theorem Keeps.withCatalog {now : History} (keeps : now.Keeps Holds) {next : Catalog}
    {origins : Origins} (holds : Holds next.snapshot origins)
    (same : next.directory = now.catalog.directory) :
    Keeps Holds { now with catalog := next, origins := origins } where
  here := holds
  ready := same ▸ keeps.ready
  saved read := keeps.saved (same ▸ read)

/-- A catalog that is opened is the one that was written last. -/
theorem Keeps.load {now : History} (keeps : now.Keeps Holds) {next : Catalog}
    (loaded : load now.disk now.catalog.directory = .ok next) :
    Keeps Holds { now with catalog := next, origins := now.saved } := by
  obtain ⟨snapshot, read, rfl⟩ := install_of_load loaded
  exact keeps.withCatalog (keeps.saved read) rfl

/-- Every step of a history keeps what is kept by all that is done to a catalog. -/
theorem Keeps.of_step (kept : IsKept Holds) {now next : History} (step : Step now next)
    (keeps : now.Keeps Holds) : next.Keeps Holds := by
  cases step with
  | @index extensions path items ids next read room indexed =>
      rw [index_eq, read] at indexed
      cases indexed
      exact keeps.withCatalog (kept.registerAll keeps.here items room)
        (directory_registerAll now.catalog items)
  | @indexFile extensions path item id next read room indexed =>
      rw [indexFile_eq, read] at indexed
      cases indexed
      have given : ((now.catalog.registerAll item.toList).1.map Prod.snd).head?.toList =
          (now.catalog.registerAll item.toList).1.map Prod.snd := by
        cases item <;> rfl
      have few : now.catalog.nextId.toNat + item.toList.length < UInt64.size := by
        have one : item.toList.length ≤ 1 := by cases item <;> simp
        omega
      rw [given]
      exact keeps.withCatalog (kept.registerAll keeps.here item.toList few)
        (directory_registerAll now.catalog item.toList)
  | remove id =>
      exact keeps.withCatalog (kept.restrict keeps.here (loses_removeDocument now.catalog id))
        (directory_removeDocument now.catalog id)
  | tidy word =>
      exact keeps.withCatalog (kept.restrict keeps.here (loses_tidy now.catalog word))
        (sameDocuments_tidy now.catalog word).directory
  | tidyAll =>
      exact keeps.withCatalog (kept.restrict keeps.here (loses_tidyAll now.catalog))
        (sameDocuments_tidyWords now.catalog _).directory
  | clear => exact keeps.withCatalog (kept.restrict keeps.here (loses_clear now.catalog)) rfl
  | flush fits flushed =>
      refine ⟨keeps.here, (read_of_flush keeps.ready flushed).1, ?_⟩
      intro snapshot read
      rw [readSnapshot_of_flush keeps.ready (kept.consistent keeps.here) fits flushed] at read
      cases read
      exact kept.written keeps.here
  | reload loaded =>
      obtain ⟨snapshot, read, rfl⟩ := install_of_reload loaded
      exact keeps.withCatalog (keeps.saved read) rfl
  | reopen loaded => exact keeps.load loaded
  | @reopenOrCreate next disk opened =>
      obtain ⟨rfl, loaded | rfl⟩ := loadOrCreate_of_isReady keeps.ready opened
      · exact keeps.load loaded
      · exact keeps.withCatalog (kept.empty _ _ now.saved) rfl
  | others ready same =>
      refine ⟨keeps.here, ready, ?_⟩
      intro snapshot read
      unfold readSnapshot at read
      rw [same] at read
      exact keeps.saved read

/-- What every step keeps is kept by a whole history. -/
theorem Keeps.of_run (kept : IsKept Holds) {first last : History}
    (run : Relation.ReflTransGen Step first last) (keeps : first.Keeps Holds) :
    last.Keeps Holds := by
  induction run with
  | refl => exact keeps
  | tail _ step ih => exact ih.of_step kept step

/-- A catalog stays sound over its whole history. -/
theorem sound_of_run {first last : History} (run : Relation.ReflTransGen Step first last)
    (sound : first.Sound) : last.Sound := by
  have keeps := Keeps.of_run isKept_faithful run ⟨sound.faithful, sound.ready, sound.saved⟩
  exact ⟨keeps.here, keeps.ready, keeps.saved⟩

/-- Over every history each live document has the places of the words of the file it was registered
for, and nothing else; all numbers in the catalog have been taken, so the next one is nowhere in
it. -/
theorem places_of_run {directory : Path} {usage : UsageLog} {disk : Disk} {last : History}
    (ready : IsReady disk directory) (unwritten : disk.holds (snapshotPath directory) = false)
    (run : Relation.ReflTransGen Step (start directory usage disk) last) :
    (∀ id document, last.catalog.document? id = some document →
      ∃ item, last.origins id = some item ∧ item.Gives id document ∧
        document.facts.wordCount = UInt64.ofNat item.extraction.words.length ∧
        ∀ word, last.catalog.places word id = Extract.placesOf item.extraction.words word) ∧
    (∀ id, last.catalog.isLive id = true → 1 ≤ id ∧ id ≤ last.catalog.greatestId) ∧
    (∀ word posting, last.catalog.posting? word = some posting →
      ∀ id ∈ posting.documents, 1 ≤ id ∧ id ≤ last.catalog.greatestId) ∧
    last.catalog.isLive last.catalog.allocate.1 = false ∧
    ∀ word posting, last.catalog.posting? word = some posting →
      last.catalog.allocate.1 ∉ posting.documents := by
  have faithful := (sound_of_run run (sound_start ready unwritten)).faithful
  have counts : last.catalog.nextId ≠ 0 := faithful.counts
  have live := numbered_of_faithful faithful
  have posted : ∀ word posting, last.catalog.posting? word = some posting →
      ∀ id ∈ posting.documents, IsTaken last.catalog.nextId id := by
    intro word posting found id member
    have held : (last.catalog.snapshot.places word id).isSome = true := by
      rw [places_snapshot, places_of_posting?_eq_some found]
      exact Posting.mem_documents.mp member
    exact faithful.posted held
  have fresh : ¬IsTaken last.catalog.nextId last.catalog.nextId :=
    fun taken => UInt64.lt_irrefl _ taken.2
  refine ⟨?_, ?_, ?_, ?_, ?_⟩
  · intro id document found
    obtain ⟨item, origin, gives, places⟩ := faithful.original found
    refine ⟨item, origin, gives, ?_, places⟩
    rw [gives.facts_eq]
    rfl
  · exact live
  · exact fun word posting found id member =>
      (isTaken_iff counts id).mp (posted word posting found id member)
  · exact Bool.eq_false_iff.mpr fun found =>
      fresh ((isTaken_iff counts _).mpr (live _ found))
  · exact fun word posting found member => fresh (posted word posting found _ member)

/-- In the root of the disk with one file there is room for the files of a catalog. -/
theorem plain_noteDisk : Disk.Plain noteDisk ⟨"/"⟩ ownNames [] := by
  have free : ∀ name ∈ ownNames, noteDisk.entry? ([] ++ [name]) = none := by decide
  refine ⟨noteDisk.resolve_slash, fun name own => .inl (free name own), ?_⟩
  intro name own below filled
  rw [← Option.not_isSome_iff_eq_none]
  intro found
  have member : [name] ++ below ∈ noteDisk.entries.keys := OrderedMap.contains_iff.mp found
  have only : noteDisk.entries.keys = [[("note.txt" : Bytes)]] := by decide
  rw [only, List.mem_singleton] at member
  exact filled (List.cons.inj member).2

theorem isReady_noteDisk : IsReady noteDisk ⟨"/"⟩ := ⟨[], plain_noteDisk⟩

theorem holds_noteDisk : noteDisk.holds (snapshotPath ⟨"/"⟩) = false := by
  have unwritten := plain_noteDisk.resolve_free (isFileName_of_mem (by decide))
    (Disk.checkSpelling_eq_ok.mpr (by decide)) (by decide : noteDisk.entry? ["meta"] = none)
  unfold Disk.holds Disk.look snapshotPath
  rw [unwritten]

/-- After the file of a disk has been indexed, its word is found at both places. -/
theorem places_of_run_indexed : IsReady noteDisk ⟨"/"⟩ ∧
    noteDisk.holds (snapshotPath ⟨"/"⟩) = false ∧
    ∃ last, Relation.ReflTransGen Step (start ⟨"/"⟩ .empty noteDisk) last ∧
      last.catalog.isLive 1 = true ∧ last.catalog.places "hi" 1 = some (.ofList [0, 3]) := by
  have read := ofFile_notePath ⟨[], []⟩ rfl
  have indexed : (start ⟨"/"⟩ .empty noteDisk).catalog.indexFile ⟨[], []⟩ noteDisk notePath =
      .ok (some 1, ((Catalog.empty ⟨"/"⟩ .empty).register note).2) := by
    rw [indexFile_eq, read]
    rfl
  have step : Step (start ⟨"/"⟩ .empty noteDisk) _ := .indexFile read (by decide) indexed
  have run := Relation.ReflTransGen.single step
  have found : ((Catalog.empty ⟨"/"⟩ .empty).register note).2.document? 1 =
      some (note.document 1) := by
    unfold document?
    rw [documents_register]
    exact OrderedMap.get?_insert_self _ _ _
  obtain ⟨item, origin, -, -, places⟩ :=
    (places_of_run isReady_noteDisk holds_noteDisk run).1 1 _ found
  have same : item = note := (Option.some.inj origin).symm
  have placed : Extract.placesOf note.extraction.words "hi" = some (.ofList [0, 3]) := by
    decide +kernel
  refine ⟨isReady_noteDisk, holds_noteDisk, _, run, Option.isSome_of_eq_some found, ?_⟩
  rw [places, same, placed]

end History
end Concordance
