import Concordance.Proofs.Catalog.Change
import Concordance.Proofs.Catalog.History
import Concordance.Proofs.Retrieval.Search

/-! Whatever has been done to a catalog, it is read back from what it writes. -/
namespace Concordance.Catalog

open Relation Retrieval

/-- A catalog to begin with: an empty one, or one that a directory of some disk holds. -/
def IsFirst (catalog : Catalog) : Prop :=
  (∃ directory usage, catalog = .empty directory usage) ∨
    ∃ disk directory, load disk directory = .ok catalog

variable {first last : Catalog}

/-- A catalog that has been loaded is one to begin with. -/
theorem IsFirst.of_load {disk : Disk} {directory : Path}
    (loaded : load disk directory = .ok first) : IsFirst first := .inr ⟨disk, directory, loaded⟩

/-- A catalog to begin with is consistent. -/
theorem consistent_of_isFirst (begun : IsFirst first) : first.snapshot.Consistent := by
  rcases begun with ⟨directory, usage, rfl⟩ | ⟨disk, directory, loaded⟩
  · exact (faithful_empty directory usage .none).consistent
  · obtain ⟨snapshot, read, rfl⟩ := install_of_load loaded
    obtain ⟨bytes, whole⟩ := ofBytes_of_readSnapshot read
    exact Snapshot.consistent_of_ofBytes whole

/-- A catalog to begin with has the vocabulary of its words. -/
theorem knowsWords_of_isFirst (begun : IsFirst first) : first.KnowsWords := by
  rcases begun with ⟨directory, usage, rfl⟩ | ⟨disk, directory, loaded⟩
  · exact knowsWords_empty directory usage
  · obtain ⟨snapshot, -, rfl⟩ := install_of_load loaded
    exact knowsWords_install _ snapshot

/-- A catalog to begin with remembers no stale mean. -/
theorem knowsMean_of_isFirst (begun : IsFirst first) : first.KnowsMean := by
  rcases begun with ⟨directory, usage, rfl⟩ | ⟨disk, directory, loaded⟩
  · intro generation mean kept
    cases kept
  · obtain ⟨snapshot, -, rfl⟩ := install_of_load loaded
    intro generation mean kept
    cases kept

/-- A catalog stays consistent over any changes. -/
theorem consistent_of_changes (changes : ReflTransGen Change first last)
    (consistent : first.snapshot.Consistent) : last.snapshot.Consistent := by
  induction changes with
  | refl => exact consistent
  | tail _ change ih => exact consistent_of_change change ih

/-- Over any changes the vocabulary stays that of the words. -/
theorem knowsWords_of_changes (changes : ReflTransGen Change first last)
    (known : first.KnowsWords) : last.KnowsWords := by
  induction changes with
  | refl => exact known
  | tail _ change ih => exact knowsWords_of_change change ih

/-- Over changes that can be counted no stale mean is remembered. -/
theorem knowsMean_of_changes (changes : ReflTransGen SteadyChange first last)
    (consistent : first.snapshot.Consistent) (known : first.KnowsMean) :
    last.snapshot.Consistent ∧ last.KnowsMean := by
  induction changes with
  | refl => exact ⟨consistent, known⟩
  | tail _ change ih =>
      exact ⟨consistent_of_change change.1 ih.1, knowsMean_of_change change ih.1 ih.2⟩

/-- Catalogs whose documents are written alike have the same mean. -/
theorem computeMean_of_written_eq
    (same : first.snapshot.written.documents = last.snapshot.written.documents) :
    first.computeMean = last.computeMean := by
  have counts (catalog : Catalog) :
      catalog.snapshot.written.documents.values.map (·.facts.wordCount) =
        catalog.documents.values.map (·.facts.wordCount) := by
    show ((catalog.documents.entries.map _).map Prod.snd).map _ = _
    rw [List.map_map, List.map_map, OrderedMap.values, List.map_map]
    rfl
  exact computeMean_congr (by rw [← counts, ← counts, same])

/-- Catalogs that are written alike cannot be told apart when neither remembers what is stale. -/
theorem alike_of_written_eq (same : first.snapshot.written = last.snapshot.written)
    (begun : first.KnowsWords) (ended : last.KnowsWords) (beginning : first.KnowsMean)
    (ending : last.KnowsMean) : first.Alike last where
  terms := congrArg Snapshot.terms same
  vocabulary := by
    have terms : first.terms = last.terms := congrArg Snapshot.terms same
    rw [begun.vocabulary_eq, ended.vocabulary_eq, terms]
  documents := congrArg Snapshot.documents same
  nextId := congrArg Snapshot.nextId same
  mean := by
    rw [beginning.meanWordCount_eq, ending.meanWordCount_eq]
    exact computeMean_of_written_eq (congrArg Snapshot.documents same)

/-- After any changes the snapshot of a catalog is read back from its bytes, of each path the text. A
catalog that has been written to its directory is opened with that content, and as long as its
changes could be counted every search shows in it what it shows in the catalog that was written,
but for the spelling of paths that are not text and what is read of their files. Where all paths of
documents are text nothing is lost. -/
theorem load_of_changes (begun : IsFirst first) (changes : ReflTransGen Change first last)
    (fits : last.snapshot.write.length < UInt64.size) :
    Snapshot.ofBytes last.snapshot.write = .ok last.snapshot.written ∧
    (last.snapshot.written = last.snapshot ↔
      ∀ document ∈ last.documents.values, document.path.IsText) ∧
    ∀ disk changed now, IsReady disk last.directory → last.flush now disk = .ok () changed →
      ∃ opened, load changed last.directory = .ok opened ∧
        opened.snapshot = last.snapshot.written ∧
        (ReflTransGen SteadyChange first last → ∀ settings files text,
          (searchText settings opened files text).map (List.map Hit.outline) =
              (searchText settings last files text).map (List.map Hit.outline) ∧
          ((∀ document ∈ last.documents.values, document.path.IsText) →
            searchText settings opened files text = searchText settings last files text)) := by
  have consistent := consistent_of_changes changes (consistent_of_isFirst begun)
  have kept : last.snapshot.written = last.snapshot ↔
      ∀ document ∈ last.documents.values, document.path.IsText := Snapshot.written_eq_self_iff
  refine ⟨Snapshot.ofBytes_write consistent fits, kept, ?_⟩
  intro disk changed now ready flushed
  have read := readSnapshot_of_flush ready consistent fits flushed
  have loaded := load_of_isReady (read_of_flush ready flushed).1
  rw [read] at loaded
  let opened := (empty last.directory (readUsage changed last.directory)).install
    last.snapshot.written
  have same : opened.snapshot = last.snapshot.written := rfl
  refine ⟨opened, loaded, same, ?_⟩
  intro steady settings files text
  -- An opened catalog is one to begin with, so it knows its words and its mean as the written one.
  have start := IsFirst.of_load loaded
  have known := knowsWords_of_changes changes (knowsWords_of_isFirst begun)
  have mean := knowsMean_of_changes steady (consistent_of_isFirst begun)
    (knowsMean_of_isFirst begun)
  have alike : opened.Alike last :=
    alike_of_written_eq (by rw [same, Snapshot.written_written]) (knowsWords_of_isFirst start) known
      (knowsMean_of_isFirst start) mean.2
  refine ⟨alike.outline_eq settings files text, fun plain => ?_⟩
  have documents : opened.documents = last.documents :=
    congrArg Snapshot.documents (same.trans (kept.mpr plain))
  exact alike.searchText_eq_of_documents_eq documents settings files text

theorem checkSpelling_noteDisk : ∀ name ∈ ownNames,
    Disk.checkSpelling (Path.child ⟨"/"⟩ name).bytes = .ok () := by
  unfold ownNames
  simp only [List.forall_mem_cons, List.not_mem_nil, false_imp_iff, implies_true, and_true]
  refine ⟨?_, ?_, ?_, ?_⟩ <;> exact Disk.checkSpelling_eq_ok.mpr (by decide)

/-- The disk with one file and a snapshot of any content. -/
def storedDisk (content : Bytes) : Disk := noteDisk.put ["meta"] (.file content 0)

theorem plain_storedDisk (content : Bytes) : Disk.Plain (storedDisk content) ⟨"/"⟩ ownNames [] :=
  History.plain_noteDisk.put (by decide) content 0

theorem read_storedDisk (content : Bytes) :
    (storedDisk content).read (snapshotPath ⟨"/"⟩) = .ok content :=
  (plain_storedDisk content).read_file (isFileName_of_mem (by decide))
    (checkSpelling_noteDisk "meta" (by decide)) (Disk.entry?_put (by decide) ..)

theorem isDirectory_storedDisk (content : Bytes) :
    (storedDisk content).isDirectory ⟨"/"⟩ = true := by
  unfold Disk.isDirectory Disk.look
  rw [(plain_storedDisk content).resolves]

/-- A catalog of one file is written, opened again, and searched as before. -/
theorem load_of_changes_register :
    let first := Catalog.empty ⟨"/"⟩ .empty
    let last := (first.register note).2
    IsFirst first ∧ ReflTransGen SteadyChange first last ∧
      last.snapshot.write.length < UInt64.size ∧ IsReady noteDisk last.directory ∧
      ∃ changed opened, last.flush 0 noteDisk = .ok () changed ∧
        load changed last.directory = .ok opened ∧ opened.snapshot = last.snapshot ∧
        ∀ settings files text,
          searchText settings opened files text = searchText settings last files text := by
  intro first last
  have begun : IsFirst first := .inl ⟨_, _, rfl⟩
  have numbered : SteadyChange first first.allocate.2 := ⟨.allocate (by decide), by decide⟩
  have one : SteadyChange _ (first.allocate.2.addPlace "hi" 1 0) := ⟨.addPlace .., by decide⟩
  have two : SteadyChange _ ((first.allocate.2.addPlace "hi" 1 0).addPlace "hi" 1 3) :=
    ⟨.addPlace .., by decide +kernel⟩
  have filed : SteadyChange _ (((first.allocate.2.addPlace "hi" 1 0).addPlace "hi" 1 3).addDocument
      (note.document 1)) := ⟨.addDocument (by decide +kernel) .., by decide +kernel⟩
  have words : note.extraction.words = [⟨"hi", 0⟩, ⟨"hi", 3⟩] := by decide +kernel
  have registered : last = ((first.allocate.2.addPlace "hi" 1 0).addPlace "hi" 1 3).addDocument
      (note.document 1) := by
    show (addWords _ 1 note.extraction.words).addDocument _ = _
    rw [words]
    rfl
  have steady : ReflTransGen SteadyChange first last := by
    rw [registered]
    exact (((ReflTransGen.single numbered).tail one).tail two).tail filed
  have each : SteadyChange ≤ Change := fun _ _ change => change.1
  have changes := ReflTransGen.mono each first last steady
  have fits : last.snapshot.write.length < UInt64.size := by decide +kernel
  have ready : IsReady noteDisk last.directory := by
    rw [directory_register]
    exact History.isReady_noteDisk
  have checked : ∀ name ∈ ownNames, Disk.checkSpelling (last.directory.child name).bytes = .ok () := by
    rw [directory_register]
    exact checkSpelling_noteDisk
  have plain : ∀ document ∈ last.documents.values, document.path.IsText := by
    have only : last.documents.values = [note.document 1] := by
      rw [documents_register]
      rfl
    rw [only, List.forall_mem_singleton]
    exact Path.isText_mk _
  obtain ⟨changed, flushed⟩ := flush_eq_ok 0 ready checked
  obtain ⟨-, kept, whole⟩ := load_of_changes begun changes fits
  obtain ⟨opened, loaded, same, found⟩ := whole noteDisk changed 0 ready flushed
  exact ⟨begun, steady, fits, ready, changed, opened, flushed, loaded, same.trans (kept.mpr plain),
    fun settings files text => (found steady settings files text).2 plain⟩

/-- A number that was taken after the last time the catalog was written is yet to be taken once the
catalog has gone back to its file, so a document under it cannot be read back. -/
theorem idBeyondCounter_of_reload : ∃ written reloaded,
    (empty ⟨"/"⟩ .empty).flush 0 noteDisk = .ok () written ∧
    reload written (empty ⟨"/"⟩ .empty).allocate.2 = .ok () reloaded ∧
    Snapshot.ofBytes (reloaded.addDocument
      (note.document (empty ⟨"/"⟩ .empty).allocate.1)).snapshot.write =
        .error (.corrupted .idBeyondCounter) := by
  have consistent := consistent_of_isFirst (.inl ⟨⟨"/"⟩, .empty, rfl⟩)
  have ready : IsReady noteDisk (empty ⟨"/"⟩ .empty).directory := History.isReady_noteDisk
  obtain ⟨written, flushed⟩ := flush_eq_ok 0 ready checkSpelling_noteDisk
  have read := readSnapshot_of_flush ready consistent (by decide +kernel) flushed
  refine ⟨written, _, flushed, reload_of_read read, ?_⟩
  have held : (1 : DocId) ∈ [(1 : DocId)] := List.mem_singleton_self 1
  refine Snapshot.ofBytes_write_of_beyond ?_ (by decide +kernel) held (by decide)
  intro entry member
  rw [List.mem_singleton.mp member]

/-- A document whose path holds a byte that is no text is read back under another path. -/
theorem ofBytes_write_of_stray : ∃ last read, ReflTransGen Change (empty ⟨"/"⟩ .empty) last ∧
    Snapshot.ofBytes last.snapshot.write = .ok read ∧ read ≠ last.snapshot := by
  let last := (empty ⟨"/"⟩ .empty).allocate.2.addDocument
    (.new 1 ⟨[0x61, 0xff]⟩ ⟨.prose, default, 1⟩ .empty)
  have changes : ReflTransGen Change (empty ⟨"/"⟩ .empty) last :=
    (ReflTransGen.single (.allocate (by decide))).tail (.addDocument (by decide +kernel) ..)
  have consistent := consistent_of_changes changes (consistent_of_isFirst (.inl ⟨_, _, rfl⟩))
  refine ⟨last, _, changes, Snapshot.ofBytes_write consistent (by decide +kernel), ?_⟩
  intro same
  have text : Path.IsText ⟨[0x61, 0xff]⟩ :=
    Snapshot.written_eq_self_iff.mp same _ (List.mem_singleton_self _)
  exact absurd text (by decide +kernel)

/-- What is written need not be read back as it was: neither under a number that going back to the file
has given up, nor under a path that is no text. -/
theorem lost_of_write :
    (∃ written reloaded, (empty ⟨"/"⟩ .empty).flush 0 noteDisk = .ok () written ∧
      reload written (empty ⟨"/"⟩ .empty).allocate.2 = .ok () reloaded ∧
      Snapshot.ofBytes (reloaded.addDocument
        (note.document (empty ⟨"/"⟩ .empty).allocate.1)).snapshot.write =
          .error (.corrupted .idBeyondCounter)) ∧
    ∃ last read, ReflTransGen Change (empty ⟨"/"⟩ .empty) last ∧
      Snapshot.ofBytes last.snapshot.write = .ok read ∧ read ≠ last.snapshot :=
  ⟨idBeyondCounter_of_reload, ofBytes_write_of_stray⟩

end Concordance.Catalog
