import Concordance.Proofs.Catalog.Snapshot
import Concordance.Proofs.Disk

namespace Concordance.Catalog

open Disk

/-- The names of the files that a catalog writes in its directory. -/
def ownNames : List Bytes := ["meta", "meta.tmp", "telemetry", "telemetry.tmp"]

/-- The directory is there, and nothing but files stands in the places of the files of a catalog. -/
def IsReady (disk : Disk) (directory : Path) : Prop :=
  ∃ location, Plain disk directory ownNames location

/-- The names of the files of a catalog are plain names of files. -/
theorem isFileName_of_mem {name : Bytes} (own : name ∈ ownNames) : IsFileName name := by
  have all : ∀ name ∈ ownNames, IsFileName name := by decide
  exact all name own

/-- What is known after a file has been replaced. -/
structure Replaced (disk changed : Disk) (directory : Path) (location : Location) (name : Bytes)
    (content : Bytes) (now : Int) : Prop where
  plain : Plain changed directory ownNames location
  checked : checkSpelling (directory.child name).bytes = .ok ()
  written : changed.entry? (location ++ [name]) = some (.file content now)
  others : ∀ other, other ≠ name → other ≠ name ++ ".tmp" →
    changed.entry? (location ++ [other]) = disk.entry? (location ++ [other])

/-- A replaced file has its new content, and no other file of the catalog is touched. -/
theorem replaced_of_replaceFile {disk changed : Disk} {directory : Path} {location : Location}
    {name : Bytes} {content : Bytes} {now : Int} (plain : Plain disk directory ownNames location)
    (own : name ∈ ownNames) (draft : name ++ ".tmp" ∈ ownNames)
    (whole : replaceFile directory name content now disk = .ok () changed) :
    Replaced disk changed directory location name content now := by
  obtain ⟨_, middle, written, renamed⟩ := ok_of_bind whole
  rw [change_eq_ok] at written renamed
  have draft_checked := checkSpelling_of_write written
  have checked := checkSpelling_of_rename renamed
  rw [plain.write_child (isFileName_of_mem draft) draft draft_checked] at written
  cases written
  have ready := plain.put draft content now
  have inside : ∀ other, location ++ [other] ≠ [] := by simp
  have stored := entry?_put (inside (name ++ ".tmp")) disk (.file content now)
    (location ++ [name ++ ".tmp"])
  rw [if_pos rfl] at stored
  rw [ready.rename_child (isFileName_of_mem draft) (isFileName_of_mem own) own draft_checked checked
    stored] at renamed
  cases renamed
  refine ⟨(ready.drop draft).put own content now, checked, ?_, ?_⟩
  · rw [entry?_put (inside name), if_pos rfl]
  · intro other different apart
    have not_below : (location ++ [name ++ ".tmp"]).isPrefixOf (location ++ [other]) = false := by
      rw [Bool.eq_false_iff, ne_eq, List.isPrefixOf_iff_prefix, List.prefix_append_right_inj]
      intro below
      have same : [name ++ ".tmp"] = [other] := below.eq_of_length rfl
      exact apart (List.cons.inj same).1.symm
    rw [entry?_put (inside name), if_neg (by simpa using different), entry?_drop, not_below,
      if_neg (by simp), entry?_put (inside _), if_neg (by simpa using apart)]

/-- Replacing a file of a catalog succeeds where its directory is plain. -/
theorem replaceFile_eq_ok {disk : Disk} {directory : Path} {location : Location} {name : Bytes}
    (content : Bytes) (now : Int) (plain : Plain disk directory ownNames location)
    (own : name ∈ ownNames) (draft : name ++ ".tmp" ∈ ownNames)
    (checked : ∀ name ∈ ownNames, checkSpelling (directory.child name).bytes = .ok ()) :
    ∃ changed, replaceFile directory name content now disk = .ok () changed := by
  have written : disk.write (directory.child (name ++ ".tmp")) content now = _ :=
    plain.write_child (isFileName_of_mem draft) draft (checked _ draft)
  have inside : location ++ [name ++ ".tmp"] ≠ [] := by simp
  have stored := entry?_put inside disk (.file content now) (location ++ [name ++ ".tmp"])
  rw [if_pos rfl] at stored
  have renamed := (plain.put draft content now).rename_child (isFileName_of_mem draft)
    (isFileName_of_mem own) own (checked _ draft) (checked _ own) stored
  exact ⟨_, (bind_of_ok (change_eq_ok.mpr written)).trans (change_eq_ok.mpr renamed)⟩

/-- Where the directory is ready and its paths are short enough, a catalog can be written. -/
theorem flush_eq_ok {catalog : Catalog} {disk : Disk} (now : Int)
    (ready : IsReady disk catalog.directory)
    (checked : ∀ name ∈ ownNames, checkSpelling (catalog.directory.child name).bytes = .ok ()) :
    ∃ changed, catalog.flush now disk = .ok () changed := by
  obtain ⟨location, plain⟩ := ready
  have draft : ("meta" : Bytes) ++ ".tmp" ∈ ownNames := by decide
  obtain ⟨middle, first⟩ := replaceFile_eq_ok catalog.snapshot.write now plain (by decide)
    draft checked
  have snapshot := replaced_of_replaceFile plain (by decide) (by decide) first
  have draft : ("telemetry" : Bytes) ++ ".tmp" ∈ ownNames := by decide
  obtain ⟨changed, second⟩ := replaceFile_eq_ok catalog.usage.write now snapshot.plain (by decide)
    draft checked
  refine ⟨changed, ?_⟩
  unfold flush
  rw [bind_of_ok (makeDirectories_of_resolve plain.resolves), bind_of_ok first]
  exact second

/-- After a catalog has been written, its files are plain and the snapshot is what is read. -/
theorem read_of_flush {catalog : Catalog} {disk changed : Disk} {now : Int}
    (ready : IsReady disk catalog.directory) (whole : catalog.flush now disk = .ok () changed) :
    IsReady changed catalog.directory ∧
      changed.read (snapshotPath catalog.directory) = .ok catalog.snapshot.write := by
  obtain ⟨location, plain⟩ := ready
  obtain ⟨_, same, made, whole⟩ := ok_of_bind whole
  rw [makeDirectories_of_resolve plain.resolves] at made
  cases made
  obtain ⟨_, middle, first, second⟩ := ok_of_bind whole
  have snapshot := replaced_of_replaceFile plain (by decide) (by decide) first
  have usage := replaced_of_replaceFile snapshot.plain (by decide) (by decide) second
  have kept := usage.others "meta" (by decide) (by decide)
  rw [snapshot.written] at kept
  exact ⟨⟨location, usage.plain⟩,
    usage.plain.read_file (isFileName_of_mem (by decide)) snapshot.checked kept⟩

/-- The file of a snapshot is read by decoding its bytes. -/
theorem readSnapshot_eq {disk : Disk} {directory : Path} {bytes : Bytes}
    (found : disk.read (snapshotPath directory) = .ok bytes) :
    readSnapshot disk directory = Snapshot.ofBytes bytes := by
  unfold readSnapshot
  rw [found]
  rfl

/-- A catalog that has been written is read back from its bytes, of its paths the text. -/
theorem readSnapshot_of_flush {catalog : Catalog} {disk changed : Disk} {now : Int}
    (ready : IsReady disk catalog.directory) (consistent : catalog.snapshot.Consistent)
    (fits : catalog.snapshot.write.length < UInt64.size)
    (whole : catalog.flush now disk = .ok () changed) :
    readSnapshot changed catalog.directory = .ok catalog.snapshot.written := by
  rw [readSnapshot_eq (read_of_flush ready whole).2, Snapshot.ofBytes_write consistent fits]

/-- Where a path leads to a directory, opening its catalog is reading its snapshot. -/
theorem load_of_resolve {disk : Disk} {directory : Path} {location : Location}
    (resolves : disk.resolve directory = .ok (.taken location .directory)) :
    load disk directory = (readSnapshot disk directory).map fun snapshot =>
      (empty directory (readUsage disk directory)).install snapshot := by
  have found : disk.look directory = .ok .directory := by
    unfold look
    rw [resolves]
  unfold load checkDirectory holds isDirectory
  rw [found]
  cases readSnapshot disk directory <;> rfl

/-- A ready directory is loaded as its snapshot says, or fails as reading the snapshot does. -/
theorem load_of_isReady {disk : Disk} {directory : Path} (ready : IsReady disk directory) :
    load disk directory = (readSnapshot disk directory).map fun snapshot =>
      (empty directory (readUsage disk directory)).install snapshot := by
  obtain ⟨location, plain⟩ := ready
  exact load_of_resolve plain.resolves

/-- Where the directory is ready, opening or making a catalog leaves the disk as it is. -/
theorem loadOrCreate_of_isReady {disk changed : Disk} {directory : Path} {catalog : Catalog}
    (ready : IsReady disk directory)
    (whole : loadOrCreate directory disk = .ok catalog changed) :
    changed = disk ∧ (load disk directory = .ok catalog ∨ catalog = empty directory .empty) := by
  obtain ⟨state, _, got, whole⟩ := ok_of_bind whole
  cases got
  by_cases written : disk.holds (snapshotPath directory) = true
  · rw [if_pos written, check_eq_ok] at whole
    exact ⟨whole.2, .inl whole.1⟩
  · rw [if_neg written] at whole
    obtain ⟨location, plain⟩ := ready
    obtain ⟨_, _, got, whole⟩ := ok_of_bind whole
    cases got
    obtain ⟨_, same, checked, whole⟩ := ok_of_bind whole
    obtain ⟨_, _, made, whole⟩ := ok_of_bind whole
    rw [(check_eq_ok.mp checked).2, makeDirectories_of_resolve plain.resolves] at made
    cases made
    cases whole
    exact ⟨rfl, .inr rfl⟩

/-- Where the directory is ready and nothing has been written, a catalog is made. -/
theorem loadOrCreate_of_unwritten {disk : Disk} {directory : Path} (ready : IsReady disk directory)
    (unwritten : disk.holds (snapshotPath directory) = false) :
    loadOrCreate directory disk = .ok (empty directory .empty) disk := by
  obtain ⟨location, plain⟩ := ready
  have begun : (get : Disk.Action Disk) disk = .ok disk disk := rfl
  have there : disk.isDirectory directory = true := by
    unfold isDirectory look
    rw [plain.resolves]
  have checked : check (checkDirectory disk directory) disk = .ok () disk := by
    unfold checkDirectory
    rw [if_neg (by simp [there])]
    rfl
  unfold loadOrCreate create
  rw [bind_of_ok begun, unwritten, if_neg Bool.false_ne_true, bind_of_ok begun, bind_of_ok checked,
    bind_of_ok (makeDirectories_of_resolve plain.resolves)]
  rfl

/-- A directory with a snapshot is opened and not made. -/
theorem loadOrCreate_of_read {disk : Disk} {directory : Path} {bytes : Bytes}
    (found : disk.read (snapshotPath directory) = .ok bytes) :
    loadOrCreate directory disk = check (load disk directory) disk := by
  have there : disk.holds (snapshotPath directory) = true := by
    unfold Disk.read at found
    unfold holds
    cases looked : disk.look (snapshotPath directory) with
    | ok entry => rfl
    | error fault =>
        rw [looked] at found
        cases found
  have begun : (get : Disk.Action Disk) disk = .ok disk disk := rfl
  unfold loadOrCreate
  rw [bind_of_ok begun, if_pos there]

/-- A directory that is ready and holds a consistent snapshot is opened with its content. -/
theorem loadOrCreate_eq_ok {disk : Disk} {directory : Path} {snapshot : Snapshot}
    (ready : IsReady disk directory) (consistent : snapshot.Consistent)
    (fits : snapshot.write.length < UInt64.size)
    (found : disk.read (snapshotPath directory) = .ok snapshot.write) :
    loadOrCreate directory disk =
      .ok ((empty directory (readUsage disk directory)).install snapshot.written) disk := by
  rw [loadOrCreate_of_read found, load_of_isReady ready, readSnapshot_eq found,
    Snapshot.ofBytes_write consistent fits]
  rfl

/-- A catalog that has been written is opened with what it has written, as long as nothing else writes
its snapshot. -/
theorem snapshot_of_loadOrCreate {catalog opened : Catalog} {disk changed later left : Disk}
    {now : Int} (ready : IsReady disk catalog.directory)
    (filed : ∀ entry ∈ catalog.documents.entries, entry.2.id = entry.1)
    (fits : catalog.snapshot.write.length < UInt64.size)
    (written : catalog.flush now disk = .ok () changed)
    (kept : later.read (snapshotPath catalog.directory) =
      changed.read (snapshotPath catalog.directory))
    (whole : loadOrCreate catalog.directory later = .ok opened left) :
    left = later ∧ opened.snapshot = catalog.snapshot.written := by
  have bytes := kept.trans (read_of_flush ready written).2
  rw [loadOrCreate_of_read bytes, check_eq_ok] at whole
  obtain ⟨snapshot, read, rfl⟩ := install_of_load whole.1
  rw [readSnapshot_eq bytes] at read
  exact ⟨whole.2, Snapshot.eq_of_ofBytes_write filed fits read⟩

end Concordance.Catalog
