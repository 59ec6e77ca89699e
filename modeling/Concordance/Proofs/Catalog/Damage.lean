import Concordance.CommandLine.Console
import Concordance.Proofs.Catalog.Operation
import Concordance.Proofs.Truncation

/-! Snapshots that were damaged. -/
namespace Concordance

namespace Snapshot

open Codec

/-- The reader of a document and its number is steady. -/
theorem steady_document : Steady readDocument := by
  refine SteadyBinary.steady.bind fun filed => SteadyBinary.steady.bind fun document => ?_
  split
  next => exact steady_corrupted _
  next => exact .pure _

/-- The reader of everything in a snapshot is steady. -/
theorem steady_parts : Steady readParts :=
  SteadyBinary.steady.bind fun _ => SteadyBinary.steady.bind fun _ =>
    (steady_list steady_document).map _

/-- What is read last of a snapshot fails for bytes that are never written. -/
theorem fault_of_close {snapshot : Snapshot} {bytes left : Bytes} {fault : Fault}
    (failed : close snapshot bytes = .error fault left) : fault.IsCorruption := by
  rcases error_of_bind failed with stuck | ⟨rest, last, -, refused⟩
  · cases stuck
  · split at refused
    next =>
      cases refused
      exact ⟨_, rfl⟩
    next =>
      split at refused
      next =>
        cases refused
        exact ⟨_, rfl⟩
      next => cases refused

/-- Bytes that are no snapshot have run out, or they are corrupted. -/
theorem fault_of_ofBytes {bytes : Bytes} {fault : Fault} (failed : ofBytes bytes = .error fault) :
    fault.IsShortage ∨ fault.IsCorruption := by
  unfold ofBytes at failed
  split at failed
  next => cases failed
  next other left stuck =>
    cases failed
    rw [read_eq] at stuck
    rcases error_of_bind stuck with parts | ⟨snapshot, last, -, refused⟩
    · exact (steady_parts.error parts).imp_right And.left
    · exact .inr (fault_of_close refused)

/-- Bytes whose parts cannot be read are no snapshot. -/
theorem ofBytes_of_parts {bytes left : Bytes} {fault : Fault}
    (failed : readParts bytes = .error fault left) : ofBytes bytes = .error fault := by
  rw [ofBytes, read_eq, bind_of_error failed]

/-- The bytes of a snapshot that were cut off anywhere run out. -/
theorem ofBytes_of_cut {snapshot : Snapshot} {part rest : Bytes}
    (filed : ∀ entry ∈ snapshot.documents.entries, entry.2.id = entry.1)
    (fits : snapshot.write.length < UInt64.size) (whole : snapshot.write = part ++ rest)
    (cut : rest ≠ []) :
    ∃ needed remaining, ofBytes part = .error (.outOfRange needed remaining) := by
  have complete : readParts (part ++ rest) = .ok snapshot.written [] := by
    have parts := reads_parts filed fits []
    rwa [List.append_nil, whole] at parts
  cases begun : readParts part with
  | ok value left =>
      -- What was read would stay read, with the bytes that were cut off behind it.
      have more := steady_parts.ok begun rest
      rw [complete] at more
      have none : [] = left ++ rest := (EStateM.Result.ok.inj more).2
      exact absurd (List.append_eq_nil_iff.mp none.symm).2 cut
  | error fault left =>
      rcases steady_parts.error begun with ⟨needed, remaining, rfl⟩ | ⟨-, again⟩
      · exact ⟨needed, remaining, ofBytes_of_parts begun⟩
      · obtain ⟨last, failed⟩ := again rest
        rw [complete] at failed
        cases failed

/-- The bytes of a snapshot with others after them are refused with the number of these. -/
theorem ofBytes_of_trailing {snapshot : Snapshot} {extra : Bytes}
    (filed : ∀ entry ∈ snapshot.documents.entries, entry.2.id = entry.1)
    (fits : snapshot.write.length < UInt64.size) (more : extra ≠ []) :
    ofBytes (snapshot.write ++ extra) = .error (.corrupted (.trailingBytes extra.length)) := by
  have rest : (get : Reader Bytes) extra = .ok extra extra := rfl
  have some : (!extra.isEmpty) = true := by simpa using more
  have refused : close snapshot.written extra =
      .error (.corrupted (.trailingBytes extra.length)) extra := by
    unfold close
    rw [bind_of_ok rest, if_pos some]
    rfl
  rw [ofBytes, read_eq, bind_of_ok (reads_parts filed fits extra), refused]

end Snapshot

namespace Catalog

open CommandLine (Console Failure)
open CommandLine.Program (openCatalog closeCatalogs)

/-- A directory that is not opened. Whoever tries finds the disk as it was, also after all that has
been opened is written back. -/
structure Refuses (disk : Disk) (directory : Path) (fault : Fault) : Prop where
  opening : load disk directory = .error fault
  making : loadOrCreate directory disk = .error fault disk
  rebuild : fault.requiresRebuild = true
  closing : ∀ (console : Console) now, console.disk = disk → console.catalogs = .empty →
    openCatalog directory console = .error (.unusable directory fault) console ∧
      closeCatalogs now console = .ok () console

variable {disk : Disk} {directory : Path} {bytes : Bytes} {fault : Fault}

/-- A program does not open what cannot be opened, and has nothing to write back then. -/
theorem openCatalog_of_making (making : loadOrCreate directory disk = .error fault disk)
    (rebuild : fault.requiresRebuild = true) {console : Console} (same : console.disk = disk)
    (unopened : console.catalogs = .empty) :
    openCatalog directory console = .error (.unusable directory fault) console := by
  have begun : (get : CommandLine.Program Console) console = .ok console console := rfl
  have tried : CommandLine.Program.act (loadOrCreate directory) console =
      .ok (.error fault) console := by
    unfold CommandLine.Program.act
    rw [same, making]
    show EStateM.Result.ok _ { console with disk := disk } = _
    rw [← same]
  have unknown : console.catalogs.contains directory = false := by
    rw [unopened]
    rfl
  unfold openCatalog
  rw [bind_of_ok begun, unknown, if_neg Bool.false_ne_true, bind_of_ok tried]
  show (if fault.requiresRebuild then _ else _ : CommandLine.Program Unit) console = _
  rw [rebuild, if_pos rfl]
  rfl

/-- A console without open catalogs writes nothing when they are closed. -/
theorem closeCatalogs_of_unopened {console : Console} (unopened : console.catalogs = .empty)
    (now : Int) : closeCatalogs now console = .ok () console := by
  have begun : (get : CommandLine.Program Console) console = .ok console console := rfl
  unfold closeCatalogs
  rw [bind_of_ok begun, unopened]
  rfl

/-- A file that cannot be decoded gives its fault. -/
theorem readSnapshot_of_undecoded (found : disk.read (snapshotPath directory) = .ok bytes)
    (undecoded : Snapshot.ofBytes bytes = .error fault) :
    readSnapshot disk directory = .error fault := by
  rw [readSnapshot_eq found, undecoded]

/-- Where a snapshot cannot be read, opening says why, or that the directory is none. -/
theorem load_of_undecoded (found : disk.read (snapshotPath directory) = .ok bytes)
    (undecoded : Snapshot.ofBytes bytes = .error fault) :
    ∃ refusal, load disk directory = .error refusal ∧ refusal.requiresRebuild = true ∧
      (disk.isDirectory directory = true → refusal = fault) := by
  have unread := readSnapshot_of_undecoded found undecoded
  unfold load checkDirectory
  by_cases there : disk.holds directory = true
  · by_cases isDirectory : disk.isDirectory directory = true
    · refine ⟨fault, ?_, ?_, fun _ => rfl⟩
      · rw [isDirectory, there, unread]
        rfl
      · exact (Snapshot.fault_of_ofBytes undecoded).elim Fault.IsShortage.requiresRebuild
          Fault.IsCorruption.requiresRebuild
    · refine ⟨.databasePath directory.text .notADirectory, ?_, rfl, (absurd · isDirectory)⟩
      rw [if_pos ⟨there, Bool.eq_false_iff.mpr isDirectory⟩]
      rfl
  · refine ⟨.databasePath directory.text .missing, ?_, rfl, fun isDirectory => ?_⟩
    · rw [if_neg fun both => there both.1, if_neg there]
      rfl
    · unfold Disk.holds at there
      unfold Disk.isDirectory at isDirectory
      split at isDirectory
      next looked =>
        rw [looked] at there
        exact absurd rfl there
      next => cases isDirectory

/-- A directory with a snapshot that cannot be read is not opened. -/
theorem refuses_of_undecoded (found : disk.read (snapshotPath directory) = .ok bytes)
    (undecoded : Snapshot.ofBytes bytes = .error fault) :
    ∃ refusal, Refuses disk directory refusal ∧
      (disk.isDirectory directory = true → refusal = fault) := by
  obtain ⟨refusal, opening, rebuild, same⟩ := load_of_undecoded found undecoded
  have making : loadOrCreate directory disk = .error refusal disk := by
    rw [loadOrCreate_of_read found, opening]
    rfl
  exact ⟨refusal, ⟨opening, making, rebuild, fun console now here unopened =>
    ⟨openCatalog_of_making making rebuild here unopened, closeCatalogs_of_unopened unopened now⟩⟩,
    same⟩

/-- A catalog does not go back to a snapshot that cannot be read. -/
theorem reload_of_undecoded (found : disk.read (snapshotPath directory) = .ok bytes)
    (undecoded : Snapshot.ofBytes bytes = .error fault) {now : Catalog}
    (same : now.directory = directory) : reload disk now = .error fault now :=
  reload_of_unread (same ▸ readSnapshot_of_undecoded found undecoded)

variable {first last : Catalog} {notices : List Notice}

/-- What any run of operations leaves is written to bytes of which no part and no extension is ever
opened. Wherever a snapshot cannot be read, opening it fails and leaves the disk as it is, and so
does going back to it, which leaves the catalog as it is too. -/
theorem refuses_of_damage (begun : IsFirst first) (run : Run first notices last)
    (fits : last.snapshot.write.length < UInt64.size) :
    (∀ disk directory part rest, last.snapshot.write = part ++ rest → rest ≠ [] →
      disk.isDirectory directory = true → disk.read (snapshotPath directory) = .ok part →
      ∃ needed remaining, Refuses disk directory (.outOfRange needed remaining)) ∧
    (∀ disk directory extra, extra ≠ [] → disk.isDirectory directory = true →
      disk.read (snapshotPath directory) = .ok (last.snapshot.write ++ extra) →
      Refuses disk directory (.corrupted (.trailingBytes extra.length))) ∧
    ∀ disk directory bytes fault, disk.read (snapshotPath directory) = .ok bytes →
      Snapshot.ofBytes bytes = .error fault →
      (∃ refusal, Refuses disk directory refusal ∧
        (disk.isDirectory directory = true → refusal = fault)) ∧
      ∀ now : Catalog, now.directory = directory → reload disk now = .error fault now := by
  have filed := (inPlace_of_run run (inPlace_of_consistent (consistent_of_isFirst begun))).of_mem
  refine ⟨?_, ?_, ?_⟩
  · intro disk directory part rest whole cut isDirectory found
    obtain ⟨needed, remaining, undecoded⟩ := Snapshot.ofBytes_of_cut filed fits whole cut
    obtain ⟨refusal, refused, same⟩ := refuses_of_undecoded found undecoded
    rw [same isDirectory] at refused
    exact ⟨needed, remaining, refused⟩
  · intro disk directory extra more isDirectory found
    obtain ⟨refusal, refused, same⟩ :=
      refuses_of_undecoded found (Snapshot.ofBytes_of_trailing filed fits more)
    rwa [same isDirectory] at refused
  · intro disk directory bytes fault found undecoded
    exact ⟨refuses_of_undecoded found undecoded,
      fun now same => reload_of_undecoded found undecoded same⟩

/-- The snapshot of one file is refused without its last byte, and with a byte too many. -/
theorem refuses_of_damage_last_byte :
    let first := Catalog.empty ⟨"/"⟩ .empty
    let last := (first.register note).2
    IsFirst first ∧ Run first [.taken 1] last ∧ last.snapshot.write.length < UInt64.size ∧
      (∃ needed remaining, Refuses (storedDisk last.snapshot.write.dropLast) ⟨"/"⟩
        (.outOfRange needed remaining)) ∧
      Refuses (storedDisk (last.snapshot.write ++ [0])) ⟨"/"⟩ (.corrupted (.trailingBytes 1)) ∧
      reload (storedDisk []) first = .error (.outOfRange 8 0) first := by
  intro first last
  have begun : IsFirst first := .inl ⟨_, _, rfl⟩
  have run : Run first [.taken 1] last := run_register first note
  have fits : last.snapshot.write.length < UInt64.size := by decide +kernel
  have filled : last.snapshot.write ≠ [] := by decide +kernel
  obtain ⟨cut, trailing, undecoded⟩ := refuses_of_damage begun run fits
  refine ⟨begun, run, fits, ?_, ?_, ?_⟩
  · exact cut _ _ _ [last.snapshot.write.getLast filled] (List.dropLast_append_getLast filled).symm
      (List.cons_ne_nil _ _) (isDirectory_storedDisk _) (read_storedDisk _)
  · exact trailing _ _ [0] (List.cons_ne_nil _ _) (isDirectory_storedDisk _) (read_storedDisk _)
  · exact (undecoded _ _ [] (.outOfRange 8 0) (read_storedDisk []) rfl).2 first rfl

end Catalog
end Concordance
