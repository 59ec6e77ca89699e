import Concordance.Proofs.Catalog.Opening
import Mathlib.Data.List.DropRight

/-! The window of the last queries. -/
namespace Concordance

namespace UsageLog

/-- The log in a file. -/
def ofFile (disk : Disk) (path : Path) : Except Fault UsageLog := do
  ofBytes (← (disk.read path).mapError .disk)

theorem ofFile_of_read {disk : Disk} {path : Path} {bytes : Bytes}
    (read : disk.read path = .ok bytes) : ofFile disk path = ofBytes bytes := by
  unfold ofFile
  rw [read]
  rfl

/-- A catalog is opened with the log in its file, or with an empty one. -/
theorem readUsage_eq (disk : Disk) (directory : Path) : Catalog.readUsage disk directory =
    (ofFile disk (Catalog.usagePath directory)).toOption.getD .empty := by
  unfold Catalog.readUsage ofFile
  cases disk.read (Catalog.usagePath directory) <;> rfl

/-- A log in use, with the disk on which it is kept. -/
structure Session where
  log : UsageLog
  disk : Disk

/-- What happens to a log and its disk. -/
inductive Event where
  | record (entry : QueryRecord)
  | found (id : DocId)
  | fetched (id : DocId)
  | forgotten (id : DocId)
  | clear
  | save (directory : Path) (now : Int)
  | load (path : Path)
  | restore (directory : Path)
  | others (disk : Disk)

namespace Event

/-- What an event leaves. A log that cannot be loaded leaves the one in use, or an empty one where it
is restored. -/
def apply (now : Session) : Event → Session
  | record entry => { now with log := now.log.record entry }
  | found id => { now with log := now.log.countQuery id }
  | fetched id => { now with log := now.log.countDownload id }
  | forgotten id => { now with log := now.log.forget id }
  | clear => { now with log := .empty }
  | save directory time =>
      match Catalog.replaceFile directory "telemetry" now.log.write time now.disk with
      | .ok _ disk => { now with disk }
      | .error _ disk => { now with disk }
  | load path =>
      match ofFile now.disk path with
      | .ok log => { now with log }
      | .error _ => now
  | restore directory => { now with log := Catalog.readUsage now.disk directory }
  | others disk => { now with disk }

end Event

/-- The records of the log that was loaded or cleared last, and those that were made since. -/
structure Account where
  kept : List QueryRecord
  since : List QueryRecord

namespace Account

/-- The account of a log that has just been loaded. -/
def ofLog (log : UsageLog) : Account := ⟨log.records.toList, []⟩

def whole (account : Account) : List QueryRecord := account.kept ++ account.since

/-- The account after an event. -/
def after (now : Session) (account : Account) : Event → Account
  | .record entry => { account with since := account.since ++ [entry] }
  | .clear => ⟨[], []⟩
  | .load path =>
      match ofFile now.disk path with
      | .ok log => .ofLog log
      | .error _ => account
  | .restore directory => .ofLog (Catalog.readUsage now.disk directory)
  | _ => account

/-- How many of its records the log still has. -/
def size (account : Account) : Nat :=
  max account.kept.length (min maxQueryRecords account.whole.length)

end Account

/-- A log and its account after events, one after another. -/
def run : Session × Account → List Event → Session × Account
  | state, [] => state
  | (now, account), event :: rest => run (event.apply now, account.after now event) rest

theorem length_kept_le (account : Account) : account.kept.length ≤ account.whole.length := by
  rw [Account.whole, List.length_append]
  exact Nat.le_add_right ..

/-- The log has the last records of its account. -/
def IsWindow (log : UsageLog) (account : Account) : Prop :=
  log.records.toList = account.whole.rtake account.size

theorem toList_record (log : UsageLog) (entry : QueryRecord) :
    (log.record entry).records.toList =
      (if maxQueryRecords ≤ log.records.size then log.records.toList.drop 1
        else log.records.toList) ++ [entry] := by
  obtain ⟨records, accesses⟩ := log
  simp only [record, Array.toList_push]
  split
  · rw [Array.toList_extract, List.extract_eq_take_drop, List.take_of_length_le (by simp)]
  · rfl

section Windows

variable {log : UsageLog} {account : Account}

theorem isWindow_ofLog (log : UsageLog) : log.IsWindow (.ofLog log) := by
  have all : (Account.ofLog log).size = (Account.ofLog log).whole.length := by
    simp only [Account.size, Account.whole, Account.ofLog, List.append_nil]
    omega
  rw [IsWindow, all, List.rtake, Nat.sub_self, List.drop_zero]
  exact (List.append_nil _).symm

theorem size_le (account : Account) : account.size ≤ account.whole.length :=
  Nat.max_le.mpr ⟨length_kept_le account, Nat.min_le_right ..⟩

theorem IsWindow.size_eq (window : log.IsWindow account) : log.records.size = account.size := by
  have few := size_le account
  rw [← Array.length_toList, window, List.rtake, List.length_drop]
  omega

/-- The oldest of the last records leaves them. -/
theorem drop_rtake {whole : List QueryRecord} {count : Nat} (enough : count < whole.length) :
    (whole.rtake (count + 1)).drop 1 = whole.rtake count := by
  have next : whole.length - (count + 1) + 1 = whole.length - count := by omega
  rw [List.rtake, List.rtake, List.drop_drop, next]

theorem IsWindow.record (window : log.IsWindow account) (entry : QueryRecord) :
    (log.record entry).IsWindow { account with since := account.since ++ [entry] } := by
  have few := size_le account
  have some : 0 < maxQueryRecords := by decide
  have kept := length_kept_le account
  have joined : Account.whole { account with since := account.since ++ [entry] } =
      account.whole ++ [entry] := (List.append_assoc ..).symm
  have next : Account.size { account with since := account.since ++ [entry] } =
      max account.kept.length (min maxQueryRecords (account.whole.length + 1)) := by
    rw [Account.size, joined, List.length_append, List.length_singleton]
  have size : account.size = max account.kept.length (min maxQueryRecords account.whole.length) := rfl
  rw [IsWindow, toList_record, window.size_eq, joined, window]
  by_cases full : maxQueryRecords ≤ account.size
  · obtain ⟨count, positive⟩ := Nat.exists_eq_add_of_lt (Nat.lt_of_lt_of_le some full)
    have same : Account.size { account with since := account.since ++ [entry] } = count + 1 := by
      omega
    rw [Nat.zero_add] at positive
    rw [if_pos full, same, positive, List.rtake_concat_succ, drop_rtake (by omega)]
  · have grown : Account.size { account with since := account.since ++ [entry] } =
        account.size + 1 := by
      omega
    rw [if_neg full, grown, List.rtake_concat_succ]

/-- The window is that of the queries that are remembered, unless the log was loaded with more. -/
theorem IsWindow.eq_rtake_iff (window : log.IsWindow account) :
    log.records.toList = account.whole.rtake (min maxQueryRecords account.whole.length) ↔
      account.kept.length ≤ maxQueryRecords := by
  constructor
  · intro same
    have length := congrArg List.length same
    rw [window, List.rtake, List.rtake, List.length_drop, List.length_drop] at length
    have few := size_le account
    simp only [Account.size] at length few
    omega
  · intro short
    have kept := length_kept_le account
    have size : account.size = min maxQueryRecords account.whole.length := by
      simp only [Account.size]
      omega
    rw [window, size]

/-- Every event keeps the window. -/
theorem isWindow_after {now : Session} (window : now.log.IsWindow account) (event : Event) :
    (event.apply now).log.IsWindow (account.after now event) := by
  cases event with
  | record entry => exact window.record entry
  | found => exact window
  | fetched => exact window
  | forgotten => exact window
  | clear => exact isWindow_ofLog .empty
  | save directory time =>
      simp only [Event.apply]
      split <;> exact window
  | load path =>
      simp only [Event.apply, Account.after]
      split
      next log _ => exact isWindow_ofLog log
      next => exact window
  | restore => exact isWindow_ofLog _
  | others => exact window

theorem isWindow_run {now : Session} (window : now.log.IsWindow account) (events : List Event) :
    (run (now, account) events).1.log.IsWindow (run (now, account) events).2 := by
  induction events generalizing now account with
  | nil => exact window
  | cons event rest ih => exact ih (isWindow_after window event)

end Windows

/-- After any events and one more record, the log has the last records of its account, as many as are
remembered or as it was loaded with, whichever are more. It is the window of the queries that are
remembered exactly as long as it was not loaded with more than these. -/
theorem window_of_events (first : Session) (events : List Event) (entry : QueryRecord) :
    let last := (run (first, .ofLog first.log) (events ++ [.record entry])).1
    let account := (run (first, .ofLog first.log) (events ++ [.record entry])).2
    last.log.records.toList = account.whole.rtake
      (max account.kept.length (min maxQueryRecords account.whole.length)) ∧
    (last.log.records.toList = account.whole.rtake (min maxQueryRecords account.whole.length) ↔
      account.kept.length ≤ maxQueryRecords) := by
  intro last account
  have window : last.log.IsWindow account := isWindow_run (isWindow_ofLog first.log) _
  exact ⟨window, window.eq_rtake_iff⟩

section Reading

open Codec

/-- A record is read back where its time is. -/
theorem reads_record {entry : QueryRecord}
    (time : Moment.readIso (entry.time.isoText entry.nanos) = some (entry.time, entry.nanos))
    (fits : (Concordance.write entry).length < UInt64.size) :
    Reads Binary.read (Concordance.write entry) entry := by
  have parts : Concordance.write entry =
      writeText (String.ofList (entry.time.isoText entry.nanos)) ++ (Concordance.write entry.query ++
        (Concordance.write entry.micros ++ Concordance.write entry.results)) := by
    simp only [← List.append_assoc]
    rfl
  rw [parts] at fits ⊢
  simp only [List.length_append] at fits
  refine (reads_text (by omega)).bind ?_
  simp only [String.toList_ofList, time]
  exact (LawfulBinary.reads entry.query (by omega)).bind
    ((LawfulBinary.reads entry.micros (by omega)).bind
      ((LawfulBinary.reads entry.results (by omega)).map _))

theorem write_record_ne_nil (entry : QueryRecord) : Concordance.write entry ≠ [] := by
  simp only [Concordance.write, List.append_assoc]
  exact fun empty => writeText_ne_nil _ (List.append_eq_nil_iff.mp empty).1

instance : LawfulBinary Access where
  write_ne_nil access empty := writeWord_ne_nil access.downloads (List.append_eq_nil_iff.mp empty).1
  reads access _ := (reads_word access.downloads).bind ((reads_word access.queries).map _)

/-- A log is read back where its times are. -/
theorem ofBytes_write {log : UsageLog}
    (times : ∀ entry ∈ log.records.toList,
      Moment.readIso (entry.time.isoText entry.nanos) = some (entry.time, entry.nanos))
    (fits : log.write.length < UInt64.size) : ofBytes log.write = .ok log := by
  unfold UsageLog.write at fits ⊢
  rw [List.length_append] at fits
  have short : (Concordance.write log.records.toList).length < UInt64.size := by omega
  have records : Reads Binary.read (Concordance.write log.records.toList) log.records.toList :=
    reads_list short (fun entry _ => write_record_ne_nil entry)
      fun entry member => reads_record (times entry member)
  have accesses := LawfulBinary.reads log.accesses (by omega)
  have whole : Reads (do
      let records : List QueryRecord ← Binary.read
      return (⟨records.toArray, ← Binary.read⟩ : UsageLog))
      (Concordance.write log.records.toList ++ Concordance.write log.accesses) log :=
    records.bind (accesses.map (UsageLog.mk log.records))
  have read := whole []
  rw [List.append_nil] at read
  unfold ofBytes
  simp only [read]

end Reading

/-- A log that is loaded with more records than are remembered stays as long as it is. -/
theorem run_of_crowded {first : Session} {path : Path} {log : UsageLog}
    (read : ofFile first.disk path = .ok log) (crowded : maxQueryRecords < log.records.size)
    (entry : QueryRecord) :
    let last := run (first, .ofLog first.log) ([.load path] ++ [.record entry])
    last.1.log.records.size = log.records.size ∧ last.2.whole = log.records.toList ++ [entry] ∧
      last.1.log.records.toList ≠
        last.2.whole.rtake (min maxQueryRecords last.2.whole.length) := by
  intro last
  have account : last.2 = ⟨log.records.toList, [entry]⟩ := by
    have loaded : Account.after first (.ofLog first.log) (.load path) = .ofLog log := by
      simp only [Account.after, read]
    show Account.after ((Event.load path).apply first) (Account.after first _ (.load path))
      (.record entry) = _
    rw [loaded]
    rfl
  have whole : last.2.whole = log.records.toList ++ [entry] := by rw [account, Account.whole]
  have window : last.1.log.IsWindow last.2 := isWindow_run (isWindow_ofLog first.log) _
  have size : last.2.size = log.records.size := by
    have length : log.records.toList.length = log.records.size := Array.length_toList
    rw [account]
    show max log.records.toList.length (min maxQueryRecords _) = log.records.size
    omega
  refine ⟨window.size_eq.trans size, whole, fun same => ?_⟩
  have short := window.eq_rtake_iff.mp same
  rw [account, Array.length_toList] at short
  exact Nat.not_lt_of_le short crowded

def oldQuery : QueryRecord := ⟨.ofSeconds 0, 0, "hi", 0, 0⟩

/-- A log with one record more than are remembered. -/
def crowded : UsageLog := ⟨(List.replicate (maxQueryRecords + 1) oldQuery).toArray, .empty⟩

theorem size_crowded : crowded.records.size = maxQueryRecords + 1 := by
  rw [crowded, List.size_toArray, List.length_replicate]

theorem times_crowded : ∀ entry ∈ crowded.records.toList,
    Moment.readIso (entry.time.isoText entry.nanos) = some (entry.time, entry.nanos) := by
  intro entry member
  rw [List.eq_of_mem_replicate member]
  decide +kernel

theorem length_write_crowded : crowded.write.length < UInt64.size := by
  have record : (Concordance.write oldQuery).length = 53 := by decide +kernel
  have accesses : (Concordance.write crowded.accesses).length = 8 := by decide +kernel
  have records : (Concordance.write crowded.records.toList).length =
      8 + (maxQueryRecords + 1) * 53 := by
    show (Codec.writeList Concordance.write (List.replicate (maxQueryRecords + 1) oldQuery)).length = _
    rw [Codec.writeList, List.length_append, Codec.writeLength, Codec.length_writeWord,
      List.length_flatMap, List.map_replicate, List.sum_replicate_nat, record]
  rw [UsageLog.write, List.length_append, records, accesses]
  decide

/-- This log is loaded from its file, and it is as long after one more record. -/
theorem unbounded_of_crowded :
    let path := Catalog.usagePath ⟨"/"⟩
    let first : Session := ⟨.empty, noteDisk.put ["telemetry"] (.file crowded.write 0)⟩
    let last := run (first, .ofLog first.log) ([.load path] ++ [.record oldQuery])
    ofFile first.disk path = .ok crowded ∧ last.1.log.records.size = maxQueryRecords + 1 ∧
      last.2.whole = crowded.records.toList ++ [oldQuery] ∧
      last.1.log.records.toList ≠
        last.2.whole.rtake (min maxQueryRecords last.2.whole.length) := by
  have size := size_crowded
  have whole := ofBytes_write times_crowded length_write_crowded
  generalize crowded = log at size whole ⊢
  intro path first last
  have own : ("telemetry" : Bytes) ∈ Catalog.ownNames := by decide
  have plain := History.plain_noteDisk.put own log.write 0
  have read : first.disk.read path = .ok log.write :=
    plain.read_file (Catalog.isFileName_of_mem own) (Catalog.checkSpelling_noteDisk "telemetry" own)
      (Disk.entry?_put (by decide) ..)
  have loaded : ofFile first.disk path = .ok log := (ofFile_of_read read).trans whole
  have long := run_of_crowded loaded (by omega) oldQuery
  exact ⟨loaded, long.1.trans size, long.2⟩

end UsageLog
end Concordance
