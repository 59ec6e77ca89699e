import Concordance.Proofs.Catalog.Operation
import Concordance.Proofs.Watch.Tracking

/-! All numbers that are given in a run, whoever asks for them. -/
namespace Concordance

namespace Notice

/-- Notices that lead from one counter to another. -/
inductive Traces : DocId → List Notice → DocId → Prop where
  | nil (nextId : DocId) : Traces nextId [] nextId
  | taken {nextId last : DocId} {notices : List Notice} (rest : Traces (nextId + 1) notices last) :
      Traces nextId (.taken nextId :: notices) last
  | restored {nextId last other : DocId} {notices : List Notice}
      (rest : Traces other notices last) : Traces nextId (.restored other :: notices) last

variable {first middle last id : DocId} {notices more before between after : List Notice}

/-- A counter that stays where it is traces nothing. -/
theorem Traces.of_eq (same : last = first) : Traces first [] last := same ▸ .nil first

/-- Two traces one after another are one. -/
theorem Traces.append (left : Traces first notices middle) (right : Traces middle more last) :
    Traces first (notices ++ more) last := by
  induction left with
  | nil => exact right
  | taken _ ih => exact (ih right).taken
  | restored _ ih => exact (ih right).restored

/-- A trace of notices before others leads to where the trace of the others starts. -/
theorem Traces.split (whole : Traces first (notices ++ more) last) :
    ∃ middle, Traces first notices middle ∧ Traces middle more last := by
  induction notices generalizing first with
  | nil => exact ⟨first, .nil first, whole⟩
  | cons notice rest ih =>
      cases whole with
      | taken whole =>
          obtain ⟨middle, left, right⟩ := ih whole
          exact ⟨middle, left.taken, right⟩
      | restored whole =>
          obtain ⟨middle, left, right⟩ := ih whole
          exact ⟨middle, left.restored, right⟩

/-- All of these are numbers that were taken. -/
def AllTaken (notices : List Notice) : Prop := ∀ notice ∈ notices, ∃ id, notice = .taken id

/-- The counter has gone up by one for every number since the last time it was put back. -/
theorem Traces.cases_restored (traces : Traces first notices last) :
    AllTaken notices ∧ last = first + .ofNat notices.length ∨
      ∃ front other back, notices = front ++ .restored other :: back ∧ AllTaken back ∧
        last = other + .ofNat back.length := by
  induction traces with
  | nil nextId => exact .inl ⟨fun _ member => absurd member List.not_mem_nil, by simp⟩
  | @taken nextId last notices rest ih =>
      rcases ih with ⟨all, count⟩ | ⟨front, other, back, split, all, count⟩
      · refine .inl ⟨fun notice member => ?_, ?_⟩
        · rcases List.mem_cons.mp member with rfl | later
          · exact ⟨nextId, rfl⟩
          · exact all notice later
        · rw [count, List.length_cons, UInt64.ofNat_add, UInt64.add_assoc,
            UInt64.add_comm (.ofNat notices.length)]
          rfl
      · exact .inr ⟨.taken nextId :: front, other, back, congrArg _ split, all, count⟩
  | @restored nextId last other notices rest ih =>
      rcases ih with ⟨all, count⟩ | ⟨front, later, back, split, all, count⟩
      · exact .inr ⟨[], other, notices, rfl, all, count⟩
      · exact .inr ⟨.restored other :: front, later, back, congrArg _ split, all, count⟩

/-- Where a number is taken twice, the counter was put back in between to where counting reaches the
number again, or it has come round. -/
theorem Traces.repeated
    (traces : Traces first (before ++ .taken id :: between ++ .taken id :: after) last) :
    (∃ front other back, between = front ++ .restored other :: back ∧ AllTaken back ∧
      id = other + .ofNat back.length) ∨ UInt64.size ≤ between.length + 1 := by
  obtain ⟨_, begun, ended⟩ := traces.split
  obtain ⟨_, -, begun⟩ := begun.split
  cases begun with
  | taken begun =>
      cases ended with
      | taken _ =>
          rcases begun.cases_restored with ⟨-, count⟩ | restored
          · right
            -- From a number to itself the counter has gone all the way round.
            have round := congrArg UInt64.toNat count
            rw [UInt64.toNat_add, UInt64.toNat_add, UInt64.toNat_one, UInt64.toNat_ofNat'] at round
            have size : UInt64.size = 2 ^ 64 := rfl
            have small := id.toNat_lt_size
            omega
          · exact .inl restored

end Notice

namespace Catalog

open Notice (Traces)

variable {first now next last : Catalog} {notices : List Notice}

/-- The notices of an operation tell what happens to the counter. -/
theorem Operation.traces (operation : Operation now notices next) :
    Traces now.nextId notices next.nextId := by
  cases operation with
  | allocate => exact (Traces.nil _).taken
  | addDocument => exact .nil _
  | comment => exact .nil _
  | uncomment => exact .nil _
  | rate => exact .nil _
  | removeDocument id => exact .of_eq (nextId_removeDocument now id)
  | addPlace word id offset => exact .of_eq (sameDocuments_addPlace now word id offset).nextId
  | tidy word => exact .of_eq (sameDocuments_tidy now word).nextId
  | tidyAll => exact .of_eq (sameDocuments_tidyWords now _).nextId
  | clear => exact .nil _
  | keepMean => exact .nil _
  | log => exact .nil _
  | reload => exact (Traces.nil _).restored

/-- A run is traced by its notices. -/
theorem Run.traces (run : Run first notices last) : Traces first.nextId notices last.nextId := by
  induction run with
  | start => exact .nil _
  | step _ operation ih => exact ih.append operation.traces

/-- A sweep is a run of operations that gives no number. -/
theorem run_sweep (disk : Disk) (existing : OrderedSet Path) (now : Catalog)
    (files : List (Path × DocId)) : Run now [] (sweep disk existing now files).catalog := by
  induction files generalizing now with
  | nil => exact .start
  | cons entry rest ih =>
      unfold sweep
      split
      next => exact ih now
      next => exact (Run.single (.removeDocument now entry.2)).trans (ih _)
      next => exact (Run.single (.removeDocument now entry.2)).trans (ih _)

/-- Files that are indexed take the numbers that are reported for them. -/
theorem run_indexFiles (now : Catalog) (extensions : ExtensionSettings) (disk : Disk)
    (paths : List Path) :
    Run now (((now.indexFiles extensions disk paths).1.map Prod.snd).map .taken)
      (now.indexFiles extensions disk paths).2 := by
  rw [List.map_map]
  exact run_registerAll now _

/-- Indexing a path is a run of operations that gives the numbers it returns. -/
theorem run_index {extensions : ExtensionSettings} {disk : Disk} {path : Path} {ids : List DocId}
    (indexed : now.index extensions disk path = .ok (ids, next)) :
    Run now (ids.map .taken) next := by
  rw [index_eq] at indexed
  cases read : Indexable.ofRoot extensions disk path with
  | error fault =>
      rw [read] at indexed
      cases indexed
  | ok items =>
      rw [read] at indexed
      cases indexed
      rw [List.map_map]
      exact run_registerAll now items

/-- Indexing one file is a run of operations that gives at most one number. -/
theorem run_indexFile {extensions : ExtensionSettings} {disk : Disk} {path : Path}
    {id : Option DocId} (indexed : now.indexFile extensions disk path = .ok (id, next)) :
    Run now (id.toList.map .taken) next := by
  unfold indexFile at indexed
  cases read : Indexable.ofFile extensions disk path with
  | error fault =>
      rw [read] at indexed
      cases indexed
  | ok item =>
      rw [read] at indexed
      cases item with
      | none =>
          cases indexed
          exact .start
      | some item =>
          cases indexed
          exact run_register now item

end Catalog

namespace Watched

variable (watched : Watched) (settings : Settings) (disk : Disk) (catalog : Catalog)
  (existing : OrderedSet Path)

/-- The files that a sync indexes, in the order in which it does. -/
def batch : List Path :=
  let swept := sweep disk existing catalog watched.files.entries
  let kept := watched.files.filter fun file _ =>
    !swept.gone.contains file && !swept.changed.contains file
  let waiting := (watched.fresh existing ++ swept.changed).mergeSort fun first second =>
    (compare first second).isLE
  waiting.take (room settings.watch.maxFilesPerPath kept.size waiting.length)

/-- The files that become documents in a sync, with the numbers that they are given. -/
def intake : List (Path × DocId) × Catalog :=
  (sweep disk existing catalog watched.files.entries).catalog.indexFiles settings.extensions disk
    (watched.batch settings disk catalog existing)

/-- The numbers that a sync gives. -/
def numbers : List DocId := (watched.intake settings disk catalog existing).1.map Prod.snd

/-- After the documents of files that are gone or have changed, a sync only indexes its files. -/
theorem catalog_syncFiles : (watched.syncFiles settings disk catalog existing).catalog =
    (watched.intake settings disk catalog existing).2 := rfl

/-- A sync takes a number for each file that becomes a document. -/
theorem run_syncFiles : catalog.Run ((watched.numbers settings disk catalog existing).map .taken)
    (watched.syncFiles settings disk catalog existing).catalog := by
  have swept := Catalog.run_sweep disk existing catalog watched.files.entries
  rw [catalog_syncFiles]
  exact swept.trans (Catalog.run_indexFiles ..)

/-- A number that is tracked was tracked before or has just been given. -/
theorem mem_values_track {files : OrderedMap Path DocId} {indexed : List (Path × DocId)}
    {id : DocId} (member : id ∈ (track files indexed).values) :
    id ∈ files.values ∨ id ∈ indexed.map Prod.snd := by
  induction indexed generalizing files with
  | nil => exact .inl member
  | cons entry rest ih =>
      rcases ih member with before | later
      · have added := OrderedMap.perm_values_insert files entry.1 entry.2
        have whole := OrderedMap.perm_values_erase files entry.1
        rcases List.mem_cons.mp (added.mem_iff.mp before) with rfl | old
        · exact .inr List.mem_cons_self
        · exact .inl (whole.mem_iff.mpr (List.mem_append_right _ old))
      · exact .inr (List.mem_cons_of_mem _ later)

/-- What is tracked after a sync was tracked before, or it has been given by the sync. -/
theorem mem_values_syncFiles {id : DocId}
    (member : id ∈ (watched.syncFiles settings disk catalog existing).watched.files.values) :
    id ∈ watched.files.values ∨ id ∈ watched.numbers settings disk catalog existing := by
  rcases mem_values_track member with kept | new
  · obtain ⟨entry, held, rfl⟩ := List.mem_map.mp kept
    exact .inl (List.mem_map_of_mem (List.mem_of_mem_filter held))
  · exact .inr new

end Watched

namespace Tracking

/-- The numbers that syncing one path gives, of which this has been tracked. -/
def numbers (now : Tracking) (settings : Settings) (root : Path) (tracked : Watched) : List DocId :=
  tracked.numbers settings now.disk now.catalog (eligible settings now.disk root)

/-- The numbers that syncing paths one after another gives. -/
def numbersOf (now : Tracking) (settings : Settings) : List Path → List DocId
  | [] => []
  | root :: rest =>
      now.numbers settings root ((now.watch.roots.get? root).getD .empty) ++
        (now.turn settings root).numbersOf settings rest

/-- What a rebuild starts from. -/
def forgotten (now : Tracking) : Tracking :=
  { now with watch := now.watch.forgotten, catalog := now.catalog.clear }

/-- One call of a catalog, of indexing or of a daemon, with the numbers that it gives. Settings may
be others each time, the disk may change in any way, and a new daemon tracks nothing. -/
inductive Call : Tracking → List Notice → Tracking → Prop where
  | operation {now : Tracking} {notices : List Notice} {next : Catalog}
      (operation : now.catalog.Operation notices next) :
      Call now notices { now with catalog := next }
  | index {now : Tracking} {extensions : ExtensionSettings} {path : Path} {ids : List DocId}
      {next : Catalog} (indexed : now.catalog.index extensions now.disk path = .ok (ids, next)) :
      Call now (ids.map .taken) { now with catalog := next }
  | indexFile {now : Tracking} {extensions : ExtensionSettings} {path : Path} {id : Option DocId}
      {next : Catalog} (indexed : now.catalog.indexFile extensions now.disk path = .ok (id, next)) :
      Call now (id.toList.map .taken) { now with catalog := next }
  | indexFiles (now : Tracking) (extensions : ExtensionSettings) (paths : List Path) :
      Call now (((now.catalog.indexFiles extensions now.disk paths).1.map Prod.snd).map .taken)
        { now with catalog := (now.catalog.indexFiles extensions now.disk paths).2 }
  | add (now : Tracking) (settings : Settings) (root : Path) :
      Call now ((now.numbers settings root (now.watch.watched root)).map .taken)
        (now.add settings root)
  | sync {now : Tracking} {root : Path} {watched : Watched} (settings : Settings)
      (found : now.watch.roots.get? root = some watched) :
      Call now ((now.numbers settings root watched).map .taken) (now.sync settings root watched)
  | tick (now : Tracking) (settings : Settings) :
      Call now ((now.numbersOf settings now.watch.roots.keys).map .taken) (now.tick settings)
  | rebuild (now : Tracking) (settings : Settings) :
      Call now ((now.forgotten.numbersOf settings now.forgotten.watch.roots.keys).map .taken)
        (now.rebuild settings)
  | remove (now : Tracking) (root : Path) : Call now [] (now.remove root)
  | skip (now : Tracking) : Call now [] { now with watch := now.watch.skip }
  | disk (now : Tracking) (disk : Disk) : Call now [] { now with disk := disk }
  | restart (now : Tracking) : Call now [] { now with watch := .empty }

/-- Calls one after another, with all numbers that they give. -/
inductive Calls (first : Tracking) : List Notice → Tracking → Prop where
  | start : Calls first [] first
  | call {notices more : List Notice} {now next : Tracking} (calls : Calls first notices now)
      (call : Call now more next) : Calls first (notices ++ more) next

/-- What calls give is what happens to the counter, and nothing else is tracked afterwards than
before. -/
structure Gives (now : Tracking) (notices : List Notice) (next : Tracking) : Prop where
  run : now.catalog.Run notices next.catalog
  ids : ∀ id ∈ next.watch.ids, id ∈ now.watch.ids ∨ .taken id ∈ notices

variable {first now next last : Tracking} {notices more : List Notice}

/-- What two runs give one after another is given by both together. -/
theorem Gives.trans (left : now.Gives notices next) (right : next.Gives more last) :
    now.Gives (notices ++ more) last where
  run := left.run.trans right.run
  ids := by
    intro id member
    rcases right.ids id member with before | new
    · exact (left.ids id before).imp_right (List.mem_append_left more)
    · exact .inr (List.mem_append_right notices new)

/-- What is done to the catalog alone leaves what is tracked. -/
theorem gives_of_run {catalog : Catalog} (run : now.catalog.Run notices catalog) :
    now.Gives notices { now with catalog := catalog } := ⟨run, fun _ member => .inl member⟩

/-- A sync gives the numbers of the files that it indexes. -/
theorem gives_sync (now : Tracking) (settings : Settings) (root : Path) {tracked : Watched}
    (files : tracked.files = (now.watch.watched root).files) :
    now.Gives ((now.numbers settings root tracked).map .taken)
      (now.sync settings root tracked) where
  run := Watched.run_syncFiles ..
  ids := by
    intro id member
    have perm := now.watch.perm_ids root
    rw [← files] at perm
    rcases List.mem_append.mp ((Watch.perm_ids_insert ..).mem_iff.mp member) with here | others
    · rcases Watched.mem_values_syncFiles _ _ _ _ _ here with before | new
      · exact .inl (perm.mem_iff.mpr (List.mem_append_left _ before))
      · exact .inr (List.mem_map_of_mem new)
    · exact .inl (perm.mem_iff.mpr (List.mem_append_right _ others))

/-- Syncs give the numbers of the files that they index, one path after another. -/
theorem gives_syncAll (now : Tracking) (settings : Settings) (roots : List Path) :
    now.Gives ((now.numbersOf settings roots).map .taken) (now.syncAll settings roots) := by
  induction roots generalizing now with
  | nil => exact gives_of_run .start
  | cons root rest ih =>
      rw [syncAll_cons, numbersOf, List.map_append]
      exact (gives_sync now settings root (now.watch.files_getD root)).trans (ih _)

/-- A call gives the numbers in its notices. -/
theorem gives_of_call (call : Call now notices next) : now.Gives notices next := by
  cases call with
  | operation operation => exact gives_of_run (.single operation)
  | index indexed => exact gives_of_run (Catalog.run_index indexed)
  | indexFile indexed => exact gives_of_run (Catalog.run_indexFile indexed)
  | indexFiles extensions paths => exact gives_of_run (Catalog.run_indexFiles ..)
  | add settings root =>
      rw [add_eq_sync]
      exact gives_sync now settings root rfl
  | sync settings found => exact gives_sync now settings _ (Watch.files_watched found).symm
  | tick settings => exact gives_syncAll now settings _
  | rebuild settings =>
      have cleared : now.Gives [] now.forgotten := by
        refine ⟨.single (.clear now.catalog), fun id member => ?_⟩
        rw [show now.forgotten.watch.ids = [] from Watch.ids_forgotten] at member
        cases member
      exact cleared.trans (gives_syncAll now.forgotten settings _)
  | remove root =>
      refine ⟨.start, fun id member => .inl ?_⟩
      exact (now.watch.perm_ids root).mem_iff.mpr (List.mem_append_right _ member)
  | skip => exact ⟨.start, fun _ member => .inl member⟩
  | disk => exact ⟨.start, fun _ member => .inl member⟩
  | restart => exact ⟨.start, fun _ member => nomatch member⟩

/-- Calls give the numbers in their notices. -/
theorem gives_of_calls (calls : Calls first notices last) : first.Gives notices last := by
  induction calls with
  | start => exact gives_of_run .start
  | call _ call ih => exact ih.trans (gives_of_call call)

/-- Over all calls, a number is given twice only where in between the catalog went back to a file
from whose counter counting reaches it again, or where all numbers have been given in between. Every
number that is tracked has been given. -/
theorem repeated_of_calls (begun : first.watch.roots = .empty) (calls : Calls first notices last) :
    (∀ before id between after,
      notices = before ++ .taken id :: between ++ .taken id :: after →
      (∃ front nextId back, between = front ++ .restored nextId :: back ∧
        (∀ notice ∈ back, ∃ other, notice = .taken other) ∧ id = nextId + .ofNat back.length) ∨
        UInt64.size ≤ between.length + 1) ∧
    ∀ id ∈ last.watch.ids, .taken id ∈ notices := by
  have gives := gives_of_calls calls
  refine ⟨fun before id between after split => ?_, fun id member => ?_⟩
  · have traces := gives.run.traces
    rw [split] at traces
    exact traces.repeated
  · refine (gives.ids id member).resolve_left fun before => ?_
    unfold Watch.ids at before
    rw [begun] at before
    cases before

/-- The number of the one tracked file has been given when its path was added. -/
theorem repeated_of_calls_tracked :
    let notices : List Notice :=
      (bare.numbers Settings.standard notePath (bare.watch.watched notePath)).map .taken
    bare.watch.roots = .empty ∧ Calls bare notices noted ∧ 1 ∈ noted.watch.ids ∧
      .taken 1 ∈ notices := by
  intro notices
  have calls : Calls bare notices noted :=
    Calls.start.call (.add bare Settings.standard notePath)
  have tracked : 1 ∈ noted.watch.ids := by
    rw [noted_eq.1]
    exact List.mem_singleton_self 1
  exact ⟨rfl, calls, tracked, (repeated_of_calls rfl calls).2 1 tracked⟩

/-- A catalog is written and its first number is taken. After it has gone back to its file, the
number is given once more. -/
theorem repeated_of_reload : ∃ written last,
    bare.catalog.flush 0 bare.disk = .ok () written ∧
    Calls bare [.taken 1, .restored 1, .taken 1] last := by
  have consistent := Catalog.consistent_of_isFirst (.inl ⟨⟨"/"⟩, .empty, rfl⟩)
  have ready : Catalog.IsReady bare.disk bare.catalog.directory := History.isReady_noteDisk
  obtain ⟨written, flushed⟩ := Catalog.flush_eq_ok 0 ready Catalog.checkSpelling_noteDisk
  have read := Catalog.readSnapshot_of_flush ready consistent (by decide +kernel) flushed
  have restored : Catalog.reload written bare.catalog.allocate.2 = .ok () _ :=
    Catalog.reload_of_read read
  have calls := (((Calls.start.call (.disk bare written)).call
    (.operation (.allocate _))).call (.operation (.reload restored))).call
    (.operation (.allocate _))
  exact ⟨written, _, flushed, calls⟩

end Tracking
end Concordance
