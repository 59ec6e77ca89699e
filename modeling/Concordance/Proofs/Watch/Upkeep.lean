import Concordance.Proofs.Retrieval.Paths
import Concordance.Proofs.Watch.Tick
import Mathlib.Logic.Relation

namespace Concordance

/-- Watched paths, their catalog and the disk, with the content that each document was made of. -/
structure Upkeep where
  watch : Watch
  catalog : Catalog
  disk : Disk
  contents : DocId → Option Bytes

namespace Upkeep

/-- The content of each document once those with new numbers have been made of files of a disk. -/
def contentsAfter (contents : DocId → Option Bytes) (disk : Disk) (before after : Catalog) :
    DocId → Option Bytes := fun id =>
  if id < before.nextId then contents id
  else (after.document? id).bind fun document => (disk.file? document.path).map Prod.fst

/-- The upkeep after a path has been added. -/
def add (now : Upkeep) (settings : Settings) (root : Path) : Upkeep :=
  let result := now.watch.add settings now.disk now.catalog root
  { now with
    watch := result.2.1
    catalog := result.2.2
    contents := contentsAfter now.contents now.disk now.catalog result.2.2 }

/-- The upkeep after a tick. -/
def tick (now : Upkeep) (settings : Settings) : Upkeep :=
  let result := now.watch.tick settings now.disk now.catalog
  { now with
    watch := result.2.1
    catalog := result.2.2
    contents := contentsAfter now.contents now.disk now.catalog result.2.2 }

/-- The number of files that a sync has indexed can still be counted. -/
def Counts (catalog : Catalog) (report : SyncReport) : Prop :=
  catalog.nextId.toNat + report.added + report.updated < UInt64.size

/-- One thing that happens: a path is added, all paths are synced, or the disk changes in any way. -/
inductive Step (settings : Settings) : Upkeep → Upkeep → Prop where
  | add {now : Upkeep} {root : Path} (room : HasRoom settings now.disk root)
      (counts : ∀ report, (now.watch.add settings now.disk now.catalog root).1 = .ok report →
        Counts now.catalog report) :
      Step settings now (now.add settings root)
  | tick {now : Upkeep} (rooms : ∀ root ∈ now.watch.roots.keys, HasRoom settings now.disk root)
      (counts : Counts now.catalog (now.watch.tick settings now.disk now.catalog).1) :
      Step settings now (now.tick settings)
  | files (now : Upkeep) (disk : Disk) : Step settings now { now with disk := disk }

/-- Nothing is watched yet, and the catalog has neither words nor documents. -/
structure IsStart (first : Upkeep) : Prop where
  roots : first.watch.roots = .empty
  documents : first.catalog.documents = .empty
  terms : first.catalog.terms = .empty
  counts : first.catalog.nextId ≠ 0

/-- Wherever a tracked path leads to something else than the content that was indexed, this has changed
in a later second than the one that is recorded. -/
def Noticed (now : Upkeep) : Prop := ∀ root watched, now.watch.roots.get? root = some watched →
  watched.Noticed now.disk (fun id _ => now.contents id) now.catalog

/-- The catalog is in step with the files as they were when they were indexed. -/
def InStep (now : Upkeep) (settings : Settings) : Prop :=
  now.watch.InStep settings.extensions (fun id _ => now.contents id) now.catalog

variable {settings : Settings}

/-- At the start everything is in step. -/
theorem inStep_of_isStart {first : Upkeep} (begun : first.IsStart) : first.InStep settings where
  recorded := by
    refine ⟨⟨.none, Snapshot.faithful_of_empty .none begun.counts begun.documents begun.terms⟩, ?_⟩
    intro id document found
    unfold Catalog.document? at found
    rw [begun.documents] at found
    cases found
  tracks := by
    intro root watched found
    rw [begun.roots] at found
    cases found
  live := by
    unfold Watch.ids
    rw [begun.documents, begun.roots]
    exact .refl _

/-- The content that is told of while a sync goes on: what was noted before, and for new numbers what
the disk holds. -/
def source (now : Upkeep) : Source := fun id path =>
  if id < now.catalog.nextId then now.contents id else (now.disk.file? path).map Prod.fst

theorem source_of_le (now : Upkeep) (id : DocId) (path : Path) (later : now.catalog.nextId ≤ id) :
    now.source id path = (now.disk.file? path).map Prod.fst :=
  if_neg (UInt64.not_lt.mpr later)

/-- The content that a document was made of was noted when it got its number. -/
theorem source_of_document? {now : Upkeep} (inStep : now.InStep settings) {id : DocId}
    {document : Document} (found : now.catalog.document? id = some document) (path : Path) :
    now.source id path = now.contents id := by
  obtain ⟨origins, faithful⟩ := inStep.recorded.faithful
  exact if_pos (faithful.taken found).2

/-- Before a sync the source tells what has been noted. -/
theorem InStep.before {now : Upkeep} (inStep : now.InStep settings) :
    now.watch.InStep settings.extensions now.source now.catalog :=
  inStep.of_source fun _ document found => source_of_document? inStep found document.path

/-- After a sync what the source tells has been noted. -/
theorem inStep_of_source {now : Upkeep} {watch : Watch} {catalog : Catalog}
    (after : watch.InStep settings.extensions now.source catalog) :
    watch.InStep settings.extensions
      (fun id _ => contentsAfter now.contents now.disk now.catalog catalog id) catalog := by
  apply after.of_source
  intro id document found
  unfold contentsAfter source
  rw [found]
  rfl

/-- Whatever happens, the catalog stays in step. -/
theorem inStep_of_step {now next : Upkeep} (step : Step settings now next)
    (inStep : now.InStep settings) : next.InStep settings := by
  cases step with
  | @add root room counts =>
      rw [Watch.add_eq] at counts
      have ready := inStep.before.syncReady now.source_of_le room
      have outcome := ready.outcome (counts _ rfl)
      have after := inStep_of_source (inStep.before.insert outcome)
      unfold add InStep
      rw [Watch.add_eq]
      exact after
  | tick rooms counts =>
      exact inStep_of_source
        (Watch.afterSyncs_syncRoots _ inStep.before now.source_of_le rooms counts).inStep
  | files disk => exact inStep

/-- Over a run everything stays in step. -/
theorem inStep_of_run {first last : Upkeep}
    (run : Relation.ReflTransGen (Step settings) first last) (inStep : first.InStep settings) :
    last.InStep settings := by
  induction run with
  | refl => exact inStep
  | tail _ step ih => exact inStep_of_step step ih

/-- The number of files that a tick would find in all. -/
def total (settings : Settings) (disk : Disk) (watch : Watch) : Nat :=
  (watch.roots.keys.map fun root => (eligible settings disk root).size).sum

/-- A tick takes no more numbers than there are files. -/
theorem counts_tick {now : Upkeep} (inStep : now.InStep settings)
    (rooms : ∀ root ∈ now.watch.roots.keys, HasRoom settings now.disk root)
    (fits : now.catalog.nextId.toNat + total settings now.disk now.watch < UInt64.size) :
    Counts now.catalog (now.watch.tick settings now.disk now.catalog).1 ∧
      (now.tick settings).catalog.nextId.toNat ≤
        now.catalog.nextId.toNat + total settings now.disk now.watch := by
  have few := inStep.before.report_le _ now.source_of_le rooms fits
  have counts : Counts now.catalog (now.watch.tick settings now.disk now.catalog).1 := by
    unfold Counts Watch.tick
    unfold total at fits
    omega
  have counter : (now.tick settings).catalog.nextId.toNat = _ :=
    (Watch.afterSyncs_syncRoots _ inStep.before now.source_of_le rooms counts).counter
  refine ⟨counts, ?_⟩
  unfold total
  omega

/-- A rebuild takes no more numbers than there are files. -/
theorem counts_rebuild {watch : Watch} {catalog : Catalog} {disk : Disk}
    (faithful : ∃ origins, catalog.snapshot.Faithful origins)
    (rooms : ∀ root ∈ watch.roots.keys, HasRoom settings disk root)
    (fits : catalog.nextId.toNat + total settings disk watch < UInt64.size) :
    Counts catalog (watch.rebuild settings disk catalog).1 := by
  have keys : watch.forgotten.roots.keys = watch.roots.keys := OrderedMap.keys_mapValues ..
  unfold total at fits
  rw [← keys] at rooms fits
  have inStep : watch.forgotten.InStep settings.extensions
      (fun _ path => (disk.file? path).map Prod.fst) catalog.clear :=
    Watch.inStep_forgotten faithful
  have few := inStep.report_le _ (fun _ _ _ => rfl) rooms fits
  unfold Counts Watch.rebuild Watch.tick
  show catalog.nextId.toNat + (watch.forgotten.syncRoots settings disk catalog.clear
    watch.forgotten.roots.keys).1.added + (watch.forgotten.syncRoots settings disk catalog.clear
      watch.forgotten.roots.keys).1.updated < UInt64.size
  omega

/-- After any history a tick leaves the same documents as a rebuild, up to their numbers and to the
times at which their files were changed, and so any words and conditions select the same paths. -/
theorem gists_of_run {first last : Upkeep} (begun : first.IsStart)
    (run : Relation.ReflTransGen (Step settings) first last)
    (rooms : ∀ root ∈ last.watch.roots.keys, HasRoom settings last.disk root)
    (noticed : last.Noticed)
    (counts : Counts last.catalog (last.watch.tick settings last.disk last.catalog).1)
    (recounts : Counts (last.tick settings).catalog ((last.tick settings).watch.rebuild settings
      last.disk (last.tick settings).catalog).1) :
    let ticked := (last.tick settings).catalog
    let rebuilt := ((last.tick settings).watch.rebuild settings last.disk ticked).2.2
    ticked.gists.Perm rebuilt.gists ∧
      ∀ words conditions, ∃ paths others,
        Retrieval.selectedPaths ticked words conditions = some paths ∧
          Retrieval.selectedPaths rebuilt words conditions = some others ∧ paths.Perm others := by
  have inStep := inStep_of_run run (inStep_of_isStart begun)
  have ticked := inStep_of_step (.tick rooms counts) inStep
  -- The source that a tick works with tells of the old documents what was told before.
  have seen : ∀ root watched, last.watch.roots.get? root = some watched →
      watched.Noticed last.disk last.source last.catalog := by
    intro root watched found entry member document stored modified reached
    rw [source_of_document? inStep stored]
    exact noticed root watched found entry member document stored modified reached
  have keys : (last.tick settings).watch.roots.keys = last.watch.roots.keys := Watch.keys_tick
  have kept := Watch.gists_tick inStep.before last.source_of_le rooms seen counts
  rw [← keys] at rooms kept
  have rebuilt := Watch.inStep_rebuild ticked.recorded.faithful rooms recounts
  have anew := Watch.gists_rebuild ticked.recorded.faithful rooms recounts
  -- Both have the gists of the same files, and what words and conditions select depends on no more.
  have same := kept.trans anew.symm
  exact ⟨same, Retrieval.perm_selectedPaths same
    ⟨ticked.recorded.counts, rebuilt.recorded.counts⟩ ticked.recorded.numbered
    rebuilt.recorded.numbered⟩

/-- An empty catalog beside a disk with one file that is not watched yet. -/
def unwatched : Upkeep := ⟨.empty, .empty ⟨"/"⟩ .empty, noteDisk, fun _ => none⟩

theorem isStart_unwatched : unwatched.IsStart := ⟨rfl, rfl, rfl, show (1 : DocId) ≠ 0 by decide⟩

theorem eligible_notePath {disk : Disk} {content : Bytes} {modified : Int}
    (found : disk.entry? ["note.txt"] = some (.file content modified)) :
    eligible settings disk notePath = .ofList [notePath] := by
  have resolved := resolve_notePath found
  have looked : disk.look notePath = .ok (.file content modified) := by
    unfold Disk.look
    rw [resolved]
  have there : disk.holds notePath = true := by
    unfold Disk.holds
    rw [looked]
  unfold eligible
  rw [if_pos there, collectFiles_of_look looked nofun]
  rfl

theorem hasRoom_notePath {disk : Disk} {content : Bytes} {modified : Int}
    (found : disk.entry? ["note.txt"] = some (.file content modified)) :
    HasRoom Settings.standard disk notePath := by
  unfold HasRoom
  rw [eligible_notePath found]
  exact .inr (by decide)

theorem found_note : noteDisk.entry? ["note.txt"] =
    some (.file [0x68, 0x69, 0x20, 0x68, 0x69] 0) := rfl

/-- The one file is indexed in a sync that finds it, whatever the catalog holds. -/
theorem syncFiles_note {settings : Settings} {disk : Disk} (catalog : Catalog)
    (zoned : disk.zone = .world)
    (found : disk.entry? ["note.txt"] = some (.file [0x68, 0x69, 0x20, 0x68, 0x69] 0))
    (wanted : settings.extensions.isIgnored notePath = false)
    (wide : settings.watch.maxFilesPerPath = 0 ∨ 1 ≤ settings.watch.maxFilesPerPath) :
    ∃ report, report.added + report.updated = 1 ∧
      Watched.empty.syncFiles settings disk catalog (.ofList [notePath]) =
        ⟨report, ⟨.ofList [(notePath, catalog.nextId)], .empty⟩, (catalog.register note).2⟩ := by
  have items : Indexable.ofFiles settings.extensions disk [notePath] = [note] := by
    have read := ofFile_of_found settings.extensions wanted zoned found
    unfold Indexable.ofFiles
    rw [List.filterMap_cons, read]
    rfl
  obtain ⟨report, counted, synced⟩ :=
    Watched.syncFiles_empty disk (.ofList [notePath]) catalog wide
  have listed : (OrderedSet.ofList [notePath]).toList = [notePath] := rfl
  rw [listed, items] at counted synced
  exact ⟨report, counted, synced⟩

/-- The one file is indexed when its path is added, whatever the catalog holds. -/
theorem add_notePath {disk : Disk} (catalog : Catalog) (zoned : disk.zone = .world)
    (found : disk.entry? ["note.txt"] = some (.file [0x68, 0x69, 0x20, 0x68, 0x69] 0)) : ∃ report,
    Watch.empty.add Settings.standard disk catalog notePath =
      (.ok report, ⟨.ofList [(notePath, ⟨.ofList [(notePath, catalog.nextId)], .empty⟩)], 0⟩,
        (catalog.register note).2) ∧
    report.added + report.updated = 1 := by
  obtain ⟨report, counted, synced⟩ := syncFiles_note catalog zoned found
    (by decide +kernel : Settings.standard.extensions.isIgnored notePath = false)
    (.inr (by decide))
  refine ⟨report, ?_, counted⟩
  have none : Watch.empty.watched notePath = .empty := rfl
  rw [Watch.add_eq, eligible_notePath found, none, synced]
  rfl

/-- The disk after the one file was written anew in a later second. -/
def laterDisk : Disk := noteDisk.put ["note.txt"] (.file [0x68, 0x6f] 5)

theorem found_later : laterDisk.entry? ["note.txt"] = some (.file [0x68, 0x6f] 5) := rfl

/-- The one file has been indexed, and then it was written anew. -/
def rewritten : Upkeep := { unwatched.add Settings.standard notePath with disk := laterDisk }

theorem watch_rewritten :
    rewritten.watch = ⟨.ofList [(notePath, ⟨.ofList [(notePath, 1)], .empty⟩)], 0⟩ := by
  obtain ⟨report, result, -⟩ := add_notePath unwatched.catalog rfl found_note
  exact congrArg (fun result => result.2.1) result

theorem catalog_rewritten : rewritten.catalog = (unwatched.catalog.register note).2 := by
  obtain ⟨report, result, -⟩ := add_notePath unwatched.catalog rfl found_note
  exact congrArg (fun result => result.2.2) result

theorem files_rewritten : rewritten.catalog.Files 1 note := by
  obtain ⟨origins, faithful⟩ := (@inStep_of_isStart Settings.standard _
    isStart_unwatched).recorded.faithful
  rw [catalog_rewritten]
  exact Catalog.files_register faithful note (by decide)

theorem keys_rewritten : rewritten.watch.roots.keys = [notePath] := by
  rw [watch_rewritten]
  rfl

theorem hasRoom_rewritten {root : Path} (member : root ∈ rewritten.watch.roots.keys) :
    HasRoom Settings.standard laterDisk root := by
  rw [keys_rewritten, List.mem_singleton] at member
  rw [member]
  exact hasRoom_notePath found_later

theorem total_rewritten : total Settings.standard laterDisk rewritten.watch = 1 := by
  unfold total
  rw [keys_rewritten, List.map_singleton, eligible_notePath found_later]
  rfl

theorem run_rewritten :
    Relation.ReflTransGen (Step Settings.standard) unwatched rewritten := by
  obtain ⟨report, result, counted⟩ := add_notePath unwatched.catalog rfl found_note
  have added : Step Settings.standard unwatched (unwatched.add Settings.standard notePath) := by
    refine .add (hasRoom_notePath found_note) fun other given => ?_
    have same : Except.ok report = Except.ok other :=
      (congrArg Prod.fst result).symm.trans given
    cases same
    show 1 + report.added + report.updated < UInt64.size
    rw [Nat.add_assoc, counted]
    decide
  exact (Relation.ReflTransGen.single added).tail (.files _ laterDisk)

theorem noticed_rewritten : rewritten.Noticed := by
  intro root watched found entry member document stored modified reached
  rw [watch_rewritten] at found
  obtain ⟨key, -, held⟩ := OrderedMap.get?_eq_some_iff_exists.mp found
  cases List.mem_singleton.mp held
  cases List.mem_singleton.mp member
  have same := Option.some.inj (files_rewritten.document.symm.trans stored)
  have written : laterDisk.modified? notePath = some 5 := by
    unfold Disk.modified? Disk.look
    rw [resolve_notePath found_later]
  have second : 5 = modified := Option.some.inj (written.symm.trans reached)
  rw [← same, ← second]
  exact .inr (by decide)

/-- A file is indexed and then written anew. A tick and a rebuild both leave what it holds now. -/
theorem gists_of_run_rewritten :
    let ticked := (rewritten.tick Settings.standard).catalog
    let rebuilt :=
      (rewritten.tick Settings.standard).watch.rebuild Settings.standard laterDisk ticked
    unwatched.IsStart ∧ Relation.ReflTransGen (Step Settings.standard) unwatched rewritten ∧
      (∀ root ∈ rewritten.watch.roots.keys, HasRoom Settings.standard laterDisk root) ∧
      rewritten.Noticed ∧ Counts rewritten.catalog
        (rewritten.watch.tick Settings.standard laterDisk rewritten.catalog).1 ∧
      Counts ticked rebuilt.1 ∧ rewritten.catalog.gists = [note.gist] ∧
      ticked.gists.Perm rebuilt.2.2.gists := by
  intro ticked rebuilt
  have inStep := inStep_of_run run_rewritten (inStep_of_isStart isStart_unwatched)
  have nextId : rewritten.catalog.nextId.toNat = 2 := by
    rw [catalog_rewritten, Catalog.nextId_register]
    rfl
  have size : total Settings.standard rewritten.disk rewritten.watch = 1 := total_rewritten
  have rooms := fun root (member : root ∈ rewritten.watch.roots.keys) => hasRoom_rewritten member
  obtain ⟨counts, few⟩ := counts_tick inStep rooms (by
    rw [nextId, size]
    decide)
  rw [nextId, size] at few
  have keys : (rewritten.tick Settings.standard).watch.roots.keys = rewritten.watch.roots.keys :=
    Watch.keys_tick
  have after := inStep_of_step (.tick rooms counts) inStep
  have recounts : Counts ticked rebuilt.1 := by
    apply counts_rebuild after.recorded.faithful (keys ▸ rooms)
    have same : total Settings.standard laterDisk (rewritten.tick Settings.standard).watch = 1 := by
      unfold total
      rw [keys]
      exact total_rewritten
    rw [same]
    exact Nat.lt_of_le_of_lt (Nat.add_le_add_right few 1) (by decide)
  have gists : rewritten.catalog.gists = [note.gist] := by
    have live : rewritten.catalog.live.toList = [1] := by
      rw [catalog_rewritten]
      decide +kernel
    unfold Catalog.gists
    rw [live, List.filterMap_cons, files_rewritten.gist?_eq]
    rfl
  exact ⟨isStart_unwatched, run_rewritten, rooms, noticed_rewritten, counts, recounts, gists,
    (gists_of_run isStart_unwatched run_rewritten rooms noticed_rewritten counts recounts).1⟩

end Upkeep
end Concordance
