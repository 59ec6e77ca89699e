import Concordance.Indexing
import Concordance.Ordered.Set

/-! Keeping the catalog in step with files. -/
namespace Concordance

/-- The files under one watched path: those that became documents, and those that the greatest number
of files has left out. -/
structure Watched where
  files : OrderedMap Path DocId
  capped : OrderedSet Path

/-- What a sync has done to the catalog, in numbers of files. -/
structure SyncReport where
  added : Nat
  removed : Nat
  updated : Nat
  capped : Nat
deriving DecidableEq

namespace SyncReport

def zero : SyncReport := ⟨0, 0, 0, 0⟩

def isEmpty (report : SyncReport) : Bool := report == zero

def add (first second : SyncReport) : SyncReport :=
  ⟨first.added + second.added, first.removed + second.removed, first.updated + second.updated,
    first.capped + second.capped⟩

end SyncReport

/-- What has become of a file since it was indexed. -/
inductive Fate where
  | same
  | gone
  | changed
deriving DecidableEq

/-- A file has changed when it was written in a later second than the one that is known, or when its
document has been deleted by others. -/
def fateOf (disk : Disk) (existing : OrderedSet Path) (catalog : Catalog) (file : Path)
    (id : DocId) : Fate :=
  if !existing.contains file then .gone
  else match catalog.document? id with
    | none => .changed
    | some document =>
        match disk.modified? file with
        | some modified =>
            if compare (disk.zone.moment modified) document.facts.modified == .gt then .changed
            else .same
        | none => .same

/-- The outcome of going through the files that became documents. -/
structure Sweep where
  gone : List Path
  changed : List Path
  catalog : Catalog

/-- Goes through files and deletes the documents of those that are gone or have changed. -/
def sweep (disk : Disk) (existing : OrderedSet Path) (catalog : Catalog) :
    List (Path × DocId) → Sweep
  | [] => ⟨[], [], catalog⟩
  | (file, id) :: rest =>
      match fateOf disk existing catalog file id with
      | .same => sweep disk existing catalog rest
      | .gone =>
          let later := sweep disk existing (catalog.removeDocument id) rest
          { later with gone := file :: later.gone }
      | .changed =>
          let later := sweep disk existing (catalog.removeDocument id) rest
          { later with changed := file :: later.changed }

/-- The state of a watched path and of the catalog after a sync. -/
structure Synced where
  report : SyncReport
  watched : Watched
  catalog : Catalog

namespace Watched

def empty : Watched := ⟨.empty, .empty⟩

/-- The number of files that may still be indexed, where zero for the greatest number sets no limit. -/
def room (limit : Nat) (tracked waiting : Nat) : Nat :=
  if limit = 0 then waiting else limit - tracked

/-- The watched path with the files that became documents. -/
def track (files : OrderedMap Path DocId) (indexed : List (Path × DocId)) :
    OrderedMap Path DocId :=
  indexed.foldl (fun files entry => files.insert entry.1 entry.2) files

/-- Brings the files of a watched path and the catalog up to date with what exists. New and changed
files wait in the order of their paths, and those for which there is no room are left out. -/
def syncFiles (watched : Watched) (settings : Settings) (disk : Disk) (catalog : Catalog)
    (existing : OrderedSet Path) : Synced :=
  let capped := watched.capped.filter existing.contains
  let fresh := existing.toList.filter fun file =>
    !watched.files.contains file && !capped.contains file
  let swept := sweep disk existing catalog watched.files.entries
  let kept := watched.files.filter fun file _ =>
    !swept.gone.contains file && !swept.changed.contains file
  let waiting := (fresh ++ swept.changed).mergeSort fun first second => (compare first second).isLE
  let room := room settings.watch.maxFilesPerPath kept.size waiting.length
  let (indexed, catalog) :=
    swept.catalog.indexFiles settings.extensions disk (waiting.take room)
  let updated := indexed.countP fun entry => swept.changed.contains entry.1
  let left := waiting.drop room
  ⟨⟨indexed.length - updated, swept.gone.length, updated, left.length⟩,
    ⟨track kept indexed, left.foldl OrderedSet.insert capped⟩, catalog⟩

/-- Syncs the path of a root. A root that does not exist has no files. -/
def sync (watched : Watched) (settings : Settings) (disk : Disk) (catalog : Catalog) (root : Path) :
    Except Fault Synced := do
  let existing ← if disk.holds root then collectFiles settings.extensions disk root else .ok []
  return watched.syncFiles settings disk catalog (.ofList existing)

end Watched

/-- All watched paths, and the number of syncs that were left out because one was going on. -/
structure Watch where
  roots : OrderedMap Path Watched
  skippedTicks : Nat

namespace Watch

def empty : Watch := ⟨.empty, 0⟩

/-- Watches a path and syncs it at once. Files that were left out get another chance. A new path that
cannot be synced is not watched. -/
def add (watch : Watch) (settings : Settings) (disk : Disk) (catalog : Catalog) (root : Path) :
    Except Fault SyncReport × Watch × Catalog :=
  let known := watch.roots.get? root
  let watched : Watched := { (known.getD .empty) with capped := .empty }
  match watched.sync settings disk catalog root with
  | .ok synced =>
      (.ok synced.report, { watch with roots := watch.roots.insert root synced.watched },
        synced.catalog)
  | .error fault =>
      let roots := if known.isSome then watch.roots.insert root watched else watch.roots
      (.error fault, { watch with roots := roots }, catalog)

/-- Stops watching a path. Its documents stay in the catalog. -/
def remove (watch : Watch) (root : Path) : Watch :=
  { watch with roots := watch.roots.erase root }

/-- Syncs paths one after another. One that cannot be synced is left as it is. -/
def syncRoots (watch : Watch) (settings : Settings) (disk : Disk) (catalog : Catalog) :
    List Path → SyncReport × Watch × Catalog
  | [] => (.zero, watch, catalog)
  | root :: rest =>
      match ((watch.roots.get? root).getD .empty).sync settings disk catalog root with
      | .error _ => syncRoots watch settings disk catalog rest
      | .ok synced =>
          let watch := { watch with roots := watch.roots.insert root synced.watched }
          let (report, watch, catalog) := syncRoots watch settings disk synced.catalog rest
          (synced.report.add report, watch, catalog)

/-- Syncs all watched paths. -/
def tick (watch : Watch) (settings : Settings) (disk : Disk) (catalog : Catalog) :
    SyncReport × Watch × Catalog :=
  watch.syncRoots settings disk catalog watch.roots.keys

/-- A tick that is left out because a sync is going on. -/
def skip (watch : Watch) : Watch := { watch with skippedTicks := watch.skippedTicks + 1 }

/-- Empties the catalog and indexes all watched paths again. -/
def rebuild (watch : Watch) (settings : Settings) (disk : Disk) (catalog : Catalog) :
    SyncReport × Watch × Catalog :=
  let forgotten : Watch := { watch with roots := watch.roots.mapValues fun _ _ => .empty }
  forgotten.tick settings disk catalog.clear

/-- The number of files that became documents for each extension. -/
def extensionCounts (watch : Watch) : OrderedMap String Nat :=
  let files := watch.roots.values.flatMap fun watched => watched.files.keys
  files.foldl (fun counts file =>
    let extension := file.fileExtension
    counts.insert extension ((counts.get? extension).getD 0 + 1)) .empty

end Watch
end Concordance
