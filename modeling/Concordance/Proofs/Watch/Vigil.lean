import Concordance.Proofs.Catalog.Counter
import Concordance.Proofs.Catalog.Growth
import Concordance.Proofs.Catalog.Operation
import Concordance.Proofs.Catalog.RoundTrip
import Concordance.Proofs.Watch.Known
import Concordance.Proofs.Watch.Upkeep
import Mathlib.Data.Set.Defs

/-! One document for each file. -/
namespace Concordance

/-- No two documents are of the same file. -/
def Catalog.OnePerPath (catalog : Catalog) : Prop :=
  ∀ first second one other, catalog.document? first = some one →
    catalog.document? second = some other → compare one.path other.path = .eq → first = second

/-- No file lies below two of these paths. -/
def Path.Disjoint (roots : Set Path) : Prop :=
  ∀ first ∈ roots, ∀ second ∈ roots, first.parts ≠ second.parts →
    ∀ file, first.IsBelow file → ¬second.IsBelow file

/-- Watched paths, their catalog and the disk. It is clear as long as, since the last rebuild, no
path was added while documents lay below it that were not tracked, and no catalog was written that
has documents of paths that are no text. -/
structure Vigil where
  watch : Watch
  catalog : Catalog
  disk : Disk
  clear : Prop

namespace Vigil

/-- A path can be added without a second document for any file: it is watched already, or there are
no documents below it. -/
def Free (now : Vigil) (root : Path) : Prop :=
  (now.watch.roots.get? root).isSome = true ∨
    ∀ id document, now.catalog.document? id = some document → ¬root.IsBelow document.path

/-- Nothing is lost when the catalog is written: the paths of all its documents are text. -/
def IsWritable (now : Vigil) : Prop :=
  ∀ document ∈ now.catalog.documents.values, document.path.IsText

/-- The vigil after a path has been added. -/
def add (now : Vigil) (settings : Settings) (root : Path) : Vigil :=
  let result := now.watch.add settings now.disk now.catalog root
  { now with watch := result.2.1, catalog := result.2.2, clear := now.clear ∧ now.Free root }

/-- The vigil after a path has been given up. -/
def remove (now : Vigil) (root : Path) : Vigil := { now with watch := now.watch.remove root }

/-- The vigil after a tick. -/
def tick (now : Vigil) (settings : Settings) : Vigil :=
  let result := now.watch.tick settings now.disk now.catalog
  { now with watch := result.2.1, catalog := result.2.2 }

/-- The vigil after a rebuild. -/
def rebuild (now : Vigil) (settings : Settings) : Vigil :=
  let result := now.watch.rebuild settings now.disk now.catalog
  { now with watch := result.2.1, catalog := result.2.2, clear := True }

/-- One thing that happens, with any settings. A path of some roots is added, a path is given up,
all paths are synced or rebuilt, or a tick is left out; the disk changes in any way; or the catalog
is written, the process ends, and another one opens the snapshot that nothing else has written
since. -/
inductive Step (roots : Set Path) : Vigil → Vigil → Prop where
  | add (now : Vigil) (settings : Settings) {root : Path} (member : root ∈ roots) :
      Step roots now (now.add settings root)
  | remove (now : Vigil) (root : Path) : Step roots now (now.remove root)
  | tick (now : Vigil) (settings : Settings) : Step roots now (now.tick settings)
  | skip (now : Vigil) : Step roots now { now with watch := now.watch.skip }
  | rebuild (now : Vigil) (settings : Settings) : Step roots now (now.rebuild settings)
  | files (now : Vigil) {disk : Disk} (named : disk.Named) : Step roots now { now with disk := disk }
  | restart {now : Vigil} {changed later left : Disk} {opened : Catalog} {second : Int}
      (ready : Catalog.IsReady now.disk now.catalog.directory)
      (fits : now.catalog.snapshot.write.length < UInt64.size)
      (written : now.catalog.flush second now.disk = .ok () changed)
      (kept : later.read (Catalog.snapshotPath now.catalog.directory) =
        changed.read (Catalog.snapshotPath now.catalog.directory))
      (named : later.Named)
      (reopened : Catalog.loadOrCreate now.catalog.directory later = .ok opened left) :
      Step roots now ⟨.empty, opened, left, now.clear ∧ now.IsWritable⟩

/-- Nothing is watched yet, and no two documents of the catalog are of the same file. -/
structure IsStart (first : Vigil) : Prop where
  roots : first.watch.roots = .empty
  distinct : first.catalog.OnePerPath
  filed : first.catalog.InPlace
  named : first.disk.Named

/-- Only some roots are watched. As long as it is clear, no two documents are of the same file, and
every watched path knows the documents below it. -/
structure Orderly (now : Vigil) (roots : Set Path) : Prop where
  watched : ∀ {root tracked}, now.watch.roots.get? root = some tracked →
    ∃ other ∈ roots, root.parts = other.parts
  filed : now.catalog.InPlace
  named : now.disk.Named
  distinct : now.clear → now.catalog.OnePerPath
  known : now.clear → ∀ {root tracked}, now.watch.roots.get? root = some tracked →
    tracked.Knows root now.catalog

variable {roots : Set Path} {now next : Vigil} {root : Path}

/-- A vigil starts orderly. -/
theorem orderly_of_isStart (begun : now.IsStart) : now.Orderly roots where
  watched found := by
    rw [begun.roots] at found
    cases found
  filed := begun.filed
  named := begun.named
  distinct _ := begun.distinct
  known _ root tracked found := by
    rw [begun.roots] at found
    cases found

/-- What holds of a vigil goes on to hold when less of it is clear. -/
theorem Orderly.weaken (orderly : now.Orderly roots) {clear : Prop} (weaker : clear → now.clear) :
    { now with clear := clear }.Orderly roots where
  watched := orderly.watched
  filed := orderly.filed
  named := orderly.named
  distinct given := orderly.distinct (weaker given)
  known given := orderly.known (weaker given)

/-- The vigil after a path has been synced. -/
def sync (now : Vigil) (settings : Settings) (root : Path) (tracked : Watched) : Vigil :=
  let synced := tracked.syncFiles settings now.disk now.catalog (eligible settings now.disk root)
  { now with
    watch := { now.watch with roots := now.watch.roots.insert root synced.watched }
    catalog := synced.catalog }

/-- A sync changes what is known of its own path only. -/
theorem get?_sync (now : Vigil) (settings : Settings) (root other : Path) (tracked : Watched) :
    (now.sync settings root tracked).watch.roots.get? other =
      if compare other root = .eq then
        some (tracked.syncFiles settings now.disk now.catalog
          (eligible settings now.disk root)).watched
      else now.watch.roots.get? other := OrderedMap.get?_insert ..

/-- The documents that are new after a sync lie below the path that was synced. -/
theorem document?_of_sync (named : now.disk.Named) {settings : Settings} {tracked : Watched}
    {id : DocId} {document : Document}
    (found : (now.sync settings root tracked).catalog.document? id = some document) :
    now.catalog.document? id = some document ∨ document.id = id ∧ root.IsBelow document.path :=
  Watched.document?_of_syncFiles (fun _ member => isBelow_of_mem_eligible named member) found

/-- Below the path that is synced the documents are told apart by how their files are tracked, and
all others were there before. -/
theorem onePerPath_sync (named : now.disk.Named) (settings : Settings) {tracked : Watched}
    (knows : tracked.Knows root now.catalog) (distinct : now.catalog.OnePerPath) :
    (now.sync settings root tracked).catalog.OnePerPath := by
  intro first second one other found stored same
  have alike := Path.isBelow_congr (rfl : root.parts = root.parts) (Path.compare_eq_iff.mp same)
  by_cases inside : root.IsBelow one.path
  · have after := knows.syncFiles settings now.disk (eligible settings now.disk root)
    have held := after first one found inside
    rw [OrderedMap.get?_congr same, after second other stored (alike.mp inside)] at held
    exact (Option.some.inj held).symm
  · have outside : ¬root.IsBelow other.path := mt alike.mpr inside
    exact distinct first second one other
      ((document?_of_sync named found).resolve_right fun new => inside new.2)
      ((document?_of_sync named stored).resolve_right fun new => outside new.2) same

/-- A sync keeps the order, as long as the path that is synced knows the documents below it. -/
theorem Orderly.sync (orderly : now.Orderly roots) (disjoint : Path.Disjoint roots)
    (settings : Settings) {tracked : Watched} (own : ∃ other ∈ roots, root.parts = other.parts)
    (knows : now.clear → tracked.Knows root now.catalog) :
    (now.sync settings root tracked).Orderly roots := by
  obtain ⟨home, member, spelling⟩ := own
  refine ⟨?_, ?_, orderly.named,
    fun clear => onePerPath_sync orderly.named settings (knows clear) (orderly.distinct clear), ?_⟩
  · intro other watched found
    rw [get?_sync] at found
    split at found
    next same => exact ⟨home, member, (Path.compare_eq_iff.mp same).trans spelling⟩
    next => exact orderly.watched found
  · intro id document found
    rcases document?_of_sync orderly.named found with before | ⟨filed, -⟩
    · exact orderly.filed id document before
    · exact filed
  · intro clear other watched found id document stored lies
    rw [get?_sync] at found
    split at found
    next same =>
      cases found
      exact (knows clear).syncFiles settings now.disk _ id document stored
        ((Path.isBelow_congr (Path.compare_eq_iff.mp same) rfl).mp lies)
    next apart =>
      obtain ⟨place, held, alike⟩ := orderly.watched found
      -- What is new lies below the path that was synced, and so below no other.
      have outside : ¬root.IsBelow document.path := by
        intro inside
        refine disjoint place held home member ?_ document.path
          ((Path.isBelow_congr alike rfl).mp lies) ((Path.isBelow_congr spelling rfl).mp inside)
        rw [← alike, ← spelling]
        exact mt Path.compare_eq_iff.mpr apart
      exact orderly.known clear found id document
        ((document?_of_sync orderly.named stored).resolve_right fun new => outside new.2) lies

/-- Syncs of watched paths one after another keep the order. -/
theorem Orderly.syncRoots (orderly : now.Orderly roots) (disjoint : Path.Disjoint roots)
    (settings : Settings) {synced : List Path}
    (watched : ∀ root ∈ synced, (now.watch.roots.get? root).isSome = true) :
    let result := now.watch.syncRoots settings now.disk now.catalog synced
    { now with watch := result.2.1, catalog := result.2.2 }.Orderly roots := by
  induction synced generalizing now with
  | nil => exact orderly
  | cons root rest ih =>
      rw [List.forall_mem_cons] at watched
      obtain ⟨tracked, found⟩ := Option.isSome_iff_exists.mp watched.1
      have first := orderly.sync disjoint settings (orderly.watched found)
        fun clear => orderly.known clear found
      have others : ∀ other ∈ rest,
          ((now.sync settings root tracked).watch.roots.get? other).isSome = true := by
        intro other member
        rw [get?_sync]
        split
        next => rfl
        next => exact watched.2 other member
      rw [Watch.syncRoots, found, Option.getD_some, Watched.sync_eq]
      exact ih first others

/-- A tick keeps a vigil orderly. -/
theorem Orderly.tick (orderly : now.Orderly roots) (disjoint : Path.Disjoint roots)
    (settings : Settings) : (now.tick settings).Orderly roots := by
  refine orderly.syncRoots disjoint settings fun root member => ?_
  exact OrderedMap.contains_iff_exists.mpr ⟨root, member, Std.ReflCmp.compare_self⟩

/-- A path that can be added knows the documents below it: they are tracked, or there are none. -/
theorem Orderly.knows_watched (orderly : now.Orderly roots)
    (clear : now.clear ∧ now.Free root) : (now.watch.watched root).Knows root now.catalog := by
  intro id document found below
  unfold Watch.watched
  cases tracked : now.watch.roots.get? root with
  | some watched => exact orderly.known clear.1 tracked id document found below
  | none =>
      rcases clear.2 with there | bare
      · rw [tracked] at there
        cases there
      · exact absurd below (bare id document found)

/-- Adding a path keeps a vigil orderly. -/
theorem Orderly.add (orderly : now.Orderly roots) (disjoint : Path.Disjoint roots)
    (settings : Settings) (member : root ∈ roots) : (now.add settings root).Orderly roots := by
  have weaker : { now with clear := now.clear ∧ now.Free root }.Orderly roots :=
    orderly.weaken And.left
  have synced := weaker.sync disjoint settings ⟨root, member, rfl⟩
    fun clear => orderly.knows_watched clear
  unfold Vigil.add
  rw [Watch.add_eq]
  exact synced

/-- Giving up a path keeps a vigil orderly. -/
theorem Orderly.remove (orderly : now.Orderly roots) (root : Path) :
    (now.remove root).Orderly roots := by
  have kept : ∀ {other tracked}, (now.remove root).watch.roots.get? other = some tracked →
      now.watch.roots.get? other = some tracked := by
    intro other tracked found
    change (now.watch.roots.erase root).get? other = some tracked at found
    rw [OrderedMap.get?_erase] at found
    split at found
    next => cases found
    next => exact found
  exact ⟨fun found => orderly.watched (kept found), orderly.filed, orderly.named, orderly.distinct,
    fun clear _ _ found => orderly.known clear (kept found)⟩

/-- A rebuild brings order where there was none, as it starts from an empty catalog. -/
theorem Orderly.rebuild (orderly : now.Orderly roots) (disjoint : Path.Disjoint roots)
    (settings : Settings) : (now.rebuild settings).Orderly roots := by
  have none : ∀ {id document}, now.catalog.clear.document? id ≠ some document :=
    fun found => by cases found
  have emptied : Orderly ⟨now.watch.forgotten, now.catalog.clear, now.disk, True⟩ roots := by
    refine ⟨?_, fun _ _ found => absurd found none, orderly.named,
      fun _ _ _ _ _ found => absurd found none, fun _ _ _ _ _ _ found => absurd found none⟩
    intro root tracked found
    obtain ⟨other, old, same, member, -⟩ := (OrderedMap.get?_mapValues ..).mp found
    obtain ⟨place, held, alike⟩ := orderly.watched (OrderedMap.get?_of_mem member)
    exact ⟨place, held, (Path.compare_eq_iff.mp same).trans alike⟩
  exact emptied.tick disjoint settings

/-- A process that goes on with the catalog that was written watches nothing yet, and its documents
are those of before where all their paths are text. -/
theorem Orderly.restart (orderly : now.Orderly roots) {later : Disk} {opened : Catalog}
    (named : later.Named) (same : opened.snapshot = now.catalog.snapshot.written) :
    Orderly ⟨.empty, opened, later, now.clear ∧ now.IsWritable⟩ roots := by
  refine ⟨?_, ?_, named, ?_, ?_⟩
  · intro root tracked found
    cases found
  · intro id document found
    have stored : opened.document? id = (now.catalog.document? id).map Document.written :=
      (congrArg (fun snapshot => snapshot.documents.get? id) same).trans (Snapshot.get?_written ..)
    rw [stored] at found
    obtain ⟨old, held, rfl⟩ := Option.map_eq_some_iff.mp found
    exact orderly.filed id old held
  · intro clear first second one other found stored
    have kept := same.trans (Snapshot.written_eq_self_iff.mpr clear.2)
    have documents : ∀ id, opened.document? id = now.catalog.document? id := fun id =>
      congrArg (fun snapshot => snapshot.documents.get? id) kept
    exact orderly.distinct clear.1 first second one other (documents first ▸ found)
      (documents second ▸ stored)
  · intro clear root tracked found
    cases found

/-- Whatever happens, a vigil stays in order. -/
theorem orderly_of_step (disjoint : Path.Disjoint roots) (step : Step roots now next)
    (orderly : now.Orderly roots) : next.Orderly roots := by
  cases step with
  | add settings member => exact orderly.add disjoint settings member
  | remove root => exact orderly.remove root
  | tick settings => exact orderly.tick disjoint settings
  | skip => exact ⟨orderly.watched, orderly.filed, orderly.named, orderly.distinct, orderly.known⟩
  | rebuild settings => exact orderly.rebuild disjoint settings
  | files named => exact ⟨orderly.watched, orderly.filed, named, orderly.distinct, orderly.known⟩
  | restart ready fits written kept named reopened =>
      obtain ⟨rfl, same⟩ :=
        Catalog.snapshot_of_loadOrCreate ready orderly.filed.of_mem fits written kept reopened
      exact orderly.restart named same

/-- A vigil stays orderly, whatever happens. -/
theorem orderly_of_run {first last : Vigil} (disjoint : Path.Disjoint roots)
    (run : Relation.ReflTransGen (Step roots) first last) (orderly : first.Orderly roots) :
    last.Orderly roots := by
  induction run with
  | refl => exact orderly
  | tail _ step ih => exact orderly_of_step disjoint step ih

/-- Whatever happened to paths that have no file in common, no two documents are of the same file, as
long as since the last rebuild no path was added with documents below it that were not tracked, and
no path was lost as the catalog was written. -/
theorem onePerPath_of_run {first last : Vigil} (disjoint : Path.Disjoint roots)
    (begun : first.IsStart) (run : Relation.ReflTransGen (Step roots) first last)
    (clear : last.clear) : last.catalog.OnePerPath :=
  (orderly_of_run disjoint run (orderly_of_isStart begun)).distinct clear

/-- All files of a path that was not watched are new when it is added, so a file whose document is there
from before gets a second one. -/
theorem second_of_add {settings : Settings} {id : DocId} {document : Document} {item : Indexable}
    (unwatched : now.watch.roots.get? root = none) (consistent : now.catalog.snapshot.Consistent)
    (found : now.catalog.document? id = some document)
    (listed : document.path ∈ (eligible settings now.disk root).toList)
    (read : Indexable.ofFile settings.extensions now.disk document.path = .ok (some item))
    (wide : settings.watch.maxFilesPerPath = 0 ∨
      (eligible settings now.disk root).size ≤ settings.watch.maxFilesPerPath)
    (room : now.catalog.nextId.toNat + (eligible settings now.disk root).size < UInt64.size) :
    (now.add settings root).catalog.document? id = some document ∧
      ∃ other second, other ≠ id ∧
        (now.add settings root).catalog.document? other = some second ∧
        second.path = document.path := by
  let items := Indexable.ofFiles settings.extensions now.disk
    (eligible settings now.disk root).toList
  obtain ⟨report, -, synced⟩ :=
    Watched.syncFiles_empty now.disk (eligible settings now.disk root) now.catalog wide
  have catalog : (now.add settings root).catalog = (now.catalog.registerAll items).2 := by
    have fresh : now.watch.watched root = .empty := by
      unfold Watch.watched
      rw [unwatched]
      rfl
    unfold Vigil.add
    rw [Watch.add_eq, fresh, synced]
  have few : items.length ≤ (eligible settings now.disk root).size := by
    have listed := (Indexable.sublist_ofFiles settings.extensions now.disk
      (eligible settings now.disk root).toList).length_le
    rwa [List.length_map] at listed
  have indexed : document.path ∈ (now.catalog.registerAll items).1.map Prod.fst := by
    rw [Catalog.paths_registerAll]
    exact Indexable.mem_map_path_ofFiles listed read
  obtain ⟨entry, stands, path⟩ := List.mem_map.mp indexed
  obtain ⟨other, -, same, stored⟩ := Catalog.document?_registerAll_of_mem (by omega) stands
  have taken : id < now.catalog.nextId := (consistent.of_get? found).2
  -- The new numbers are those from the counter on, and the old one is below it.
  have above : now.catalog.nextId ≤ entry.2 := by
    have number := List.mem_map_of_mem (f := Prod.snd) stands
    rw [(Concordance.Catalog.numbers_registerAll now.catalog items).1] at number
    exact le_of_mem_numbersFrom (by omega) number
  rw [catalog]
  refine ⟨?_, entry.2, _, ?_, stored, same.symm.trans path⟩
  · exact (Catalog.kept_registerAll items taken (by omega)).1.trans found
  · exact (UInt64.ne_of_lt (UInt64.lt_of_lt_of_le taken above)).symm

/-- An empty catalog beside a disk with one file that is not watched yet. -/
def quiet : Vigil := ⟨.empty, .empty ⟨"/"⟩ .empty, noteDisk, True⟩

theorem isStart_quiet : quiet.IsStart where
  roots := rfl
  distinct _ _ _ _ found := by cases found
  filed _ _ found := by cases found
  named := by
    have only : noteDisk.entries.keys = [[("note.txt" : Bytes)]] := by decide
    unfold Disk.Named quiet
    rw [only]
    decide

theorem disjoint_notePath : Path.Disjoint {notePath} := by
  intro first one second other apart
  obtain rfl : first = notePath := one
  obtain rfl : second = notePath := other
  exact absurd rfl apart

/-- The one file has been indexed, and its path is watched. -/
abbrev indexed : Vigil := quiet.add Settings.standard notePath

theorem catalog_indexed : indexed.catalog = (quiet.catalog.register note).2 := by
  obtain ⟨report, result, -⟩ := Upkeep.add_notePath quiet.catalog rfl Upkeep.found_note
  exact congrArg (fun result => result.2.2) result

theorem document?_indexed : indexed.catalog.document? 1 = some (note.document 1) := by
  rw [catalog_indexed, Catalog.document?_register]
  rfl

theorem consistent_indexed : indexed.catalog.snapshot.Consistent := by
  rw [catalog_indexed]
  exact (Catalog.faithful_register (Catalog.faithful_empty ⟨"/"⟩ .empty .none) note
    (by decide)).consistent

theorem isWritable_indexed : indexed.IsWritable := by
  have only : indexed.catalog.documents.values = [note.document 1] := by
    rw [catalog_indexed, Catalog.documents_register]
    rfl
  unfold IsWritable
  rw [only, List.forall_mem_singleton]
  exact Path.isText_mk _

theorem clear_indexed : indexed.clear := ⟨trivial, .inr fun _ _ found => by cases found⟩

/-- The disk with the one file and the snapshot that was written for it. -/
def writtenDisk : Disk := noteDisk.put ["meta"] (.file indexed.catalog.snapshot.write 0)

theorem found_written : writtenDisk.entry? ["note.txt"] =
    some (.file [0x68, 0x69, 0x20, 0x68, 0x69] 0) := rfl

theorem plain_writtenDisk : Disk.Plain writtenDisk ⟨"/"⟩ Catalog.ownNames [] :=
  Catalog.plain_storedDisk _

theorem read_writtenDisk : writtenDisk.read (Catalog.snapshotPath ⟨"/"⟩) =
    .ok indexed.catalog.snapshot.write :=
  Catalog.read_storedDisk _

/-- A process ends after the one file has been indexed, and another one opens its catalog. -/
theorem step_indexed : ∃ opened, opened.snapshot = indexed.catalog.snapshot ∧
    Step {notePath} indexed
      ⟨.empty, opened, writtenDisk, indexed.clear ∧ indexed.IsWritable⟩ := by
  have directory : indexed.catalog.directory = ⟨"/"⟩ := by
    rw [catalog_indexed, Catalog.directory_register]
    rfl
  have ready : Catalog.IsReady indexed.disk indexed.catalog.directory := by
    rw [directory]
    exact History.isReady_noteDisk
  have fits : indexed.catalog.snapshot.write.length < UInt64.size := by
    rw [catalog_indexed]
    decide +kernel
  have checked : ∀ name ∈ Catalog.ownNames,
      Disk.checkSpelling (indexed.catalog.directory.child name).bytes = .ok () := by
    rw [directory]
    exact Catalog.checkSpelling_noteDisk
  have found : writtenDisk.read (Catalog.snapshotPath indexed.catalog.directory) = _ :=
    directory ▸ read_writtenDisk
  have still : Catalog.IsReady writtenDisk indexed.catalog.directory :=
    directory ▸ ⟨[], plain_writtenDisk⟩
  have named : writtenDisk.Named := by
    have keys : writtenDisk.entries.keys = [[("meta" : Bytes)], [("note.txt" : Bytes)]] := rfl
    unfold Disk.Named
    rw [keys]
    decide
  obtain ⟨changed, written⟩ := Catalog.flush_eq_ok 0 ready checked
  have kept := found.trans (Catalog.read_of_flush ready written).2.symm
  have lossless : indexed.catalog.snapshot.written = indexed.catalog.snapshot :=
    Snapshot.written_eq_self_iff.mpr isWritable_indexed
  refine ⟨_, ?_, .restart ready fits written kept named
    (Catalog.loadOrCreate_eq_ok still consistent_indexed fits found)⟩
  exact lossless

/-- A file is indexed, and after the process has ended another one goes on with its document. -/
theorem onePerPath_of_run_restarted : Path.Disjoint {notePath} ∧ quiet.IsStart ∧
    ∃ last, Relation.ReflTransGen (Step {notePath}) quiet last ∧ last.clear ∧
      last.catalog.document? 1 = some (note.document 1) ∧ last.catalog.OnePerPath := by
  obtain ⟨opened, same, restarted⟩ := step_indexed
  have added : Step {notePath} quiet indexed := .add quiet Settings.standard rfl
  have run := (Relation.ReflTransGen.single added).tail restarted
  have kept : opened.document? 1 = indexed.catalog.document? 1 :=
    congrArg (fun snapshot => snapshot.documents.get? 1) same
  have clear := And.intro clear_indexed isWritable_indexed
  exact ⟨disjoint_notePath, isStart_quiet, _, run, clear, kept.trans document?_indexed,
    onePerPath_of_run disjoint_notePath isStart_quiet run clear⟩

/-- A process indexes the file of a path and ends, and the next one opens the catalog and adds the path
again. The file has not changed, and now it has two documents. -/
theorem two_documents_of_restart : Path.Disjoint {notePath} ∧ quiet.IsStart ∧
    ∃ opened : Vigil, Step {notePath} indexed opened ∧
      let last := opened.add Settings.standard notePath
      Relation.ReflTransGen (Step {notePath}) quiet last ∧
        last.catalog.document? 1 = some (note.document 1) ∧
        (∃ other second, other ≠ 1 ∧ last.catalog.document? other = some second ∧
          second.path = notePath) ∧
        ¬last.catalog.OnePerPath := by
  obtain ⟨opened, same, restarted⟩ := step_indexed
  have added : Step {notePath} quiet indexed := .add quiet Settings.standard rfl
  refine ⟨disjoint_notePath, isStart_quiet, _, restarted, ?_⟩
  intro last
  have readded : Step {notePath} _ last := .add _ Settings.standard rfl
  have kept : opened.document? 1 = indexed.catalog.document? 1 :=
    congrArg (fun snapshot => snapshot.documents.get? 1) same
  have eligible : eligible Settings.standard writtenDisk notePath = .ofList [notePath] :=
    Upkeep.eligible_notePath found_written
  have number : opened.nextId = 2 := by
    have counter : opened.nextId = indexed.catalog.nextId := congrArg Snapshot.nextId same
    rw [counter, catalog_indexed, Catalog.nextId_register]
    rfl
  have twice : last.catalog.document? 1 = some (note.document 1) ∧
      ∃ other second, other ≠ 1 ∧ last.catalog.document? other = some second ∧
        second.path = notePath := by
    refine second_of_add rfl (same ▸ consistent_indexed) (kept.trans document?_indexed) ?_
      (ofFile_of_found Settings.standard.extensions (by decide +kernel) rfl found_written) ?_ ?_
    all_goals rw [eligible]
    · exact List.mem_singleton_self _
    · exact .inr (by decide)
    · rw [number]
      decide
  obtain ⟨old, other, second, apart, new, path⟩ := twice
  refine ⟨((Relation.ReflTransGen.single added).tail restarted).tail readded, old,
    ⟨other, second, apart, new, path⟩, fun unique => ?_⟩
  have equal : compare second.path notePath = .eq := path ▸ Std.ReflCmp.compare_self
  exact apart (unique other 1 _ _ new old equal)

end Vigil
end Concordance
