import Concordance.Proofs.Gist
import Concordance.Proofs.Ordered.Set
import Concordance.Proofs.Watch.Sweep
import Mathlib.Data.List.Perm.Basic

namespace Concordance

/-- Lists that look the same up to their order give the same, where what looks the same gives the
same. -/
theorem perm_filterMap_of_perm_map {α β γ : Type} {view : α → β} {first second : List α}
    (give : α → Option γ) (perm : (first.map view).Perm (second.map view))
    (same : ∀ x ∈ first, ∀ y ∈ second, view x = view y → give x = give y) :
    (first.filterMap give).Perm (second.filterMap give) := by
  induction first generalizing second with
  | nil =>
      rw [List.map_nil, List.nil_perm, List.map_eq_nil_iff] at perm
      rw [perm]
  | cons head rest ih =>
      -- The head has a partner in the second list, and the rest goes on without it.
      obtain ⟨other, held, looks⟩ := List.mem_map.mp (perm.mem_iff.mp List.mem_cons_self)
      obtain ⟨before, after, rfl⟩ := List.append_of_mem held
      have middle : (before ++ other :: after).Perm (other :: (before ++ after)) := List.perm_middle
      have whole := perm.trans (middle.map view)
      rw [List.map_cons, List.map_cons, looks] at whole
      have less := ih whole.cons_inv fun x member y later alike =>
        same x (List.mem_cons_of_mem _ member) y
          (middle.mem_iff.mpr (List.mem_cons_of_mem _ later)) alike
      have equal := same head List.mem_cons_self other held looks.symm
      refine List.Perm.trans ?_ (middle.filterMap give).symm
      rw [List.filterMap_cons, List.filterMap_cons, equal]
      cases give other with
      | none => exact less
      | some value => exact less.cons value

/-- Paths in strictly ascending order differ in their parts. -/
theorem nodup_parts {paths : List Path}
    (ascending : paths.Pairwise fun first second => compare first second = .lt) :
    (paths.map Path.parts).Nodup := by
  refine List.pairwise_map.mpr (ascending.imp ?_)
  intro first second less same
  rw [Path.compare_eq_iff.mpr same] at less
  cases less

namespace Watched

variable (watched : Watched) (disk : Disk) (existing : OrderedSet Path) (catalog : Catalog)

/-- The files that stay as they are. -/
def kept : OrderedMap Path DocId :=
  watched.files.filter fun file id => fateOf disk existing catalog file id == .same

/-- The files that wait to be indexed: new ones, and those that have changed. -/
def waiting : List Path :=
  ((existing.toList.filter fun file => !watched.files.contains file) ++
    (withFate disk existing catalog (· == .changed) watched.files.entries).map Prod.fst).mergeSort
      fun first second => (compare first second).isLE

/-- What the files give that wait to be indexed. -/
def items (settings : Settings) : List Indexable :=
  Indexable.ofFiles settings.extensions disk (watched.waiting disk existing catalog)

/-- The catalog without the documents of files that do not stay. -/
abbrev cleared : Catalog := catalog.removeAll (stale disk existing catalog watched.files.entries)

/-- The files that a sync indexes, each with its number, and the catalog with their documents. -/
abbrev indexed (settings : Settings) : List (Path × DocId) × Catalog :=
  (watched.cleared disk existing catalog).registerAll
    (watched.items disk existing catalog settings)

/-- The files that are kept are those that have not changed. -/
theorem keys_kept : (watched.kept disk existing catalog).keys =
    (withFate disk existing catalog (· == .same) watched.files.entries).map Prod.fst := rfl

variable {watched disk existing catalog}

theorem contains_withFate (test : Fate → Bool) {entry : Path × DocId}
    (member : entry ∈ watched.files.entries) :
    ((withFate disk existing catalog test watched.files.entries).map Prod.fst).contains entry.1 =
      test (fateOf disk existing catalog entry.1 entry.2) := by
  rw [Bool.eq_iff_iff, List.contains_iff_mem]
  constructor
  · intro held
    obtain ⟨other, chosen, same⟩ := List.mem_map.mp held
    obtain ⟨there, passes⟩ := List.mem_filter.mp chosen
    have equal := List.inj_on_of_nodup_map watched.files.nodup_keys there member same
    rwa [equal] at passes
  · exact fun passes => List.mem_map_of_mem (List.mem_filter.mpr ⟨member, passes⟩)

/-- The files that stay are those that a sweep leaves. -/
theorem kept_eq : watched.files.filter (fun file _ =>
      !((withFate disk existing catalog (· == .gone) watched.files.entries).map Prod.fst).contains
        file &&
      !((withFate disk existing catalog (· == .changed) watched.files.entries).map
        Prod.fst).contains file) =
    watched.kept disk existing catalog := by
  apply OrderedMap.ext
  apply List.filter_congr
  intro entry member
  simp only [contains_withFate _ member]
  cases fateOf disk existing catalog entry.1 entry.2 <;> rfl

/-- A file is kept with its number where it has not changed. -/
theorem mem_kept_iff {entry : Path × DocId} :
    entry ∈ (watched.kept disk existing catalog).entries ↔
      entry ∈ watched.files.entries ∧ fateOf disk existing catalog entry.1 entry.2 = .same := by
  unfold kept
  rw [OrderedMap.mem_filter, beq_iff_eq]

section Queue

variable (watched : Watched) (settings : Settings) (disk : Disk) (existing : OrderedSet Path)
  (catalog : Catalog)

/-- The files that are neither tracked nor left out. -/
def fresh : List Path := existing.toList.filter fun file =>
  !watched.files.contains file && !(watched.capped.filter existing.contains).contains file

/-- The files whose documents are deleted so that they can be indexed again. -/
def changed : List Path :=
  (withFate disk existing catalog (· == .changed) watched.files.entries).map Prod.fst

/-- All files that wait to be indexed and have not been left out before, in the order of their
paths. -/
def queue : List Path :=
  (watched.fresh existing ++ watched.changed disk existing catalog).mergeSort fun first second =>
    (compare first second).isLE

/-- The number of files of the queue for which there is room. -/
def openings : Nat :=
  room settings.watch.maxFilesPerPath (watched.kept disk existing catalog).size
    (watched.queue disk existing catalog).length

/-- The files of the queue that are indexed. -/
def chosen : List Path :=
  (watched.queue disk existing catalog).take (watched.openings settings disk existing catalog)

/-- The files of the queue that are left out. -/
def surplus : List Path :=
  (watched.queue disk existing catalog).drop (watched.openings settings disk existing catalog)

/-- The chosen files that give documents, each with its number, and the catalog with these. -/
def admitted : List (Path × DocId) × Catalog :=
  (watched.cleared disk existing catalog).registerAll
    (Indexable.ofFiles settings.extensions disk (watched.chosen settings disk existing catalog))

/-- The number of files that are indexed again. -/
def updates : Nat :=
  (watched.admitted settings disk existing catalog).1.countP fun entry =>
    (watched.changed disk existing catalog).contains entry.1

variable {watched settings disk existing catalog}

/-- What waits in the queue is new or has changed. -/
theorem mem_queue_iff {file : Path} : file ∈ watched.queue disk existing catalog ↔
    file ∈ watched.fresh existing ∨ file ∈ watched.changed disk existing catalog :=
  List.mem_mergeSort.trans List.mem_append

/-- A tracked file is among the changed ones where that is its fate. -/
theorem mem_changed_iff {entry : Path × DocId} (tracked : entry ∈ watched.files.entries) :
    entry.1 ∈ watched.changed disk existing catalog ↔
      fateOf disk existing catalog entry.1 entry.2 = .changed := by
  unfold changed
  rw [← List.contains_iff_mem, contains_withFate _ tracked, beq_iff_eq]

/-- A sync tracks the chosen files that give documents beside those that stay, and leaves out those
for which there is no room. -/
theorem syncFiles_eq_queue (distinct : watched.files.values.Nodup) :
    watched.syncFiles settings disk catalog existing =
      let admitted := watched.admitted settings disk existing catalog
      let updates := watched.updates settings disk existing catalog
      let surplus := watched.surplus settings disk existing catalog
      ⟨⟨admitted.1.length - updates,
          (withFate disk existing catalog (· == .gone) watched.files.entries).length, updates,
          surplus.length⟩,
        ⟨track (watched.kept disk existing catalog) admitted.1,
          surplus.foldl OrderedSet.insert (watched.capped.filter existing.contains)⟩,
        admitted.2⟩ := by
  have swept : sweep disk existing catalog watched.files.entries = _ :=
    sweep_eq disk existing distinct
  unfold syncFiles
  rw [swept]
  simp only [kept_eq, List.length_map]
  rfl

/-- Where there is room for all that wait, all are indexed and none is left out. -/
theorem chosen_eq_queue (fits : settings.watch.maxFilesPerPath = 0 ∨
      (watched.kept disk existing catalog).size + (watched.queue disk existing catalog).length ≤
        settings.watch.maxFilesPerPath) :
    watched.chosen settings disk existing catalog = watched.queue disk existing catalog ∧
      watched.surplus settings disk existing catalog = [] := by
  have wide : (watched.queue disk existing catalog).length ≤
      watched.openings settings disk existing catalog := by
    unfold openings room
    split
    next => exact Nat.le_refl _
    next => omega
  exact ⟨List.take_of_length_le wide, List.drop_of_length_le wide⟩

variable (settings disk existing catalog)

/-- As many files are indexed as the report tells. -/
theorem added_add_updated (distinct : watched.files.values.Nodup) :
    (watched.syncFiles settings disk catalog existing).report.added +
      (watched.syncFiles settings disk catalog existing).report.updated =
        (watched.admitted settings disk existing catalog).1.length := by
  rw [syncFiles_eq_queue distinct]
  exact Nat.sub_add_cancel List.countP_le_length

end Queue

/-- Where there is room for all, a sync indexes every file that waits. -/
theorem syncFiles_eq {settings : Settings} (uncapped : watched.capped = .empty)
    (distinct : watched.files.values.Nodup)
    (fits : settings.watch.maxFilesPerPath = 0 ∨
      (watched.kept disk existing catalog).size + (watched.waiting disk existing catalog).length ≤
        settings.watch.maxFilesPerPath) :
    ∃ report, report.added + report.updated =
        (watched.indexed disk existing catalog settings).1.length ∧
      watched.syncFiles settings disk catalog existing =
        ⟨report, ⟨track (watched.kept disk existing catalog)
          (watched.indexed disk existing catalog settings).1, .empty⟩,
        (watched.indexed disk existing catalog settings).2⟩ := by
  have none : watched.capped.filter existing.contains = .empty := by
    rw [uncapped]
    rfl
  have fresh : watched.fresh existing =
      existing.toList.filter fun file => !watched.files.contains file := by
    unfold Watched.fresh
    rw [none]
    exact List.filter_congr fun file _ => Bool.and_true _
  have queue : watched.queue disk existing catalog = watched.waiting disk existing catalog := by
    unfold Watched.queue waiting
    rw [fresh]
    rfl
  rw [← queue] at fits
  obtain ⟨chosen, surplus⟩ := chosen_eq_queue fits
  have admitted : watched.admitted settings disk existing catalog =
      watched.indexed disk existing catalog settings := by
    unfold Watched.admitted Watched.indexed items
    rw [chosen, queue]
  have counted := added_add_updated settings disk existing catalog distinct
  rw [admitted] at counted
  refine ⟨_, counted, ?_⟩
  rw [syncFiles_eq_queue distinct, admitted, surplus, none]
  rfl

/-- The files that are known and still exist are those that exist and are known. -/
theorem perm_known : ((watched.files.entries.filter fun entry => existing.contains entry.1).map
      fun entry => entry.1.parts).Perm
    ((existing.toList.filter watched.files.contains).map Path.parts) := by
  have tracked : ((watched.files.entries.map Prod.fst).map Path.parts).Nodup :=
    nodup_parts (List.pairwise_map.mpr watched.files.ascending)
  rw [List.map_map] at tracked
  have listed := nodup_parts existing.ascending
  refine (List.perm_ext_iff_of_nodup (tracked.sublist (List.filter_sublist.map _))
    (listed.sublist (List.filter_sublist.map _))).mpr fun parts => ?_
  simp only [List.mem_map, List.mem_filter, OrderedSet.contains_iff_exists,
    OrderedMap.contains_iff_exists, Path.compare_eq_iff]
  constructor
  · rintro ⟨entry, ⟨member, other, there, same⟩, rfl⟩
    exact ⟨other, ⟨there, entry.1, List.mem_map_of_mem member, same.symm⟩, same.symm⟩
  · rintro ⟨other, ⟨there, key, member, same⟩, rfl⟩
    obtain ⟨entry, held, rfl⟩ := List.mem_map.mp member
    exact ⟨entry, ⟨held, other, there, same.symm⟩, same.symm⟩

/-- The files that stay and those that wait are all that exist. -/
theorem perm_parts : (((watched.kept disk existing catalog).keys ++
      watched.waiting disk existing catalog).map Path.parts).Perm
    (existing.toList.map Path.parts) := by
  have known := ((perm_withFate disk existing catalog watched.files.entries).map
    fun entry => entry.1.parts).trans perm_known
  have split := (List.filter_append_perm watched.files.contains existing.toList).map Path.parts
  have sorted : (watched.waiting disk existing catalog).Perm _ := List.mergeSort_perm _ _
  refine List.Perm.trans ?_ split
  rw [List.map_append] at known ⊢
  rw [List.map_append, keys_kept, List.map_map]
  apply ((sorted.map Path.parts).append_left _).trans
  rw [List.map_append, List.map_map]
  exact (List.perm_append_comm.append_left _).trans
    ((List.append_assoc _ _ _).symm ▸ known.append_right _)

/-- Every eligible file is kept or waits. -/
theorem size_kept_add : (watched.kept disk existing catalog).size +
    (watched.waiting disk existing catalog).length = existing.size := by
  have perm : (((watched.kept disk existing catalog).keys ++
      watched.waiting disk existing catalog).map Path.parts).Perm _ := perm_parts
  have lengths := perm.length_eq
  simp only [List.length_map, List.length_append] at lengths
  have keys : (watched.kept disk existing catalog).keys.length = _ := List.length_map _
  rwa [keys] at lengths

/-- Where nothing is tracked yet, all files wait in their order. -/
theorem waiting_empty (disk : Disk) (existing : OrderedSet Path) (catalog : Catalog) :
    Watched.empty.waiting disk existing catalog = existing.toList := by
  have all : (existing.toList.filter fun file => !Watched.empty.files.contains file) =
      existing.toList := List.filter_eq_self.mpr fun _ _ => rfl
  have sorted : existing.toList.Pairwise fun first second => (compare first second).isLE = true :=
    existing.ascending.imp fun less => by rw [less]; rfl
  unfold waiting
  rw [all]
  exact (congrArg (List.mergeSort · _) (List.append_nil _)).trans (List.mergeSort_of_pairwise sorted)

/-- Where nothing is tracked yet and there is room for all files, all of them are registered. -/
theorem syncFiles_empty {settings : Settings} (disk : Disk) (existing : OrderedSet Path)
    (catalog : Catalog) (wide : settings.watch.maxFilesPerPath = 0 ∨
      existing.size ≤ settings.watch.maxFilesPerPath) :
    let registered := catalog.registerAll
      (Indexable.ofFiles settings.extensions disk existing.toList)
    ∃ report, report.added + report.updated = registered.1.length ∧
      Watched.empty.syncFiles settings disk catalog existing =
        ⟨report, ⟨track .empty registered.1, .empty⟩, registered.2⟩ := by
  have fits : settings.watch.maxFilesPerPath = 0 ∨
      (Watched.empty.kept disk existing catalog).size +
        (Watched.empty.waiting disk existing catalog).length ≤
          settings.watch.maxFilesPerPath := by
    rw [size_kept_add]
    exact wide
  have distinct : Watched.empty.files.values.Nodup := List.nodup_nil
  have whole := syncFiles_eq rfl distinct fits
  unfold Watched.indexed items at whole
  rw [waiting_empty] at whole
  exact whole

/-- No file that stays and none of another path has a number of those that do not stay. -/
theorem not_mem_stale {others : List DocId} (distinct : (watched.files.values ++ others).Nodup)
    {id : DocId} (stays : id ∈ (watched.kept disk existing catalog).values ++ others) :
    id ∉ stale disk existing catalog watched.files.entries := by
  have whole := ((perm_stale disk existing catalog watched.files.entries).append_right
    others).nodup_iff.mpr distinct
  rw [List.append_assoc] at whole
  exact fun gone => List.disjoint_of_nodup_append whole gone stays

/-- Deleting leaves the documents of files that stay, and the others. -/
theorem perm_keys_cleared {others : List DocId}
    (live : catalog.documents.keys.Perm (watched.files.values ++ others)) :
    (watched.cleared disk existing catalog).documents.keys.Perm
      ((watched.kept disk existing catalog).values ++ others) := by
  refine Catalog.perm_keys_removeAll (live.trans ?_)
  rw [← List.append_assoc]
  exact (perm_stale disk existing catalog watched.files.entries).symm.append_right others

/-- New files are tracked beside those that stay. -/
theorem perm_track {files : OrderedMap Path DocId} {indexed : List (Path × DocId)}
    (fresh : ∀ entry ∈ indexed, files.get? entry.1 = none)
    (distinct : (indexed.map fun entry => entry.1.parts).Nodup) :
    (track files indexed).entries.Perm (indexed ++ files.entries) := by
  induction indexed generalizing files with
  | nil => exact .refl _
  | cons entry rest ih =>
      rw [List.map_cons, List.nodup_cons] at distinct
      have later : ∀ other ∈ rest, (files.insert entry.1 entry.2).get? other.1 = none := by
        intro other member
        rw [OrderedMap.get?_insert, if_neg]
        · exact fresh other (List.mem_cons_of_mem _ member)
        · intro same
          rw [Path.compare_eq_iff] at same
          exact distinct.1 (same ▸ List.mem_map_of_mem member)
      have added := OrderedMap.perm_insert_of_get?_eq_none entry.2 (fresh entry List.mem_cons_self)
      exact ((ih later distinct.2).trans (added.append_left _)).trans List.perm_middle

end Watched

/-- The content that each document was made of, where it is told for a number and the path of its
file. -/
abbrev Source := DocId → Path → Option Bytes

/-- All documents are what the content they were made of gives, and all numbers have been taken. -/
structure Catalog.Recorded (catalog : Catalog) (extensions : ExtensionSettings) (source : Source) :
    Prop where
  faithful : ∃ origins, catalog.snapshot.Faithful origins
  content : ∀ {id document}, catalog.document? id = some document →
    ∃ bytes, source id document.path = some bytes ∧
      catalog.gist? id = Gist.ofContent? extensions document.path bytes ∧
      Disk.IsFileSpelling document.path

/-- The counter of a recorded catalog has not come round. -/
theorem Catalog.Recorded.counts {catalog : Catalog} {extensions : ExtensionSettings}
    {source : Source} (recorded : catalog.Recorded extensions source) : catalog.nextId ≠ 0 := by
  obtain ⟨origins, faithful⟩ := recorded.faithful
  exact faithful.counts

/-- The documents of a recorded catalog have numbers from 1 to the greatest. -/
theorem Catalog.Recorded.numbered {catalog : Catalog} {extensions : ExtensionSettings}
    {source : Source} (recorded : catalog.Recorded extensions source) (id : DocId)
    (live : catalog.isLive id = true) : 1 ≤ id ∧ id ≤ catalog.greatestId := by
  obtain ⟨origins, faithful⟩ := recorded.faithful
  obtain ⟨document, found⟩ := Option.isSome_iff_exists.mp live
  exact (Catalog.isTaken_iff faithful.counts id).mp (faithful.taken found)

/-- All files have documents, and no file has been left out. -/
structure Watched.Tracks (watched : Watched) (catalog : Catalog) : Prop where
  uncapped : watched.capped = .empty
  filed : ∀ entry ∈ watched.files.entries,
    ∃ document, catalog.document? entry.2 = some document ∧ document.path = entry.1

/-- Wherever a tracked path leads to something else than the content that was indexed, this has changed
in a later second than the one that is recorded. -/
def Watched.Noticed (watched : Watched) (disk : Disk) (source : Source) (catalog : Catalog) :
    Prop :=
  ∀ entry ∈ watched.files.entries, ∀ document, catalog.document? entry.2 = some document →
    ∀ modified, disk.modified? entry.1 = some modified →
      (disk.file? entry.1).map Prod.fst = source entry.2 entry.1 ∨
        compare (disk.zone.moment modified) document.facts.modified = .gt

/-- A watched path that is about to be synced: its documents and some others are all there are, what is
indexed now is told of by the source, and there is room for all files that exist. -/
structure SyncReady (settings : Settings) (source : Source) (disk : Disk)
    (existing : OrderedSet Path) (watched : Watched) (others : List DocId) (catalog : Catalog) :
    Prop where
  recorded : catalog.Recorded settings.extensions source
  tracks : watched.Tracks catalog
  live : catalog.documents.keys.Perm (watched.files.values ++ others)
  fresh : ∀ id path, catalog.nextId ≤ id → source id path = (disk.file? path).map Prod.fst
  found : ∀ file ∈ existing.toList, ∃ modified, disk.modified? file = some modified
  fits : settings.watch.maxFilesPerPath = 0 ∨ existing.size ≤ settings.watch.maxFilesPerPath

namespace SyncReady

variable {settings : Settings} {source : Source} {disk : Disk} {existing : OrderedSet Path}
  {watched : Watched} {others : List DocId} {catalog : Catalog}

section

variable (ready : SyncReady settings source disk existing watched others catalog)

include ready

/-- No number is tracked twice. -/
theorem nodup_ids : (watched.files.values ++ others).Nodup :=
  ready.live.nodup_iff.mp catalog.documents.nodup_keys

theorem syncFiles_eq : ∃ report, report.added + report.updated =
      (watched.indexed disk existing catalog settings).1.length ∧
    watched.syncFiles settings disk catalog existing =
      ⟨report, ⟨Watched.track (watched.kept disk existing catalog)
        (watched.indexed disk existing catalog settings).1, .empty⟩,
      (watched.indexed disk existing catalog settings).2⟩ := by
  apply Watched.syncFiles_eq ready.tracks.uncapped ready.nodup_ids.of_append_left
  rw [Watched.size_kept_add]
  exact ready.fits

/-- No more files are indexed than there are. -/
theorem report_le : (watched.syncFiles settings disk catalog existing).report.added +
    (watched.syncFiles settings disk catalog existing).report.updated ≤ existing.size := by
  obtain ⟨report, counted, synced⟩ := ready.syncFiles_eq
  have fewer := (Indexable.sublist_ofFiles settings.extensions disk
    (watched.waiting disk existing catalog)).length_le
  have all : _ = existing.size := @Watched.size_kept_add watched disk existing catalog
  rw [List.length_map] at fewer
  rw [synced]
  rw [Catalog.length_registerAll] at counted
  unfold Watched.items at counted
  simp only
  omega

/-- The documents that stay are untouched when stale ones are cleared away. -/
theorem kept_cleared {id : DocId}
    (stays : id ∈ (watched.kept disk existing catalog).values ++ others) :
    (watched.cleared disk existing catalog).document? id = catalog.document? id ∧
      ∀ word, (watched.cleared disk existing catalog).places word id = catalog.places word id := by
  unfold Watched.cleared
  refine ⟨?_, fun word => Catalog.places_removeAll ..⟩
  rw [Catalog.document?_removeAll, if_neg (Watched.not_mem_stale ready.nodup_ids stays)]

/-- An id among those that stay was taken before. -/
theorem taken_of_mem {id : DocId}
    (stays : id ∈ (watched.kept disk existing catalog).values ++ others) :
    id < (watched.cleared disk existing catalog).nextId := by
  have live : (watched.cleared disk existing catalog).isLive id = true :=
    OrderedMap.contains_iff.mpr ((Watched.perm_keys_cleared ready.live).mem_iff.mpr stays)
  obtain ⟨document, found⟩ := Option.isSome_iff_exists.mp live
  obtain ⟨origins, faithful⟩ := ready.recorded.faithful
  exact ((Catalog.faithful_removeAll faithful _).taken found).2

variable (room : catalog.nextId.toNat +
  (watched.items disk existing catalog settings).length < UInt64.size)

include room

omit ready in
/-- There are numbers enough for the files that are indexed. -/
theorem room_cleared : (watched.cleared disk existing catalog).nextId.toNat +
    (watched.items disk existing catalog settings).length < UInt64.size := by
  unfold Watched.cleared
  rwa [Catalog.nextId_removeAll]

/-- A sync leaves the documents of files that stay, and the others. -/
theorem kept_synced {id : DocId}
    (stays : id ∈ (watched.kept disk existing catalog).values ++ others) :
    (watched.indexed disk existing catalog settings).2.document? id = catalog.document? id ∧
      ∀ word, (watched.indexed disk existing catalog settings).2.places word id =
        catalog.places word id := by
  obtain ⟨document, places⟩ := Catalog.kept_registerAll
    (watched.items disk existing catalog settings) (ready.taken_of_mem stays) (room_cleared room)
  obtain ⟨before, recorded⟩ := ready.kept_cleared stays
  exact ⟨document.trans before, fun word => (places word).trans (recorded word)⟩

omit ready room in
/-- The files that are indexed are some of those that wait, in their order. -/
theorem parts_indexed :
    ((watched.indexed disk existing catalog settings).1.map fun entry => entry.1.parts).Sublist
      ((watched.waiting disk existing catalog).map Path.parts) := by
  have paths := Catalog.paths_registerAll (watched.cleared disk existing catalog)
    (watched.items disk existing catalog settings)
  have listed := (Indexable.sublist_ofFiles settings.extensions disk
    (watched.waiting disk existing catalog)).map Path.parts
  have same := congrArg (List.map Path.parts) paths
  rw [List.map_map] at same
  exact same ▸ listed

omit ready room in
/-- What is indexed is tracked beside the files that stay. -/
theorem perm_tracked : (Watched.track (watched.kept disk existing catalog)
      (watched.indexed disk existing catalog settings).1).entries.Perm
    ((watched.indexed disk existing catalog settings).1 ++
      (watched.kept disk existing catalog).entries) := by
  have indexed : (List.map _ _).Sublist _ :=
    @parts_indexed settings disk existing watched catalog
  have perm : (((watched.kept disk existing catalog).keys ++
      watched.waiting disk existing catalog).map Path.parts).Perm _ := Watched.perm_parts
  have apart := perm.nodup_iff.mpr (nodup_parts existing.ascending)
  rw [List.map_append] at apart
  refine Watched.perm_track ?_ (apart.of_append_right.sublist indexed)
  intro entry member
  rw [← Option.not_isSome_iff_eq_none]
  intro held
  obtain ⟨key, there, same⟩ := OrderedMap.contains_iff_exists.mp held
  rw [Path.compare_eq_iff] at same
  have waits := indexed.subset (List.mem_map_of_mem member)
  exact List.disjoint_of_nodup_append apart (List.mem_map_of_mem there) (same ▸ waits)

/-- The numbers that are tracked afterwards, and the others, are those of all documents. -/
theorem perm_keys_synced : (watched.indexed disk existing catalog settings).2.documents.keys.Perm
    ((Watched.track (watched.kept disk existing catalog)
      (watched.indexed disk existing catalog settings).1).values ++ others) := by
  obtain ⟨origins, faithful⟩ := ready.recorded.faithful
  have added := Catalog.perm_keys_registerAll (Catalog.faithful_removeAll faithful
    (stale disk existing catalog watched.files.entries)) _ (room_cleared room)
  have tracked : List.Perm _ _ := @perm_tracked settings disk existing watched catalog
  have values := tracked.map Prod.snd
  rw [List.map_append] at values
  apply (added.trans ((Watched.perm_keys_cleared ready.live).append_left _)).trans
  rw [← List.append_assoc]
  exact values.symm.append_right others

/-- After a sync all documents are what the content they were made of gives. -/
theorem recorded_synced :
    (watched.indexed disk existing catalog settings).2.Recorded settings.extensions source := by
  obtain ⟨origins, faithful⟩ := ready.recorded.faithful
  have cleared := Catalog.faithful_removeAll faithful
    (stale disk existing catalog watched.files.entries)
  refine ⟨⟨_, Catalog.faithful_registerAll cleared _ (room_cleared room)⟩, ?_⟩
  intro id document found
  have live := OrderedMap.contains_iff.mp (Option.isSome_of_eq_some found)
  rcases List.mem_append.mp ((Catalog.perm_keys_registerAll cleared _
    (room_cleared room)).mem_iff.mp live) with new | old
  · obtain ⟨entry, member, rfl⟩ := List.mem_map.mp new
    obtain ⟨item, held, -, later, files⟩ := Catalog.files_registerAll cleared (room_cleared room)
      member
    obtain ⟨-, content, modified, looked, gist⟩ :=
      Indexable.of_ofFile (Indexable.mem_ofFiles held).2
    have same : document = item.document entry.2 :=
      Option.some.inj (found.symm.trans files.document)
    have path : document.path = item.path := congrArg Document.path same
    rw [Catalog.nextId_removeAll] at later
    refine ⟨content, ?_, ?_, ?_⟩
    · rw [path, ready.fresh entry.2 item.path later]
      unfold Disk.file?
      rw [looked]
      rfl
    · rw [files.gist?_eq, path, gist]
    · rw [path]
      exact ⟨disk, _, Entry.noConfusion, looked⟩
  · obtain ⟨before, places⟩ := ready.kept_synced room
      ((Watched.perm_keys_cleared ready.live).mem_iff.mp old)
    rw [Catalog.gist?_congr before places]
    exact ready.recorded.content (before ▸ found)

/-- After a sync all files of the path that give something have documents. -/
theorem tracks_synced : Watched.Tracks ⟨Watched.track (watched.kept disk existing catalog)
      (watched.indexed disk existing catalog settings).1, .empty⟩
    (watched.indexed disk existing catalog settings).2 := by
  refine ⟨rfl, fun entry member => ?_⟩
  obtain ⟨origins, faithful⟩ := ready.recorded.faithful
  rcases List.mem_append.mp (perm_tracked.mem_iff.mp member) with new | old
  · obtain ⟨item, -, path, -, files⟩ := Catalog.files_registerAll
      (Catalog.faithful_removeAll faithful _) (room_cleared room) new
    exact ⟨_, files.document, path.symm⟩
  · obtain ⟨before, -⟩ := ready.kept_synced room
      (List.mem_append_left others (List.mem_map_of_mem old))
    obtain ⟨document, found, path⟩ := ready.tracks.filed entry (List.mem_of_mem_filter old)
    exact ⟨document, before.trans found, path⟩

omit room

/-- The paths of files that are tracked or wait are spelt as files are. -/
theorem isFileSpelling_of_mem {file : Path}
    (member : file ∈ (watched.kept disk existing catalog).keys ++
      watched.waiting disk existing catalog) : Disk.IsFileSpelling file := by
  have tracked : ∀ entry ∈ watched.files.entries, Disk.IsFileSpelling entry.1 := by
    intro entry member
    obtain ⟨document, found, path⟩ := ready.tracks.filed entry member
    obtain ⟨bytes, -, -, spelling⟩ := ready.recorded.content found
    exact path ▸ spelling
  rcases List.mem_append.mp member with kept | waits
  · obtain ⟨entry, held, rfl⟩ := List.mem_map.mp kept
    exact tracked entry (List.mem_of_mem_filter held)
  · rcases List.mem_append.mp (List.mem_mergeSort.mp waits) with new | changed
    · obtain ⟨modified, found⟩ := ready.found file (List.mem_of_mem_filter new)
      exact Disk.isFileSpelling_of_modified? found
    · obtain ⟨entry, held, rfl⟩ := List.mem_map.mp changed
      exact tracked entry (List.mem_of_mem_filter held)

/-- A file that stays gives what its document has. -/
theorem gist?_of_kept (noticed : watched.Noticed disk source catalog) {entry : Path × DocId}
    (member : entry ∈ (watched.kept disk existing catalog).entries) :
    catalog.gist? entry.2 = Gist.ofPath? settings.extensions disk entry.1 := by
  obtain ⟨held, stays⟩ := List.mem_filter.mp member
  have same : fateOf disk existing catalog entry.1 entry.2 = .same := beq_iff_eq.mp stays
  have there : existing.contains entry.1 = true := by
    rw [← Bool.not_eq_false]
    intro missing
    rw [(fateOf_eq_gone disk existing).mpr missing] at same
    cases same
  obtain ⟨other, listed, alike⟩ := OrderedSet.contains_iff_exists.mp there
  obtain ⟨modified, reached⟩ := ready.found other listed
  obtain ⟨document, found, path⟩ := ready.tracks.filed entry held
  obtain ⟨bytes, indexed, gist, spelling⟩ := ready.recorded.content found
  rw [path] at indexed gist spelling
  rw [← Disk.modified?_congr spelling (Disk.isFileSpelling_of_modified? reached)
    (Path.compare_eq_iff.mp alike)] at reached
  rcases noticed entry held document found modified reached with unchanged | later
  · rw [indexed] at unchanged
    obtain ⟨pair, read, first⟩ := Option.map_eq_some_iff.mp unchanged
    unfold Gist.ofPath?
    rw [gist, read, Option.bind_some, first]
  · exact absurd later (not_later_of_same disk existing same found reached)

/-- After a sync the documents of a path have the gists of all its files. -/
theorem gists_synced (noticed : watched.Noticed disk source catalog)
    (room : catalog.nextId.toNat +
      (watched.items disk existing catalog settings).length < UInt64.size) :
    ((Watched.track (watched.kept disk existing catalog)
      (watched.indexed disk existing catalog settings).1).values.filterMap
      (watched.indexed disk existing catalog settings).2.gist?).Perm
      (existing.toList.filterMap (Gist.ofPath? settings.extensions disk)) := by
  have tracked : List.Perm _ _ := @perm_tracked settings disk existing watched catalog
  have values := tracked.map Prod.snd
  rw [List.map_append] at values
  obtain ⟨origins, faithful⟩ := ready.recorded.faithful
  have new := Catalog.gists_registerAll (Catalog.faithful_removeAll faithful
    (stale disk existing catalog watched.files.entries)) _ (room_cleared room)
  have waiting := Indexable.gists_ofFiles settings.extensions disk
    (watched.waiting disk existing catalog)
  have old : ((watched.kept disk existing catalog).entries.map Prod.snd).filterMap
      (watched.indexed disk existing catalog settings).2.gist? =
      (watched.kept disk existing catalog).keys.filterMap
        (Gist.ofPath? settings.extensions disk) := by
    rw [OrderedMap.keys, List.filterMap_map, List.filterMap_map]
    apply List.filterMap_congr
    intro entry member
    obtain ⟨document, places⟩ := ready.kept_synced room
      (List.mem_append_left others (List.mem_map_of_mem member))
    exact (Catalog.gist?_congr document places).trans (ready.gist?_of_kept noticed member)
  have listed : ∀ file ∈ existing.toList, Disk.IsFileSpelling file := by
    intro file member
    obtain ⟨modified, found⟩ := ready.found file member
    exact Disk.isFileSpelling_of_modified? found
  apply (values.filterMap _).trans
  rw [List.filterMap_append, old]
  apply List.Perm.trans (List.Perm.of_eq (congrArg (· ++ _) (new.trans waiting)))
  apply List.perm_append_comm.trans
  rw [← List.filterMap_append]
  exact perm_filterMap_of_perm_map _ Watched.perm_parts fun first member second there same =>
    Gist.ofPath?_congr (ready.isFileSpelling_of_mem member) (listed second there) same disk

end

/-- What is known after a sync: the catalog and the path are as before a sync again, no other document
has changed, and as many numbers have been taken as files have been indexed. -/
structure Outcome (settings : Settings) (source : Source) (disk : Disk) (existing : OrderedSet Path)
    (watched : Watched) (others : List DocId) (catalog : Catalog) (synced : Synced) : Prop where
  recorded : synced.catalog.Recorded settings.extensions source
  tracks : synced.watched.Tracks synced.catalog
  live : synced.catalog.documents.keys.Perm (synced.watched.files.values ++ others)
  unmoved : ∀ id ∈ others, synced.catalog.document? id = catalog.document? id ∧
    ∀ word, synced.catalog.places word id = catalog.places word id
  counter : synced.catalog.nextId.toNat =
    catalog.nextId.toNat + synced.report.added + synced.report.updated
  gists : watched.Noticed disk source catalog →
    (synced.watched.files.values.filterMap synced.catalog.gist?).Perm
      (existing.toList.filterMap (Gist.ofPath? settings.extensions disk))

/-- A sync brings the documents of a path in step with its files. -/
theorem outcome (ready : SyncReady settings source disk existing watched others catalog)
    (room : catalog.nextId.toNat +
      (watched.syncFiles settings disk catalog existing).report.added +
      (watched.syncFiles settings disk catalog existing).report.updated < UInt64.size) :
    Outcome settings source disk existing watched others catalog
      (watched.syncFiles settings disk catalog existing) := by
  obtain ⟨report, counted, synced⟩ := ready.syncFiles_eq
  rw [synced] at room ⊢
  rw [Catalog.length_registerAll] at counted
  have fits : catalog.nextId.toNat +
      (watched.items disk existing catalog settings).length < UInt64.size := by
    simp only at room
    omega
  refine ⟨ready.recorded_synced fits, ready.tracks_synced fits, ready.perm_keys_synced fits, ?_, ?_,
    fun noticed => ready.gists_synced noticed fits⟩
  · exact fun id member => ready.kept_synced fits (List.mem_append_right _ member)
  · have next := Catalog.toNat_nextId_registerAll _ (room_cleared fits)
    rw [Watched.cleared, Catalog.nextId_removeAll] at next
    simp only
    rw [next]
    omega

end SyncReady
end Concordance
