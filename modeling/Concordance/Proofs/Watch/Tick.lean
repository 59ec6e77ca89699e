import Concordance.Proofs.Collecting
import Concordance.Proofs.Watch.Sync
import Mathlib.Algebra.GroupWithZero.Nat

namespace Concordance

/-- The files that a sync of a watched path finds. -/
def eligible (settings : Settings) (disk : Disk) (root : Path) : OrderedSet Path :=
  .ofList (if disk.holds root then
    ((collectFiles settings.extensions disk root).toOption).getD [] else [])

/-- Every eligible file has a time of its last change. -/
theorem modified?_of_mem_eligible {settings : Settings} {disk : Disk} {root file : Path}
    (member : file ∈ (eligible settings disk root).toList) :
    ∃ modified, disk.modified? file = some modified := by
  have listed := OrderedSet.mem_of_mem_ofList member
  by_cases there : disk.holds root = true
  · obtain ⟨files, collected⟩ : ∃ files, collectFiles settings.extensions disk root = .ok files :=
      collectFiles_of_holds there
    rw [if_pos there, collected] at listed
    exact modified?_of_mem_collectFiles collected listed
  · rw [if_neg there] at listed
    cases listed

/-- A sync of a path never fails. -/
theorem Watched.sync_eq (watched : Watched) (settings : Settings) (disk : Disk) (catalog : Catalog)
    (root : Path) : watched.sync settings disk catalog root =
      .ok (watched.syncFiles settings disk catalog (eligible settings disk root)) := by
  unfold sync eligible
  by_cases there : disk.holds root = true
  · obtain ⟨files, collected⟩ : ∃ files, collectFiles settings.extensions disk root = .ok files :=
      collectFiles_of_holds there
    rw [if_pos there, if_pos there, collected]
    rfl
  · rw [if_neg there, if_neg there]
    rfl

/-- The greatest number of files leaves none of them out. -/
def HasRoom (settings : Settings) (disk : Disk) (root : Path) : Prop :=
  settings.watch.maxFilesPerPath = 0 ∨
    (eligible settings disk root).size ≤ settings.watch.maxFilesPerPath

/-- The gists of the files of a watched path. -/
def gistsOfRoot (settings : Settings) (disk : Disk) (root : Path) : List Gist :=
  (eligible settings disk root).toList.filterMap (Gist.ofPath? settings.extensions disk)

namespace Watch

/-- The numbers of all tracked files. -/
def ids (watch : Watch) : List DocId :=
  watch.roots.values.flatMap fun watched => watched.files.values

/-- The documents are those of the tracked files, each is what its content gave, and no file has been
left out. -/
structure InStep (watch : Watch) (extensions : ExtensionSettings) (source : Source)
    (catalog : Catalog) : Prop where
  recorded : catalog.Recorded extensions source
  tracks : ∀ {root watched}, watch.roots.get? root = some watched → watched.Tracks catalog
  live : catalog.documents.keys.Perm watch.ids

/-- The path that is synced for a root, as a new one when it is not watched yet. -/
def watched (watch : Watch) (root : Path) : Watched :=
  { (watch.roots.get? root).getD .empty with capped := .empty }

/-- The numbers that are tracked are those of one path and those of the others. -/
theorem perm_ids (watch : Watch) (root : Path) :
    watch.ids.Perm ((watch.watched root).files.values ++ (watch.remove root).ids) := by
  have perm := (OrderedMap.perm_values_erase watch.roots root).flatMap_right
    fun watched => watched.files.values
  rw [List.flatMap_append] at perm
  refine perm.trans (List.Perm.of_eq (congrArg (· ++ _) ?_))
  unfold Watch.watched
  cases watch.roots.get? root with
  | none => rfl
  | some watched => exact List.flatMap_singleton ..

theorem perm_ids_insert (watch : Watch) (root : Path) (watched : Watched) :
    ({ watch with roots := watch.roots.insert root watched } : Watch).ids.Perm
      (watched.files.values ++ (watch.remove root).ids) :=
  (OrderedMap.perm_values_insert watch.roots root watched).flatMap_right _

theorem mem_ids_remove {watch : Watch} {root other : Path} {watched : Watched} {id : DocId}
    (apart : compare other root ≠ .eq) (found : watch.roots.get? other = some watched)
    (member : id ∈ watched.files.values) : id ∈ (watch.remove root).ids := by
  have kept : (watch.roots.erase root).get? other = some watched := by
    rw [OrderedMap.get?_erase, if_neg apart]
    exact found
  obtain ⟨key, -, entry⟩ := OrderedMap.get?_eq_some_iff_exists.mp kept
  exact List.mem_flatMap.mpr ⟨watched, List.mem_map_of_mem entry, member⟩

variable {watch : Watch} {settings : Settings} {source : Source} {disk : Disk} {catalog : Catalog}

/-- Where the catalog is in step, any watched path can be synced. -/
theorem InStep.syncReady (inStep : watch.InStep settings.extensions source catalog)
    (fresh : ∀ id path, catalog.nextId ≤ id → source id path = (disk.file? path).map Prod.fst)
    {root : Path} (room : HasRoom settings disk root) :
    SyncReady settings source disk (eligible settings disk root) (watch.watched root)
      (watch.remove root).ids catalog where
  recorded := inStep.recorded
  tracks := by
    refine ⟨rfl, ?_⟩
    unfold Watch.watched
    cases found : watch.roots.get? root with
    | none =>
        intro entry member
        cases member
    | some watched => exact (inStep.tracks found).filed
  live := inStep.live.trans (watch.perm_ids root)
  fresh := fresh
  found _ member := modified?_of_mem_eligible member
  fits := room

/-- A sync of one path keeps the catalog in step. -/
theorem InStep.insert (inStep : watch.InStep settings.extensions source catalog) {root : Path}
    {existing : OrderedSet Path} {watched : Watched} {synced : Synced}
    (outcome : SyncReady.Outcome settings source disk existing watched (watch.remove root).ids
      catalog synced) :
    ({ watch with roots := watch.roots.insert root synced.watched } : Watch).InStep
      settings.extensions source synced.catalog where
  recorded := outcome.recorded
  tracks := by
    intro other tracked found
    change (watch.roots.insert root synced.watched).get? other = some tracked at found
    rw [OrderedMap.get?_insert] at found
    by_cases same : compare other root = .eq
    · rw [if_pos same] at found
      cases found
      exact outcome.tracks
    · rw [if_neg same] at found
      refine ⟨(inStep.tracks found).uncapped, fun entry member => ?_⟩
      obtain ⟨document, stored, path⟩ := (inStep.tracks found).filed entry member
      have here := mem_ids_remove same found (List.mem_map_of_mem member)
      exact ⟨document, (outcome.unmoved entry.2 here).1.trans stored, path⟩
  live := outcome.live.trans (watch.perm_ids_insert root synced.watched).symm

/-- What is told of the documents that are there is all that counts. -/
theorem InStep.of_source {extensions : ExtensionSettings} {other : Source}
    (inStep : watch.InStep extensions source catalog)
    (same : ∀ id document, catalog.document? id = some document →
      other id document.path = source id document.path) :
    watch.InStep extensions other catalog := by
  refine ⟨⟨inStep.recorded.faithful, fun found => ?_⟩, inStep.tracks, inStep.live⟩
  rw [same _ _ found]
  exact inStep.recorded.content found

/-- Adding a path syncs it. -/
theorem add_eq (watch : Watch) (settings : Settings) (disk : Disk) (catalog : Catalog)
    (root : Path) : watch.add settings disk catalog root =
      let synced := (watch.watched root).syncFiles settings disk catalog
        (eligible settings disk root)
      (.ok synced.report, { watch with roots := watch.roots.insert root synced.watched },
        synced.catalog) := by
  unfold add
  simp only [Watched.sync_eq]
  rfl

/-- What is known after paths have been synced one after another. -/
structure AfterSyncs (settings : Settings) (source : Source) (disk : Disk) (roots : List Path)
    (watch : Watch) (catalog : Catalog) (result : SyncReport × Watch × Catalog) : Prop where
  inStep : result.2.1.InStep settings.extensions source result.2.2
  counter : result.2.2.nextId.toNat =
    catalog.nextId.toNat + result.1.added + result.1.updated
  unmoved : ∀ root, (∀ other ∈ roots, compare root other ≠ .eq) →
    ∀ watched, watch.roots.get? root = some watched →
      result.2.1.roots.get? root = some watched ∧
      ∀ id ∈ watched.files.values, result.2.2.document? id = catalog.document? id ∧
        ∀ word, result.2.2.places word id = catalog.places word id
  gists : roots.Pairwise (fun first second => compare first second ≠ .eq) →
    (∀ root ∈ roots, ∀ watched, watch.roots.get? root = some watched →
      watched.Noticed disk source catalog) →
    ∀ root ∈ roots, ∃ watched, result.2.1.roots.get? root = some watched ∧
      (watched.files.values.filterMap result.2.2.gist?).Perm (gistsOfRoot settings disk root)

/-- What is tracked for a root is noticed as soon as that of the watch is. -/
theorem noticed_watched {root : Path} (noticed : ∀ watched, watch.roots.get? root = some watched →
    watched.Noticed disk source catalog) : (watch.watched root).Noticed disk source catalog := by
  unfold Watch.watched
  cases found : watch.roots.get? root with
  | none =>
      intro entry member
      cases member
  | some watched => exact noticed watched found

/-- The sync of a first path goes on with those of the others. -/
theorem AfterSyncs.cons {root : Path} {rest : List Path} {synced : Synced}
    {later : SyncReport × Watch × Catalog}
    (outcome : SyncReady.Outcome settings source disk (eligible settings disk root)
      (watch.watched root) (watch.remove root).ids catalog synced)
    (onward : AfterSyncs settings source disk rest
      { watch with roots := watch.roots.insert root synced.watched } synced.catalog later) :
    AfterSyncs settings source disk (root :: rest) watch catalog
      (synced.report.add later.1, later.2.1, later.2.2) := by
  have others : ∀ {other watched}, compare other root ≠ .eq →
      watch.roots.get? other = some watched →
      (watch.roots.insert root synced.watched).get? other = some watched := by
    intro other watched apart found
    rw [OrderedMap.get?_insert, if_neg apart]
    exact found
  refine ⟨onward.inStep, ?_, ?_, ?_⟩
  · have first := outcome.counter
    have more := onward.counter
    simp only [SyncReport.add]
    omega
  · intro other apart watched found
    have here := apart root List.mem_cons_self
    obtain ⟨still, same⟩ := onward.unmoved other
      (fun next member => apart next (List.mem_cons_of_mem _ member)) watched (others here found)
    refine ⟨still, fun id member => ?_⟩
    obtain ⟨document, places⟩ := same id member
    obtain ⟨before, recorded⟩ := outcome.unmoved id (mem_ids_remove here found member)
    exact ⟨document.trans before, fun word => (places word).trans (recorded word)⟩
  · intro distinct noticed other member
    obtain ⟨apart, distinct⟩ := List.pairwise_cons.mp distinct
    rcases List.mem_cons.mp member with rfl | member
    · obtain ⟨still, same⟩ := onward.unmoved other apart synced.watched
        (OrderedMap.get?_insert_self _ _ _)
      refine ⟨synced.watched, still, ?_⟩
      rw [List.filterMap_congr fun id held => Catalog.gist?_congr (same id held).1 (same id held).2]
      exact outcome.gists (noticed_watched (noticed other List.mem_cons_self))
    -- What the later paths track was noticed before the first sync, which has not touched it.
    · refine onward.gists distinct ?_ other member
      intro next listed watched found entry held document stored
      have different : compare next root ≠ .eq := fun same =>
        apart next listed (Std.OrientedCmp.eq_symm same)
      change (watch.roots.insert root synced.watched).get? next = some watched at found
      rw [OrderedMap.get?_insert, if_neg different] at found
      rw [(outcome.unmoved entry.2
        (mem_ids_remove different found (List.mem_map_of_mem held))).1] at stored
      exact noticed next (List.mem_cons_of_mem _ listed) watched found entry held document stored

/-- Syncs of paths are a sync of the first and then those of the others. -/
theorem syncRoots_cons (watch : Watch) (settings : Settings) (disk : Disk) (catalog : Catalog)
    (root : Path) (rest : List Path) (inStep : watch.InStep settings.extensions source catalog) :
    watch.syncRoots settings disk catalog (root :: rest) =
      let synced := (watch.watched root).syncFiles settings disk catalog
        (eligible settings disk root)
      let later := ({ watch with roots := watch.roots.insert root synced.watched } :
        Watch).syncRoots settings disk synced.catalog rest
      (synced.report.add later.1, later.2.1, later.2.2) := by
  have same : (watch.roots.get? root).getD .empty = watch.watched root := by
    unfold Watch.watched
    cases found : watch.roots.get? root with
    | none => rfl
    | some watched =>
        have uncapped := (inStep.tracks found).uncapped
        show watched = { watched with capped := .empty }
        rw [← uncapped]
  rw [syncRoots, Watched.sync_eq, same]

/-- Syncs of paths keep the catalog in step, and bring each of these paths in step with its files. -/
theorem afterSyncs_syncRoots (roots : List Path)
    (inStep : watch.InStep settings.extensions source catalog)
    (fresh : ∀ id path, catalog.nextId ≤ id → source id path = (disk.file? path).map Prod.fst)
    (rooms : ∀ root ∈ roots, HasRoom settings disk root)
    (counts : catalog.nextId.toNat + (watch.syncRoots settings disk catalog roots).1.added +
      (watch.syncRoots settings disk catalog roots).1.updated < UInt64.size) :
    AfterSyncs settings source disk roots watch catalog
      (watch.syncRoots settings disk catalog roots) := by
  induction roots generalizing watch catalog with
  | nil =>
      refine ⟨inStep, rfl, ?_, ?_⟩
      · exact fun root _ watched found => ⟨found, fun id _ => ⟨rfl, fun _ => rfl⟩⟩
      · intro _ _ root member
        cases member
  | cons root rest ih =>
      rw [syncRoots_cons watch settings disk catalog root rest inStep] at counts ⊢
      simp only [SyncReport.add] at counts
      have outcome := (inStep.syncReady fresh (rooms root List.mem_cons_self)).outcome (by omega)
      have counter := outcome.counter
      -- The first sync leaves catalog and watch in step, so the others start as it did.
      refine .cons outcome (ih (inStep.insert outcome) ?_ ?_ ?_)
      · intro id path later
        apply fresh id path
        rw [UInt64.le_iff_toNat_le] at later ⊢
        omega
      · exact fun other member => rooms other (List.mem_cons_of_mem _ member)
      · omega

/-- Syncs of paths index no more files than there are. -/
theorem InStep.report_le (roots : List Path)
    (inStep : watch.InStep settings.extensions source catalog)
    (fresh : ∀ id path, catalog.nextId ≤ id → source id path = (disk.file? path).map Prod.fst)
    (rooms : ∀ root ∈ roots, HasRoom settings disk root)
    (fits : catalog.nextId.toNat + (roots.map fun root => (eligible settings disk root).size).sum <
      UInt64.size) :
    (watch.syncRoots settings disk catalog roots).1.added +
      (watch.syncRoots settings disk catalog roots).1.updated ≤
        (roots.map fun root => (eligible settings disk root).size).sum := by
  induction roots generalizing watch catalog with
  | nil => exact Nat.zero_le _
  | cons root rest ih =>
      have ready := inStep.syncReady fresh (rooms root List.mem_cons_self)
      have first := ready.report_le
      rw [List.map_cons, List.sum_cons] at fits ⊢
      have outcome := ready.outcome (by omega)
      have counter := outcome.counter
      have more := ih (inStep.insert outcome) (fun id path later => fresh id path (by
          rw [UInt64.le_iff_toNat_le] at later ⊢
          omega)) (fun other member => rooms other (List.mem_cons_of_mem _ member)) (by omega)
      rw [syncRoots_cons watch settings disk catalog root rest inStep]
      simp only [SyncReport.add]
      omega

/-- Syncs of watched paths watch no others. -/
theorem keys_syncRoots {roots : List Path}
    (watched : ∀ root ∈ roots, watch.roots.contains root = true) :
    (watch.syncRoots settings disk catalog roots).2.1.roots.keys = watch.roots.keys := by
  induction roots generalizing watch catalog with
  | nil => rfl
  | cons root rest ih =>
      rw [syncRoots, Watched.sync_eq]
      have same := OrderedMap.keys_insert_of_contains
        (((watch.roots.get? root).getD .empty).syncFiles settings disk catalog
          (eligible settings disk root)).watched (watched root List.mem_cons_self)
      refine (ih fun other member => ?_).trans same
      obtain ⟨key, held, equal⟩ :=
        OrderedMap.contains_iff_exists.mp (watched other (List.mem_cons_of_mem _ member))
      exact OrderedMap.contains_iff_exists.mpr ⟨key, same ▸ held, equal⟩

/-- A tick watches the same paths as before. -/
theorem keys_tick : (watch.tick settings disk catalog).2.1.roots.keys = watch.roots.keys :=
  keys_syncRoots fun root member =>
    OrderedMap.contains_iff_exists.mpr ⟨root, member, Std.ReflCmp.compare_self⟩

/-- The gists of all documents are those that are tracked for the watched paths. -/
theorem InStep.perm_gists (inStep : watch.InStep settings.extensions source catalog)
    (gists : ∀ root ∈ watch.roots.keys, ∃ watched, watch.roots.get? root = some watched ∧
      (watched.files.values.filterMap catalog.gist?).Perm (gistsOfRoot settings disk root)) :
    catalog.gists.Perm (watch.roots.keys.flatMap (gistsOfRoot settings disk)) := by
  have live : catalog.gists.Perm (watch.ids.filterMap catalog.gist?) :=
    inStep.live.filterMap catalog.gist?
  apply live.trans
  unfold ids OrderedMap.values OrderedMap.keys
  rw [List.filterMap_flatMap, List.flatMap_map, List.flatMap_map]
  apply List.Perm.flatMap_left _
  intro entry member
  obtain ⟨watched, found, perm⟩ := gists entry.1 (List.mem_map_of_mem member)
  rw [OrderedMap.get?_of_mem member] at found
  cases found
  exact perm

/-- After a tick the documents have the gists of all files below the watched paths. -/
theorem gists_tick (inStep : watch.InStep settings.extensions source catalog)
    (fresh : ∀ id path, catalog.nextId ≤ id → source id path = (disk.file? path).map Prod.fst)
    (rooms : ∀ root ∈ watch.roots.keys, HasRoom settings disk root)
    (noticed : ∀ root watched, watch.roots.get? root = some watched →
      watched.Noticed disk source catalog)
    (counts : catalog.nextId.toNat + (watch.tick settings disk catalog).1.added +
      (watch.tick settings disk catalog).1.updated < UInt64.size) :
    (watch.tick settings disk catalog).2.2.gists.Perm
      (watch.roots.keys.flatMap (gistsOfRoot settings disk)) := by
  have after := afterSyncs_syncRoots watch.roots.keys inStep fresh rooms counts
  have gists := after.gists watch.roots.pairwise_keys fun root _ watched found => noticed root watched found
  have keys : (watch.tick settings disk catalog).2.1.roots.keys = watch.roots.keys := keys_tick
  rw [← keys]
  exact after.inStep.perm_gists fun root member => gists root (keys ▸ member)

/-- The watched paths with nothing remembered of their files. -/
def forgotten (watch : Watch) : Watch :=
  { watch with roots := watch.roots.mapValues fun _ _ => .empty }

/-- After everything has been forgotten, every watched path is empty. -/
theorem get?_forgotten {root : Path} {watched : Watched}
    (found : watch.forgotten.roots.get? root = some watched) : watched = .empty := by
  obtain ⟨-, -, -, -, same⟩ := (OrderedMap.get?_mapValues watch.roots _ root watched).mp found
  exact same.symm

/-- After everything has been forgotten, no number is tracked. -/
theorem ids_forgotten : watch.forgotten.ids = [] := by
  apply List.flatMap_eq_nil_iff.mpr
  intro watched member
  obtain ⟨entry, held, rfl⟩ := List.mem_map.mp member
  rw [get?_forgotten (OrderedMap.get?_of_mem held)]
  rfl

/-- An emptied catalog is in step with watched paths of which nothing is remembered. -/
theorem inStep_forgotten {extensions : ExtensionSettings}
    (faithful : ∃ origins, catalog.snapshot.Faithful origins) :
    watch.forgotten.InStep extensions source catalog.clear where
  recorded := by
    obtain ⟨origins, faithful⟩ := faithful
    refine ⟨⟨origins, Catalog.faithful_clear faithful⟩, fun found => ?_⟩
    cases found
  tracks := by
    intro root watched found
    rw [get?_forgotten found]
    refine ⟨rfl, fun entry member => ?_⟩
    cases member
  live := by
    rw [ids_forgotten]
    exact .refl _

/-- A rebuild brings the catalog in step. -/
theorem inStep_rebuild (faithful : ∃ origins, catalog.snapshot.Faithful origins)
    (rooms : ∀ root ∈ watch.roots.keys, HasRoom settings disk root)
    (counts : catalog.nextId.toNat + (watch.rebuild settings disk catalog).1.added +
      (watch.rebuild settings disk catalog).1.updated < UInt64.size) :
    (watch.rebuild settings disk catalog).2.1.InStep settings.extensions
      (fun _ path => (disk.file? path).map Prod.fst) (watch.rebuild settings disk catalog).2.2 := by
  have keys : watch.forgotten.roots.keys = watch.roots.keys := OrderedMap.keys_mapValues ..
  rw [← keys] at rooms
  exact (afterSyncs_syncRoots _ (inStep_forgotten faithful) (fun _ _ _ => rfl) rooms counts).inStep

/-- After a rebuild the documents have the gists of all files below the watched paths. -/
theorem gists_rebuild (faithful : ∃ origins, catalog.snapshot.Faithful origins)
    (rooms : ∀ root ∈ watch.roots.keys, HasRoom settings disk root)
    (counts : catalog.nextId.toNat + (watch.rebuild settings disk catalog).1.added +
      (watch.rebuild settings disk catalog).1.updated < UInt64.size) :
    (watch.rebuild settings disk catalog).2.2.gists.Perm
      (watch.roots.keys.flatMap (gistsOfRoot settings disk)) := by
  have keys : watch.forgotten.roots.keys = watch.roots.keys := OrderedMap.keys_mapValues ..
  rw [← keys] at rooms ⊢
  refine gists_tick (inStep_forgotten faithful) (fun _ _ _ => rfl) rooms ?_ counts
  intro root watched found entry member
  rw [get?_forgotten found] at member
  cases member

end Watch
end Concordance
