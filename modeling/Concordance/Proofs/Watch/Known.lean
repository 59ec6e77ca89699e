import Concordance.Proofs.Watch.Below

/-! What a sync leaves known, whatever the greatest number of files is. -/
namespace Concordance

section Sweep

variable {disk : Disk} {existing : OrderedSet Path} {catalog : Catalog}
  {entries : List (Path × DocId)}

/-- A sweep adds no document. -/
theorem document?_of_sweep {id : DocId} {document : Document}
    (found : (sweep disk existing catalog entries).catalog.document? id = some document) :
    catalog.document? id = some document := by
  induction entries generalizing catalog with
  | nil => exact found
  | cons entry rest ih =>
      rw [sweep] at found
      split at found
      next => exact ih found
      next => exact Catalog.document?_of_removeDocument (ih found)
      next => exact Catalog.document?_of_removeDocument (ih found)

/-- The files that a sweep finds gone are some of the tracked ones, in their order. -/
theorem sublist_gone :
    (sweep disk existing catalog entries).gone.Sublist (entries.map Prod.fst) := by
  induction entries generalizing catalog with
  | nil => exact .slnil
  | cons entry rest ih =>
      rw [sweep]
      split
      next => exact ih.cons entry.1
      next => exact ih.cons_cons entry.1
      next => exact ih.cons entry.1

/-- Only files that exist can have changed. -/
theorem sublist_changed : (sweep disk existing catalog entries).changed.Sublist
    ((entries.map Prod.fst).filter existing.contains) := by
  induction entries generalizing catalog with
  | nil => exact .slnil
  | cons entry rest ih =>
      have longer := (List.sublist_cons_self entry.1 (rest.map Prod.fst)).filter existing.contains
      rw [sweep]
      split
      next => exact ih.trans longer
      next => exact ih.trans longer
      next fate =>
        have there : existing.contains entry.1 = true := by
          rw [← Bool.not_eq_false]
          intro missing
          rw [(fateOf_eq_gone disk existing).mpr missing] at fate
          cases fate
        rw [List.map_cons, List.filter_cons_of_pos there]
        exact ih.cons_cons entry.1

/-- A file that does not stay loses its document. -/
theorem document?_of_mem_sweep {entry : Path × DocId} (distinct : (entries.map Prod.fst).Nodup)
    (member : entry ∈ entries)
    (swept : entry.1 ∈ (sweep disk existing catalog entries).gone ∨
      entry.1 ∈ (sweep disk existing catalog entries).changed) :
    (sweep disk existing catalog entries).catalog.document? entry.2 = none := by
  induction entries generalizing catalog with
  | nil => cases member
  | cons head rest ih =>
      rw [List.map_cons, List.nodup_cons] at distinct
      have listed : ∀ {catalog : Catalog} {file : Path},
          file ∈ (sweep disk existing catalog rest).gone ∨
            file ∈ (sweep disk existing catalog rest).changed → file ∈ rest.map Prod.fst := by
        rintro catalog file (gone | changed)
        · exact sublist_gone.subset gone
        · exact List.mem_of_mem_filter (sublist_changed.subset changed)
      -- What the head has taken away stays away.
      have lost : ∀ {id : DocId},
          (sweep disk existing (catalog.removeDocument id) rest).catalog.document? id = none := by
        intro id
        rw [Option.eq_none_iff_forall_not_mem]
        intro document found
        have kept := document?_of_sweep found
        rw [Catalog.document?_removeDocument, if_pos rfl] at kept
        cases kept
      rcases List.mem_cons.mp member with rfl | later
      · rw [sweep] at swept ⊢
        split at swept
        next => exact absurd (listed swept) distinct.1
        next => exact lost
        next => exact lost
      · have other : entry.1 ≠ head.1 := fun same =>
          distinct.1 (same ▸ List.mem_map_of_mem later)
        rw [sweep] at swept ⊢
        split at swept
        next => exact ih distinct.2 later swept
        next => exact ih distinct.2 later (swept.imp_left (List.mem_of_ne_of_mem other))
        next => exact ih distinct.2 later (swept.imp_right (List.mem_of_ne_of_mem other))

end Sweep

/-- A document is one of before or one of the files that have been registered. -/
theorem Catalog.document?_of_registerAll {catalog : Catalog} {items : List Indexable} {id : DocId}
    {document : Document} (found : (catalog.registerAll items).2.document? id = some document) :
    catalog.document? id = some document ∨
      document.id = id ∧ (document.path, id) ∈ (catalog.registerAll items).1 := by
  induction items generalizing catalog with
  | nil => exact .inl found
  | cons item rest ih =>
      rw [registerAll_cons] at found ⊢
      rcases ih found with before | ⟨filed, later⟩
      · rw [document?_register] at before
        split at before
        next same =>
          cases before
          exact .inr ⟨rfl, List.mem_cons.mpr (.inl (same ▸ rfl))⟩
        next => exact .inl before
      · exact .inr ⟨filed, List.mem_cons_of_mem _ later⟩

namespace Watched

/-- What is indexed under other paths does not change how a path is tracked. -/
theorem get?_track_of_forall {files : OrderedMap Path DocId} {indexed : List (Path × DocId)}
    {file : Path} (others : ∀ entry ∈ indexed, file.parts ≠ entry.1.parts) :
    (track files indexed).get? file = files.get? file := by
  induction indexed generalizing files with
  | nil => rfl
  | cons entry rest ih =>
      rw [List.forall_mem_cons] at others
      show (track (files.insert entry.1 entry.2) rest).get? file = _
      rw [ih others.2, OrderedMap.get?_insert, if_neg (mt Path.compare_eq_iff.mp others.1)]

/-- A file that was indexed is tracked with its new number. -/
theorem get?_track_of_mem {files : OrderedMap Path DocId} {indexed : List (Path × DocId)}
    {file : Path} {id : DocId} (distinct : (indexed.map fun entry => entry.1.parts).Nodup)
    (member : (file, id) ∈ indexed) : (track files indexed).get? file = some id := by
  induction indexed generalizing files with
  | nil => cases member
  | cons entry rest ih =>
      rw [List.map_cons, List.nodup_cons] at distinct
      rcases List.mem_cons.mp member with rfl | later
      · show (track (files.insert file id) rest).get? file = _
        rw [get?_track_of_forall, OrderedMap.get?_insert, if_pos Std.ReflCmp.compare_self]
        exact fun other held same => distinct.1 (same ▸ List.mem_map_of_mem held)
      · exact ih distinct.2 later

variable {settings : Settings} {disk : Disk} {existing : OrderedSet Path} {watched : Watched}
  {catalog : Catalog} {root : Path}

/-- Files that a sync indexes exist, no two of them are the same, and those of them that were tracked
before have changed. -/
structure Chosen (watched : Watched) (existing : OrderedSet Path) (changed chosen : List Path) :
    Prop where
  distinct : (chosen.map Path.parts).Nodup
  exist : ∀ file ∈ chosen, existing.contains file = true
  changed : ∀ file ∈ chosen, watched.files.contains file = true → file ∈ changed

/-- The files that wait to be indexed, without those that have been left out before. -/
theorem chosen_waiting (catalog : Catalog) :
    let changed := (sweep disk existing catalog watched.files.entries).changed
    watched.Chosen existing changed ((existing.toList.filter fun file =>
      !watched.files.contains file &&
        !(watched.capped.filter existing.contains).contains file) ++ changed) := by
  intro changed
  have known : ∀ file ∈ changed, file ∈ watched.files.keys ∧ existing.contains file = true :=
    fun file member => List.mem_filter.mp (sublist_changed.subset member)
  have unknown : ∀ file, (!watched.files.contains file &&
      !(watched.capped.filter existing.contains).contains file) = true →
        watched.files.contains file = false := by
    intro file both
    rw [Bool.and_eq_true_iff, Bool.not_eq_true'] at both
    exact both.1
  refine ⟨?_, ?_, ?_⟩
  · have listed := nodup_parts existing.ascending
    have tracked := nodup_parts (List.pairwise_map.mpr watched.files.ascending)
    rw [List.map_append]
    refine (listed.sublist (List.filter_sublist.map _)).append
      (tracked.sublist ((sublist_changed.trans List.filter_sublist).map _)) ?_
    intro parts new old
    obtain ⟨file, held, rfl⟩ := List.mem_map.mp new
    obtain ⟨other, member, same⟩ := List.mem_map.mp old
    have there : watched.files.contains file = true :=
      OrderedMap.contains_iff_exists.mpr
        ⟨other, (known other member).1, Path.compare_eq_iff.mpr same.symm⟩
    rw [unknown file (List.mem_filter.mp held).2] at there
    cases there
  · intro file member
    rcases List.mem_append.mp member with new | old
    · exact OrderedSet.contains_iff_exists.mpr
        ⟨file, List.mem_of_mem_filter new, Std.ReflCmp.compare_self⟩
    · exact (known file old).2
  · intro file member there
    rcases List.mem_append.mp member with new | old
    · rw [unknown file (List.mem_filter.mp new).2] at there
      cases there
    · exact old

/-- Some of the files that have been chosen, in any order. -/
theorem Chosen.take {changed chosen : List Path} (choice : watched.Chosen existing changed chosen)
    {sorted : List Path} (perm : sorted.Perm chosen) (count : Nat) :
    watched.Chosen existing changed (sorted.take count) where
  distinct := ((perm.map Path.parts).nodup_iff.mpr choice.distinct).sublist
    ((List.take_sublist ..).map _)
  exist file member := choice.exist file (perm.mem_iff.mp (List.mem_of_mem_take member))
  changed file member := choice.changed file (perm.mem_iff.mp (List.mem_of_mem_take member))

/-- A tracked file that has not changed is not chosen under any spelling. -/
theorem Chosen.apart {catalog : Catalog} {chosen : List Path}
    (choice : watched.Chosen existing (sweep disk existing catalog watched.files.entries).changed
      chosen) {entry : Path × DocId} (tracked : entry ∈ watched.files.entries)
    (unchanged : entry.1 ∉ (sweep disk existing catalog watched.files.entries).changed) :
    ∀ file ∈ chosen, entry.1.parts ≠ file.parts := by
  intro file member same
  have key : entry.1 ∈ watched.files.keys := List.mem_map_of_mem tracked
  have changed := choice.changed file member <|
    OrderedMap.contains_iff_exists.mpr ⟨entry.1, key, Path.compare_eq_iff.mpr same.symm⟩
  have equal : entry.1 = file :=
    List.inj_on_of_nodup_map (nodup_parts (List.pairwise_map.mpr watched.files.ascending)) key
      (List.mem_of_mem_filter (sublist_changed.subset changed)) same
  exact unchanged (equal ▸ changed)

/-- A sync indexes files that it has chosen, and tracks them beside those that stay. -/
theorem exists_chosen (watched : Watched) (settings : Settings) (disk : Disk) (catalog : Catalog)
    (existing : OrderedSet Path) :
    let swept := sweep disk existing catalog watched.files.entries
    ∃ chosen, watched.Chosen existing swept.changed chosen ∧
      ∃ report capped, watched.syncFiles settings disk catalog existing =
        ⟨report, ⟨track (watched.files.filter fun file _ =>
            !swept.gone.contains file && !swept.changed.contains file)
          (swept.catalog.indexFiles settings.extensions disk chosen).1, capped⟩,
        (swept.catalog.indexFiles settings.extensions disk chosen).2⟩ :=
  ⟨_, (chosen_waiting catalog).take (List.mergeSort_perm ..) _, _, _, rfl⟩

/-- Every document below a path is the one that its file is tracked with. -/
def Knows (watched : Watched) (root : Path) (catalog : Catalog) : Prop :=
  ∀ id document, catalog.document? id = some document → root.IsBelow document.path →
    watched.files.get? document.path = some id

/-- What has been indexed came from the files that were chosen. -/
theorem paths_indexFiles (catalog : Catalog) (extensions : ExtensionSettings) (disk : Disk)
    (chosen : List Path) :
    ((catalog.indexFiles extensions disk chosen).1.map Prod.fst).Sublist chosen := by
  unfold Catalog.indexFiles
  rw [Catalog.paths_registerAll]
  exact Indexable.sublist_ofFiles extensions disk chosen

/-- All documents that a sync adds lie below the path, under their own numbers. -/
theorem document?_of_syncFiles {id : DocId} {document : Document}
    (below : ∀ file ∈ existing.toList, root.IsBelow file)
    (found : (watched.syncFiles settings disk catalog existing).catalog.document? id =
      some document) :
    catalog.document? id = some document ∨ document.id = id ∧ root.IsBelow document.path := by
  obtain ⟨chosen, choice, report, capped, synced⟩ :=
    watched.exists_chosen settings disk catalog existing
  rw [synced] at found
  rcases Catalog.document?_of_registerAll found with before | ⟨filed, indexed⟩
  · exact .inl (document?_of_sweep before)
  · have held := (paths_indexFiles _ _ _ _).subset (List.mem_map_of_mem indexed)
    obtain ⟨other, there, same⟩ := OrderedSet.contains_iff_exists.mp (choice.exist _ held)
    exact .inr ⟨filed, (Path.isBelow_congr rfl (Path.compare_eq_iff.mp same)).mpr
      (below other there)⟩

/-- A sync of a path that knows the catalog leaves it known. -/
theorem Knows.syncFiles (knows : watched.Knows root catalog) (settings : Settings) (disk : Disk)
    (existing : OrderedSet Path) :
    (watched.syncFiles settings disk catalog existing).watched.Knows root
      (watched.syncFiles settings disk catalog existing).catalog := by
  obtain ⟨chosen, choice, report, capped, synced⟩ :=
    watched.exists_chosen settings disk catalog existing
  rw [synced]
  intro id document found below
  have listed := paths_indexFiles (sweep disk existing catalog watched.files.entries).catalog
    settings.extensions disk chosen
  rcases Catalog.document?_of_registerAll found with before | ⟨-, indexed⟩
  · -- The file of an old document stays, as otherwise the document would be gone.
    have tracked := knows id document (document?_of_sweep before) below
    obtain ⟨file, same, entry⟩ := OrderedMap.get?_eq_some_iff_exists.mp tracked
    have stays : ¬(file ∈ (sweep disk existing catalog watched.files.entries).gone ∨
        file ∈ (sweep disk existing catalog watched.files.entries).changed) := by
      intro swept
      have lost := document?_of_mem_sweep watched.files.nodup_keys entry swept
      rw [before] at lost
      cases lost
    rw [not_or] at stays
    rw [get?_track_of_forall]
    · exact OrderedMap.get?_eq_some_iff_exists.mpr
        ⟨file, same, OrderedMap.mem_filter.mpr ⟨entry, by simpa using stays⟩⟩
    · intro other held alike
      exact choice.apart entry stays.2 other.1 (listed.subset (List.mem_map_of_mem held))
        ((Path.compare_eq_iff.mp same).symm.trans alike)
  · refine get?_track_of_mem ?_ indexed
    have parts := listed.map Path.parts
    rw [List.map_map] at parts
    exact choice.distinct.sublist parts

end Watched
end Concordance
