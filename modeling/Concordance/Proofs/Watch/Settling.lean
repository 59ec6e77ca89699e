import Concordance.Proofs.Calendar
import Concordance.Proofs.Watch.Retention

namespace Concordance

/-- A watched path that is in step with what exists. All tracked files stay, all files that are left
out exist, and the other ones give nothing but have room. -/
structure Watched.Settled (watched : Watched) (settings : Settings) (disk : Disk)
    (existing : OrderedSet Path) (catalog : Catalog) : Prop where
  same : ∀ entry ∈ watched.files.entries,
    fateOf disk existing catalog entry.1 entry.2 = .same
  exist : ∀ file, watched.capped.contains file = true → existing.contains file = true
  fruitless : ∀ file ∈ watched.fresh existing,
    Gist.ofPath? settings.extensions disk file = none
  room : settings.watch.maxFilesPerPath = 0 ∨
    watched.files.size + (watched.fresh existing).length ≤ settings.watch.maxFilesPerPath

namespace Watched

variable {watched : Watched} {settings : Settings} {disk : Disk} {existing : OrderedSet Path}
  {catalog : Catalog}

/-- A sync of what is settled does nothing. -/
theorem Settled.syncFiles (settled : watched.Settled settings disk existing catalog)
    (distinct : watched.files.values.Nodup) :
    watched.syncFiles settings disk catalog existing = ⟨.zero, watched, catalog⟩ := by
  have none : ∀ test : Fate → Bool, test .same = false →
      withFate disk existing catalog test watched.files.entries = [] := by
    intro test no
    refine List.filter_eq_nil_iff.mpr fun entry member => ?_
    rw [settled.same entry member, no]
    exact Bool.false_ne_true
  have gone := none (· == .gone) rfl
  have changed : watched.changed disk existing catalog = [] :=
    congrArg (List.map Prod.fst) (none (· == .changed) rfl)
  have cleared : watched.cleared disk existing catalog = catalog := by
    have stale : stale disk existing catalog watched.files.entries = [] :=
      congrArg (List.map Prod.snd) (none (· != .same) rfl)
    unfold Watched.cleared
    rw [stale]
    rfl
  have kept : watched.kept disk existing catalog = watched.files := by
    refine OrderedMap.ext (List.filter_eq_self.mpr fun entry member => ?_)
    exact beq_iff_eq.mpr (settled.same entry member)
  have queue : (watched.queue disk existing catalog).Perm (watched.fresh existing) := by
    have sorted : (watched.queue disk existing catalog).Perm _ := List.mergeSort_perm _ _
    rwa [changed, List.append_nil] at sorted
  have fits : settings.watch.maxFilesPerPath = 0 ∨ (watched.kept disk existing catalog).size +
      (watched.queue disk existing catalog).length ≤ settings.watch.maxFilesPerPath := by
    rw [kept, queue.length_eq]
    exact settled.room
  -- There is room for all that wait, so all are tried and none is left out.
  obtain ⟨chosen, surplus⟩ := chosen_eq_queue fits
  have items : Indexable.ofFiles settings.extensions disk
      (watched.chosen settings disk existing catalog) = [] := by
    rw [← List.map_eq_nil_iff (f := Indexable.gist), Indexable.gists_ofFiles, chosen]
    refine List.filterMap_eq_nil_iff.mpr fun file member => ?_
    exact settled.fruitless file (queue.mem_iff.mp member)
  have admitted : watched.admitted settings disk existing catalog = ([], catalog) := by
    unfold Watched.admitted
    rw [items, cleared]
    rfl
  have capped : watched.capped.filter existing.contains = watched.capped := by
    refine OrderedSet.ext (List.filter_eq_self.mpr fun file member => settled.exist file ?_)
    exact OrderedSet.contains_iff_exists.mpr ⟨file, member, Std.ReflCmp.compare_self⟩
  rw [syncFiles_eq_queue distinct]
  unfold updates
  rw [admitted, surplus, kept, capped, gone]
  rfl

/-- What is neither tracked nor left out after a sync has been tried in it. -/
theorem exists_chosen_of_fresh (distinct : watched.files.values.Nodup) {file : Path}
    (fresh : file ∈ (watched.syncFiles settings disk catalog existing).watched.fresh existing) :
    (track (watched.kept disk existing catalog)
        (watched.admitted settings disk existing catalog).1).contains file = false ∧
      ∃ other ∈ watched.chosen settings disk existing catalog, compare file other = .eq := by
  obtain ⟨listed, both⟩ := List.mem_filter.mp fresh
  rw [Bool.and_eq_true_iff, Bool.not_eq_true', Bool.not_eq_true',
    syncFiles_eq_queue distinct] at both
  obtain ⟨untracked, free⟩ := both
  refine ⟨untracked, ?_⟩
  have there : existing.contains file = true :=
    OrderedSet.contains_iff_exists.mpr ⟨file, listed, Std.ReflCmp.compare_self⟩
  -- Whatever has been left out in the sync exists, so it is left out still.
  have out : ∀ {other}, compare file other = .eq →
      ((watched.surplus settings disk existing catalog).foldl OrderedSet.insert
        (watched.capped.filter existing.contains)).contains other = true → False := by
    intro other same left
    rw [← OrderedSet.contains_congr same] at left
    obtain ⟨here, member, alike⟩ := OrderedSet.contains_iff_exists.mp left
    refine Bool.eq_false_iff.mp free (OrderedSet.contains_iff_exists.mpr ⟨here, ?_, alike⟩)
    exact OrderedSet.mem_filter.mpr ⟨member, (OrderedSet.contains_congr alike existing) ▸ there⟩
  rcases cases_of_contains watched disk catalog there with
    stays | before | ⟨other, waits, same⟩
  · rw [contains_track.mpr (.inr stays)] at untracked
    cases untracked
  · exact (out Std.ReflCmp.compare_self
      ((OrderedSet.contains_foldl_insert ..).mpr (.inr before))).elim
  · rw [← List.take_append_drop (watched.openings settings disk existing catalog)
      (watched.queue disk existing catalog)] at waits
    rcases List.mem_append.mp waits with chosen | left
    · exact ⟨other, chosen, same⟩
    · exact (out same ((OrderedSet.contains_foldl_insert ..).mpr
        (.inl ⟨other, left, Std.ReflCmp.compare_self⟩))).elim

/-- No two of the files that are tracked after a sync or were tried in vain are the same, so they
are no more than there was room for. -/
theorem length_fresh_le (settings : Settings) (disk : Disk) (existing : OrderedSet Path)
    (catalog : Catalog) (distinct : watched.files.values.Nodup) :
    (watched.admitted settings disk existing catalog).1.length +
      ((watched.syncFiles settings disk catalog existing).watched.fresh existing).length ≤
        (watched.chosen settings disk existing catalog).length := by
  have fresh : ∀ file ∈ (watched.syncFiles settings disk catalog existing).watched.fresh existing,
      _ ∧ ∃ other ∈ watched.chosen settings disk existing catalog, compare file other = .eq :=
    fun file member => exists_chosen_of_fresh distinct member
  generalize (watched.syncFiles settings disk catalog existing).watched = synced at fresh ⊢
  have listed : ((synced.fresh existing).map Path.parts).Nodup :=
    (nodup_parts existing.ascending).sublist (List.filter_sublist.map _)
  have apart : ((watched.admitted settings disk existing catalog).1.map fun entry =>
      entry.1.parts).Disjoint ((synced.fresh existing).map Path.parts) := by
    intro parts new old
    obtain ⟨entry, member, rfl⟩ := List.mem_map.mp new
    obtain ⟨file, held, same⟩ := List.mem_map.mp old
    have untracked := (fresh file held).1
    rw [contains_track.mpr (.inl ⟨entry, member, Path.compare_eq_iff.mpr same⟩)] at untracked
    cases untracked
  have whole : (((watched.admitted settings disk existing catalog).1.map Prod.fst ++
      synced.fresh existing).map Path.parts).Nodup := by
    rw [List.map_append, List.map_map]
    exact (nodup_admitted settings disk existing catalog distinct).append listed apart
  have few := length_le_of_forall_exists whole fun file member => by
    rcases List.mem_append.mp member with new | old
    · have paths := paths_admitted watched settings disk existing catalog
      exact ⟨file, paths.subset new, Std.ReflCmp.compare_self⟩
    · exact (fresh file old).2
  rwa [List.length_append, List.length_map] at few

variable {taken : Nat} {others : List DocId}
  (issued : catalog.Issued taken (watched.files.values ++ others))
  (room : taken + ((watched.syncFiles settings disk catalog existing).report.added +
    (watched.syncFiles settings disk catalog existing).report.updated) ≤ UInt64.size)

include issued room

/-- No file that is tracked after a sync is gone or has changed. -/
theorem fateOf_syncFiles {entry : Path × DocId}
    (member : entry ∈ (watched.syncFiles settings disk catalog existing).watched.files.entries) :
    fateOf disk existing (watched.syncFiles settings disk catalog existing).catalog entry.1
      entry.2 = .same := by
  have distinct := issued.distinct.of_append_left
  have stay : ∀ {id}, id ∈ (watched.kept disk existing catalog).values ++ others → _ = _ :=
    document?_syncFiles issued room
  rw [added_add_updated settings disk existing catalog distinct] at room
  rw [syncFiles_eq_queue distinct] at member stay ⊢
  rcases List.mem_append.mp ((perm_admitted distinct).mem_iff.mp member) with new | old
  · have choice := chosen_chosen settings disk existing catalog distinct
    have there := choice.exist _ (mem_chosen_of_mem_admitted new)
    obtain ⟨item, path, read, stored⟩ := document?_of_mem_admitted (by omega) new
    obtain ⟨modified, written, known⟩ := Indexable.modified_of_ofFile read
    have equal : (compare (disk.zone.moment modified) (item.document entry.2).facts.modified ==
        .gt) = false := by
      show (compare (disk.zone.moment modified) item.modified == .gt) = false
      rw [known, Std.ReflOrd.compare_self]
      rfl
    rw [← path] at written
    unfold fateOf
    rw [there, stored]
    simp only [written, equal, Bool.not_true, if_neg Bool.false_ne_true]
  · rw [fateOf_congr (stay (List.mem_append_left others (List.mem_map_of_mem old)))]
    exact (mem_kept_iff.mp old).2

/-- A sync settles its path. -/
theorem Intact.settled_syncFiles
    (intact : watched.Intact settings.watch.maxFilesPerPath catalog)
    (found : ∀ file ∈ existing.toList, ∃ modified, disk.modified? file = some modified) :
    (watched.syncFiles settings disk catalog existing).watched.Settled settings disk existing
      (watched.syncFiles settings disk catalog existing).catalog where
  same entry member := fateOf_syncFiles issued room member
  exist := by
    have distinct := issued.distinct.of_append_left
    rw [syncFiles_eq_queue distinct]
    intro file out
    rcases (OrderedSet.contains_foldl_insert ..).mp out with ⟨other, left, same⟩ | before
    · rw [OrderedSet.contains_congr same]
      exact (chosen_queue disk existing catalog distinct).exist other (List.mem_of_mem_drop left)
    · obtain ⟨other, member, same⟩ := OrderedSet.contains_iff_exists.mp before
      rw [OrderedSet.contains_congr same]
      exact (OrderedSet.mem_filter.mp member).2
  fruitless := by
    have distinct := issued.distinct.of_append_left
    intro file fresh
    obtain ⟨untracked, other, chosen, same⟩ := exists_chosen_of_fresh distinct fresh
    have spelt : ∀ file ∈ existing.toList, Disk.IsFileSpelling file := fun file listed =>
      (found file listed).elim fun _ => Disk.isFileSpelling_of_modified?
    have spelling : Disk.IsFileSpelling other := by
      rcases mem_queue_iff.mp (mem_queue_of_mem_chosen chosen) with new | again
      · exact spelt other (List.mem_of_mem_filter new)
      · obtain ⟨entry, held, rfl⟩ := List.mem_map.mp again
        exact intact.spelt entry (List.mem_of_mem_filter held)
    rw [Gist.ofPath?_congr (spelt file (List.mem_of_mem_filter fresh)) spelling
      (Path.compare_eq_iff.mp same), Option.eq_none_iff_forall_not_mem]
    intro gist given
    obtain ⟨item, read⟩ := Indexable.exists_of_gist given
    have tracked := (contains_track_iff distinct (mem_queue_of_mem_chosen chosen) read).mpr chosen
    rw [← OrderedMap.contains_congr same, untracked] at tracked
    cases tracked
  room := by
    have distinct := issued.distinct.of_append_left
    rw [or_iff_not_imp_left]
    intro limited
    have few := length_fresh_le settings disk existing catalog distinct
    have chosen := length_chosen_le watched settings disk existing catalog limited
    have stay := size_kept_le watched disk existing catalog
    have within := intact.within limited
    rw [syncFiles_eq_queue distinct] at few ⊢
    rw [size_track distinct]
    omega

end Watched

/-- Syncs of paths that are settled do nothing. -/
theorem Watch.syncRoots_of_settled {watch : Watch} {settings : Settings} {disk : Disk}
    {catalog : Catalog} {roots : List Path} (settled : ∀ root ∈ roots, ∃ watched,
      watch.roots.get? root = some watched ∧ watched.files.values.Nodup ∧
        watched.Settled settings disk (eligible settings disk root) catalog) :
    watch.syncRoots settings disk catalog roots = (.zero, watch, catalog) := by
  induction roots with
  | nil => rfl
  | cons root rest ih =>
      rw [List.forall_mem_cons] at settled
      obtain ⟨⟨watched, found, distinct, first⟩, others⟩ := settled
      have same : ({ watch with roots := watch.roots.insert root watched } : Watch) = watch :=
        congrArg (Watch.mk · watch.skippedTicks) (OrderedMap.insert_of_get?_eq_some found)
      rw [syncRoots, found, Option.getD_some, Watched.sync_eq, first.syncFiles distinct]
      simp only [same, ih others]
      rfl

namespace Tracking

variable {settings : Settings} {now : Tracking} {root : Path}

/-- A watched path that a sync would leave as it is. -/
def Settled (now : Tracking) (settings : Settings) (root : Path) : Prop :=
  ∃ watched, now.watch.roots.get? root = some watched ∧
    watched.Settled settings now.disk (eligible settings now.disk root) now.catalog

/-- A sync settles its path. -/
theorem Intact.settled_turn (intact : now.Intact settings)
    (room : (now.turn settings root).taken ≤ UInt64.size) :
    (now.turn settings root).Settled settings root :=
  ⟨_, OrderedMap.get?_insert_self .., (intact.of_getD root).settled_syncFiles
    (intact.issued_append (now.watch.files_getD root)) room fun _ => modified?_of_mem_eligible⟩

/-- A path that is settled stays so when another one is synced. -/
theorem Settled.turn (settled : now.Settled settings root) (intact : now.Intact settings)
    {other : Path} (apart : compare root other ≠ .eq)
    (room : (now.turn settings other).taken ≤ UInt64.size) :
    (now.turn settings other).Settled settings root := by
  obtain ⟨watched, found, same, exist, fruitless, fits⟩ := settled
  refine ⟨watched, ?_, ?_, exist, fruitless, fits⟩
  · rw [get?_turn, if_neg apart, found]
  · intro entry member
    have here := Watch.mem_ids_remove apart found (List.mem_map_of_mem member)
    exact (fateOf_congr (intact.document?_turn room here)).trans (same entry member)

/-- Syncs of other paths leave a settled path settled. -/
theorem Settled.syncAll (settled : now.Settled settings root) (intact : now.Intact settings)
    {roots : List Path} (apart : ∀ other ∈ roots, compare root other ≠ .eq)
    (room : (now.syncAll settings roots).taken ≤ UInt64.size) :
    (now.syncAll settings roots).Settled settings root := by
  induction roots generalizing now with
  | nil => exact settled
  | cons other rest ih =>
      rw [List.forall_mem_cons] at apart
      rw [syncAll_cons] at room ⊢
      have first := Nat.le_trans (taken_le_syncAll ..) room
      exact ih (settled.turn intact apart.1 first) (intact.turn first) apart.2 room

/-- Syncs of paths settle all of them. -/
theorem Intact.settled_syncAll (intact : now.Intact settings) {roots : List Path}
    (distinct : roots.Pairwise fun first second => compare first second ≠ .eq)
    (room : (now.syncAll settings roots).taken ≤ UInt64.size) :
    ∀ root ∈ roots, (now.syncAll settings roots).Settled settings root := by
  induction roots generalizing now with
  | nil => exact fun _ member => absurd member List.not_mem_nil
  | cons root rest ih =>
      obtain ⟨apart, distinct⟩ := List.pairwise_cons.mp distinct
      rw [syncAll_cons] at room ⊢
      have first := Nat.le_trans (taken_le_syncAll ..) room
      intro other member
      rcases List.mem_cons.mp member with rfl | later
      · exact (intact.settled_turn first).syncAll (intact.turn first) apart room
      · exact ih (intact.turn first) distinct room other later

/-- After a tick another one on the same files reports nothing and changes nothing, neither what is
tracked and left out nor the catalog with its counter, whatever has happened before. -/
theorem settled_of_run {first last : Tracking} (begun : first.watch.roots = .empty)
    (run : Relation.ReflTransGen (SharedStep settings) first last)
    (room : (last.tick settings).taken ≤ UInt64.size) :
    let ticked := last.tick settings
    ticked.watch.tick settings last.disk ticked.catalog =
      (.zero, ticked.watch, ticked.catalog) := by
  intro ticked
  have intact := intact_of_run begun run (Nat.le_trans (taken_le_syncAll ..) room)
  have after : ticked.Intact settings := intact.syncAll _ room
  have keys : ticked.watch.roots.keys = last.watch.roots.keys := Watch.keys_tick
  unfold Watch.tick
  rw [keys]
  apply Watch.syncRoots_of_settled
  intro root member
  obtain ⟨watched, found, settled⟩ : ticked.Settled settings root :=
    intact.settled_syncAll last.watch.roots.pairwise_keys room root member
  exact ⟨watched, found, after.nodup_values found, settled⟩

/-- A file was written anew and another one has come. A first tick indexes both, and a second one
does nothing. -/
theorem settled_of_run_second_tick : bare.watch.roots = .empty ∧
    Relation.ReflTransGen (SharedStep (limited 2)) bare (crowded 2) ∧
    let ticked := (crowded 2).tick (limited 2)
    ticked.taken ≤ UInt64.size ∧
      ticked.watch.tick (limited 2) crowdedDisk ticked.catalog =
        (.zero, ticked.watch, ticked.catalog) := by
  obtain ⟨watch, -, taken⟩ := crowded_eq (show 1 ≤ 2 by decide)
  have intact : (crowded 2).Intact (limited 2) := intact_of_run rfl (run_crowded 2) (by
    rw [taken]
    decide)
  have keys : (crowded 2).watch.roots.keys = [⟨"/"⟩] := by
    rw [watch]
    rfl
  have fits : (crowded 2).taken + ((crowded 2).watch.roots.keys.map fun root =>
      (eligible (limited 2) (crowded 2).disk root).size).sum = 3 := by
    have size : (eligible (limited 2) (crowded 2).disk ⟨"/"⟩).size = 2 :=
      congrArg OrderedSet.size (eligible_crowded 2)
    rw [taken, keys, List.map_singleton, size]
    rfl
  have wide : 3 ≤ UInt64.size := by decide
  have few := intact.taken_syncAll_le (fits ▸ wide)
  rw [fits] at few
  have room : ((crowded 2).tick (limited 2)).taken ≤ UInt64.size := Nat.le_trans few wide
  exact ⟨rfl, run_crowded 2, room, settled_of_run rfl (run_crowded 2) room⟩

end Tracking
end Concordance
