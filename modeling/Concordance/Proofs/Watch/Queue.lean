import Concordance.Proofs.Catalog.Numbers
import Concordance.Proofs.Watch.Known

namespace Concordance

/-- What is indexed is tracked beside what was tracked before. -/
theorem Watched.contains_track {files : OrderedMap Path DocId} {indexed : List (Path × DocId)}
    {file : Path} : (track files indexed).contains file = true ↔
      (∃ entry ∈ indexed, compare file entry.1 = .eq) ∨ files.contains file = true := by
  induction indexed generalizing files with
  | nil => simp [track]
  | cons head rest ih =>
      have added : (files.insert head.1 head.2).contains file = true ↔
          compare file head.1 = .eq ∨ files.contains file = true := by
        unfold OrderedMap.contains
        rw [OrderedMap.get?_insert]
        split <;> simp_all
      show (track (files.insert head.1 head.2) rest).contains file = true ↔ _
      rw [ih, added, List.exists_mem_cons_iff, or_assoc, or_left_comm]

/-- Where no two files of a list are the same and each has its like in another one, that one is no
shorter. -/
theorem length_le_of_forall_exists {first second : List Path}
    (distinct : (first.map Path.parts).Nodup)
    (each : ∀ file ∈ first, ∃ other ∈ second, compare file other = .eq) :
    first.length ≤ second.length := by
  have within : first.map Path.parts ⊆ second.map Path.parts := by
    intro parts member
    obtain ⟨file, held, rfl⟩ := List.mem_map.mp member
    obtain ⟨other, listed, same⟩ := each file held
    exact List.mem_map.mpr ⟨other, listed, (Path.compare_eq_iff.mp same).symm⟩
  have lengths := (List.subperm_of_subset distinct within).length_le
  rwa [List.length_map, List.length_map] at lengths

namespace Watched

variable {watched : Watched} (settings : Settings) (disk : Disk) (existing : OrderedSet Path)
  (catalog : Catalog)

/-- What a sweep finds changed does not depend on the documents it has removed before. -/
theorem changed_eq (distinct : watched.files.values.Nodup) :
    (sweep disk existing catalog watched.files.entries).changed =
      watched.changed disk existing catalog :=
  congrArg Sweep.changed (sweep_eq disk existing distinct)

/-- No file waits twice, and files that wait exist and do not stay. -/
theorem chosen_queue (distinct : watched.files.values.Nodup) :
    watched.Chosen existing (watched.changed disk existing catalog)
      (watched.queue disk existing catalog) := by
  have choice : watched.Chosen existing _ _ := @chosen_waiting disk existing watched catalog
  rw [changed_eq disk existing catalog distinct] at choice
  have sorted : (watched.queue disk existing catalog).Perm _ := List.mergeSort_perm _ _
  have whole := choice.take sorted (watched.queue disk existing catalog).length
  rwa [List.take_length] at whole

theorem chosen_chosen (distinct : watched.files.values.Nodup) :
    watched.Chosen existing (watched.changed disk existing catalog)
      (watched.chosen settings disk existing catalog) :=
  (chosen_queue disk existing catalog distinct).take (.refl _) _

/-- No more files wait than exist. -/
theorem length_queue_le (distinct : watched.files.values.Nodup) :
    (watched.queue disk existing catalog).length ≤ existing.size := by
  have choice := chosen_queue disk existing catalog distinct
  exact length_le_of_forall_exists choice.distinct fun file waits =>
    OrderedSet.contains_iff_exists.mp (choice.exist file waits)

variable (watched)

/-- The files that are admitted are some of the chosen ones, in their order. -/
theorem paths_admitted :
    ((watched.admitted settings disk existing catalog).1.map Prod.fst).Sublist
      (watched.chosen settings disk existing catalog) :=
  paths_indexFiles ..

/-- No more files are admitted than chosen. -/
theorem length_admitted_le : (watched.admitted settings disk existing catalog).1.length ≤
    (watched.chosen settings disk existing catalog).length := by
  have fewer := (paths_admitted watched settings disk existing catalog).length_le
  rwa [List.length_map] at fewer

/-- No more files are kept than were tracked. -/
theorem size_kept_le : (watched.kept disk existing catalog).size ≤ watched.files.size :=
  List.length_filter_le ..

/-- No more files are chosen than the greatest number leaves room for. -/
theorem length_chosen_le (limited : settings.watch.maxFilesPerPath ≠ 0) :
    (watched.chosen settings disk existing catalog).length ≤
      settings.watch.maxFilesPerPath - (watched.kept disk existing catalog).size := by
  unfold chosen openings room
  rw [if_neg limited]
  exact List.length_take_le ..

variable {watched}

/-- No two admitted files have the same place in the order. -/
theorem nodup_admitted (distinct : watched.files.values.Nodup) :
    ((watched.admitted settings disk existing catalog).1.map fun entry => entry.1.parts).Nodup := by
  have parts := (paths_admitted watched settings disk existing catalog).map Path.parts
  rw [List.map_map] at parts
  exact (chosen_chosen settings disk existing catalog distinct).distinct.sublist parts

/-- A sync indexes no more files than exist. -/
theorem report_syncFiles_le (distinct : watched.files.values.Nodup) :
    (watched.syncFiles settings disk catalog existing).report.added +
      (watched.syncFiles settings disk catalog existing).report.updated ≤ existing.size := by
  have waits : (watched.chosen settings disk existing catalog).length ≤ _ :=
    (List.take_sublist ..).length_le
  have admitted := length_admitted_le watched settings disk existing catalog
  rw [added_add_updated settings disk existing catalog distinct]
  exact Nat.le_trans (Nat.le_trans admitted waits) (length_queue_le disk existing catalog distinct)

variable {settings disk existing catalog}

/-- Whatever is admitted was chosen. -/
theorem mem_chosen_of_mem_admitted {entry : Path × DocId}
    (member : entry ∈ (watched.admitted settings disk existing catalog).1) :
    entry.1 ∈ watched.chosen settings disk existing catalog :=
  (paths_admitted watched settings disk existing catalog).subset (List.mem_map_of_mem member)

/-- Whatever is chosen waited in the queue. -/
theorem mem_queue_of_mem_chosen {file : Path}
    (member : file ∈ watched.chosen settings disk existing catalog) :
    file ∈ watched.queue disk existing catalog :=
  List.mem_of_mem_take member

/-- A file waits under one spelling only. -/
theorem eq_of_mem_queue (distinct : watched.files.values.Nodup) {first second : Path}
    (one : first ∈ watched.queue disk existing catalog)
    (other : second ∈ watched.queue disk existing catalog) (same : compare first second = .eq) :
    first = second :=
  List.inj_on_of_nodup_map (chosen_queue disk existing catalog distinct).distinct one other
    (Path.compare_eq_iff.mp same)

/-- A file that has not changed is kept. -/
theorem contains_kept_of_same {entry : Path × DocId} (tracked : entry ∈ watched.files.entries)
    (same : fateOf disk existing catalog entry.1 entry.2 = .same) :
    (watched.kept disk existing catalog).contains entry.1 = true :=
  OrderedMap.contains_iff_exists_entry.mpr
    ⟨entry, mem_kept_iff.mpr ⟨tracked, same⟩, Std.ReflCmp.compare_self⟩

/-- A file that waits does not stay. -/
theorem not_contains_kept (distinct : watched.files.values.Nodup) {file : Path}
    (waits : file ∈ watched.queue disk existing catalog) :
    (watched.kept disk existing catalog).contains file = false := by
  rw [← Bool.not_eq_true]
  intro kept
  obtain ⟨entry, member, same⟩ := OrderedMap.contains_iff_exists_entry.mp kept
  obtain ⟨tracked, stays⟩ := mem_kept_iff.mp member
  have unchanged : entry.1 ∉ watched.changed disk existing catalog := by
    rw [mem_changed_iff tracked, stays]
    exact Fate.noConfusion
  have choice := chosen_queue disk existing catalog distinct
  rw [← changed_eq disk existing catalog distinct] at choice unchanged
  exact choice.apart tracked unchanged file waits (Path.compare_eq_iff.mp same).symm

/-- What is indexed is tracked beside the files that stay. -/
theorem perm_admitted (distinct : watched.files.values.Nodup) :
    (track (watched.kept disk existing catalog)
      (watched.admitted settings disk existing catalog).1).entries.Perm
    ((watched.admitted settings disk existing catalog).1 ++
      (watched.kept disk existing catalog).entries) := by
  have parts := nodup_admitted settings disk existing catalog distinct
  refine perm_track (fun entry member => ?_) parts
  exact OrderedMap.contains_eq_false.mp (not_contains_kept distinct
    (mem_queue_of_mem_chosen (mem_chosen_of_mem_admitted member)))

/-- The numbers that are tracked after a sync are new ones and those that stay. -/
theorem perm_values_admitted (distinct : watched.files.values.Nodup) :
    (track (watched.kept disk existing catalog)
      (watched.admitted settings disk existing catalog).1).values.Perm
    ((watched.admitted settings disk existing catalog).1.map Prod.snd ++
      (watched.kept disk existing catalog).values) := by
  have perm : (track (watched.kept disk existing catalog)
      (watched.admitted settings disk existing catalog).1).values.Perm _ :=
    (perm_admitted distinct).map Prod.snd
  rwa [List.map_append] at perm

/-- Tracked files are afterwards those that were kept and those that were admitted. -/
theorem size_track (distinct : watched.files.values.Nodup) :
    (track (watched.kept disk existing catalog)
      (watched.admitted settings disk existing catalog).1).size =
        (watched.admitted settings disk existing catalog).1.length +
          (watched.kept disk existing catalog).size :=
  (perm_admitted distinct).length_eq.trans List.length_append

/-- No more files are tracked than the greatest number allows. -/
theorem size_track_le (distinct : watched.files.values.Nodup)
    (limited : settings.watch.maxFilesPerPath ≠ 0)
    (within : watched.files.size ≤ settings.watch.maxFilesPerPath) :
    (track (watched.kept disk existing catalog)
      (watched.admitted settings disk existing catalog).1).size ≤
        settings.watch.maxFilesPerPath := by
  have stay := size_kept_le watched disk existing catalog
  have indexed := length_admitted_le watched settings disk existing catalog
  have few := length_chosen_le watched settings disk existing catalog limited
  rw [size_track distinct]
  omega

/-- Every file that exists stays, or it was left out before, or it waits. -/
theorem cases_of_contains (watched : Watched) (disk : Disk) (catalog : Catalog) {file : Path}
    (there : existing.contains file = true) :
    (watched.kept disk existing catalog).contains file = true ∨
      (watched.capped.filter existing.contains).contains file = true ∨
      ∃ other ∈ watched.queue disk existing catalog, compare file other = .eq := by
  by_cases tracked : watched.files.contains file = true
  · obtain ⟨entry, member, same⟩ := OrderedMap.contains_iff_exists_entry.mp tracked
    cases fate : fateOf disk existing catalog entry.1 entry.2 with
    | same => exact .inl (OrderedMap.contains_congr same _ ▸ contains_kept_of_same member fate)
    | gone =>
        rw [fateOf_eq_gone, ← OrderedSet.contains_congr same, there] at fate
        cases fate
    | changed =>
        exact .inr (.inr ⟨entry.1, mem_queue_iff.mpr (.inr ((mem_changed_iff member).mpr fate)),
          same⟩)
  · by_cases out : (watched.capped.filter existing.contains).contains file = true
    · exact .inr (.inl out)
    · obtain ⟨other, listed, same⟩ := OrderedSet.contains_iff_exists.mp there
      refine .inr (.inr ⟨other, mem_queue_iff.mpr (.inl (List.mem_filter.mpr ⟨listed, ?_⟩)), same⟩)
      rw [OrderedMap.contains_congr same] at tracked
      rw [OrderedSet.contains_congr same] at out
      simp [tracked, out]

/-- A file that waits and can be read is tracked after a sync when it has been chosen. -/
theorem contains_track_iff (distinct : watched.files.values.Nodup) {file : Path} {item : Indexable}
    (waits : file ∈ watched.queue disk existing catalog)
    (read : Indexable.ofFile settings.extensions disk file = .ok (some item)) :
    (track (watched.kept disk existing catalog)
        (watched.admitted settings disk existing catalog).1).contains file = true ↔
      file ∈ watched.chosen settings disk existing catalog := by
  rw [contains_track]
  constructor
  · rintro (⟨entry, member, same⟩ | stays)
    · have chosen := mem_chosen_of_mem_admitted member
      exact eq_of_mem_queue distinct waits (mem_queue_of_mem_chosen chosen) same ▸ chosen
    · rw [not_contains_kept distinct waits] at stays
      cases stays
  · intro chosen
    have listed : item ∈ Indexable.ofFiles settings.extensions disk
        (watched.chosen settings disk existing catalog) :=
      List.mem_filterMap.mpr ⟨file, chosen, by rw [read]⟩
    have path : item.path ∈ (watched.admitted settings disk existing catalog).1.map Prod.fst := by
      unfold admitted
      rw [Catalog.paths_registerAll]
      exact List.mem_map_of_mem listed
    obtain ⟨entry, member, same⟩ := List.mem_map.mp path
    refine .inl ⟨entry, member, ?_⟩
    rw [same, (Indexable.of_ofFile read).1]
    exact Std.ReflCmp.compare_self

/-- A file of the queue has not been left out before. -/
theorem not_contains_capped (apart : ∀ file, watched.files.contains file = true →
      watched.capped.contains file = false) {file : Path}
    (waits : file ∈ watched.queue disk existing catalog) :
    (watched.capped.filter existing.contains).contains file = false := by
  rcases mem_queue_iff.mp waits with new | again
  · have both := (List.mem_filter.mp new).2
    rw [Bool.and_eq_true_iff, Bool.not_eq_true', Bool.not_eq_true'] at both
    exact both.2
  · obtain ⟨entry, held, rfl⟩ := List.mem_map.mp again
    have tracked : watched.files.contains entry.1 = true :=
      OrderedMap.contains_iff_exists_entry.mpr
        ⟨entry, List.mem_of_mem_filter held, Std.ReflCmp.compare_self⟩
    rw [← Bool.not_eq_true]
    intro out
    exact Bool.eq_false_iff.mp (apart _ tracked) (OrderedSet.contains_of_filter out)

/-- A file that is tracked after a sync is not left out by it. -/
theorem apart_track (distinct : watched.files.values.Nodup)
    (apart : ∀ file, watched.files.contains file = true → watched.capped.contains file = false)
    {file : Path} (tracked : (track (watched.kept disk existing catalog)
      (watched.admitted settings disk existing catalog).1).contains file = true) :
    ((watched.surplus settings disk existing catalog).foldl OrderedSet.insert
      (watched.capped.filter existing.contains)).contains file = false := by
  have split := List.take_append_drop (watched.openings settings disk existing catalog)
    (watched.queue disk existing catalog)
  have whole := (chosen_queue disk existing catalog distinct).distinct
  rw [← split, List.map_append] at whole
  rw [← Bool.not_eq_true]
  intro out
  rcases contains_track.mp tracked with ⟨entry, member, same⟩ | stays
  · have chosen := mem_chosen_of_mem_admitted member
    rcases (OrderedSet.contains_foldl_insert ..).mp out with ⟨other, left, alike⟩ | before
    · refine List.disjoint_of_nodup_append whole (List.mem_map_of_mem chosen) ?_
      rw [← Path.compare_eq_iff.mp same, Path.compare_eq_iff.mp alike]
      exact List.mem_map_of_mem left
    · rw [OrderedSet.contains_congr same,
        not_contains_capped apart (mem_queue_of_mem_chosen chosen)] at before
      cases before
  · rcases (OrderedSet.contains_foldl_insert ..).mp out with ⟨other, left, alike⟩ | before
    · rw [OrderedMap.contains_congr alike] at stays
      have waits := not_contains_kept distinct (List.mem_of_mem_drop left)
      exact Bool.eq_false_iff.mp waits stays
    · obtain ⟨entry, member, same⟩ := OrderedMap.contains_iff_exists_entry.mp stays
      have known : watched.files.contains file = true :=
        OrderedMap.contains_iff_exists_entry.mpr ⟨entry, (mem_kept_iff.mp member).1, same⟩
      exact Bool.eq_false_iff.mp (apart _ known) (OrderedSet.contains_of_filter before)

end Watched
end Concordance
