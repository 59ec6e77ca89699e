import Concordance.Proofs.Watch.Tracking
import Mathlib.Data.List.Count

/-! Which files stay tracked. -/
namespace Concordance

/-- An element of an ascending list is among the first ones when fewer of them come before it. -/
theorem mem_take_iff_of_ascending {α : Type} [Ord α] [Std.TransOrd α] {list : List α}
    (ascending : list.Pairwise fun first second => compare first second = .lt) {element : α}
    (member : element ∈ list) (count : Nat) : element ∈ list.take count ↔
      (list.countP fun other => compare other element == .lt) < count := by
  induction list generalizing count with
  | nil => cases member
  | cons head rest ih =>
      obtain ⟨above, ascending⟩ := List.pairwise_cons.mp ascending
      rcases List.mem_cons.mp member with rfl | later
      · -- Nothing comes before the head.
        have none : (element :: rest).countP (fun other => compare other element == .lt) = 0 := by
          refine List.countP_eq_zero.mpr fun other held less => ?_
          rw [beq_iff_eq] at less
          rcases List.mem_cons.mp held with rfl | after
          · rw [Std.ReflOrd.compare_self] at less
            cases less
          · exact Std.OrientedCmp.not_lt_of_lt (above other after) less
        rw [none]
        cases count with
        | zero => simp
        | succ count => simp
      · have less := above element later
        have apart : element ≠ head := by
          rintro rfl
          rw [Std.ReflOrd.compare_self] at less
          cases less
        rw [List.countP_cons_of_pos (by simp [less])]
        cases count with
        | zero => simp
        | succ count =>
            rw [List.take_succ_cons, List.mem_cons, ih ascending later]
            simp [apart]

namespace Watched

variable {watched : Watched} {settings : Settings} {disk : Disk} {existing : OrderedSet Path}
  {catalog : Catalog}

/-- The files that wait come in the strict order of their paths. -/
theorem ascending_queue (distinct : watched.files.values.Nodup) :
    (watched.queue disk existing catalog).Pairwise fun first second =>
      compare first second = .lt := by
  have sorted : (watched.queue disk existing catalog).Pairwise fun first second =>
      (compare first second).isLE = true :=
    List.pairwise_mergeSort (fun _ _ _ => Std.TransCmp.isLE_trans)
      (fun first second => by
        rw [Std.OrientedOrd.eq_swap (a := second)]
        cases compare first second <;> rfl) _
  have apart := (chosen_queue disk existing catalog distinct).distinct
  rw [List.Nodup, List.pairwise_map] at apart
  refine (sorted.and apart).imp ?_
  rintro first second ⟨notMore, different⟩
  cases order : compare first second with
  | lt => rfl
  | eq => exact absurd (Path.compare_eq_iff.mp order) different
  | gt =>
      rw [order] at notMore
      cases notMore

/-- The number of files that wait before a file. -/
def ahead (watched : Watched) (disk : Disk) (existing : OrderedSet Path) (catalog : Catalog)
    (file : Path) : Nat :=
  (watched.queue disk existing catalog).countP fun other => compare other file == .lt

/-- There is room for a file that waits when the files that stay and those before it leave some. -/
theorem mem_chosen_iff (distinct : watched.files.values.Nodup) {file : Path}
    (waits : file ∈ watched.queue disk existing catalog) :
    file ∈ watched.chosen settings disk existing catalog ↔
      settings.watch.maxFilesPerPath = 0 ∨
        (watched.kept disk existing catalog).size + watched.ahead disk existing catalog file <
          settings.watch.maxFilesPerPath := by
  unfold chosen
  rw [mem_take_iff_of_ascending (ascending_queue distinct) waits]
  unfold openings room ahead
  by_cases unlimited : settings.watch.maxFilesPerPath = 0
  · have itself : (compare file file == .lt) = false := by
      rw [Std.ReflOrd.compare_self]
      rfl
    have fewer : (watched.queue disk existing catalog).countP
        (fun other => compare other file == .lt) < _ :=
      List.countP_lt_length_iff.mpr ⟨file, waits, itself⟩
    rw [if_pos unlimited]
    exact ⟨fun _ => .inl unlimited, fun _ => fewer⟩
  · rw [if_neg unlimited]
    omega

/-- A file that waits and has its turn is tracked after a sync, and otherwise it is left out. -/
theorem contains_syncFiles_iff (distinct : watched.files.values.Nodup) {file : Path}
    {item : Indexable} (waits : file ∈ watched.queue disk existing catalog)
    (read : Indexable.ofFile settings.extensions disk file = .ok (some item)) :
    let synced := (watched.syncFiles settings disk catalog existing).watched
    (synced.files.contains file = true ↔ settings.watch.maxFilesPerPath = 0 ∨
      (watched.kept disk existing catalog).size + watched.ahead disk existing catalog file <
        settings.watch.maxFilesPerPath) ∧
      (synced.files.contains file = false → synced.capped.contains file = true) := by
  intro synced
  have turn := contains_track_iff distinct waits read
  have same : synced = ⟨_, _⟩ := congrArg Synced.watched (syncFiles_eq_queue distinct)
  rw [same]
  refine ⟨turn.trans (mem_chosen_iff distinct waits), fun untracked => ?_⟩
  have split := List.take_append_drop (watched.openings settings disk existing catalog)
    (watched.queue disk existing catalog)
  rw [← split] at waits
  have left := (List.mem_append.mp waits).resolve_left fun chosen => by
    rw [turn.mpr chosen] at untracked
    cases untracked
  exact (OrderedSet.contains_foldl_insert ..).mpr (.inl ⟨file, left, Std.ReflCmp.compare_self⟩)

/-- A file that has not changed keeps its number. -/
theorem get?_syncFiles_of_same (distinct : watched.files.values.Nodup) {file : Path} {id : DocId}
    (member : (file, id) ∈ watched.files.entries)
    (same : fateOf disk existing catalog file id = .same) :
    (watched.syncFiles settings disk catalog existing).watched.files.get? file = some id := by
  have stays : (file, id) ∈ (watched.kept disk existing catalog).entries :=
    mem_kept_iff.mpr ⟨member, same⟩
  rw [syncFiles_eq_queue distinct]
  refine (get?_track_of_forall ?_).trans (OrderedMap.get?_of_mem stays)
  intro entry admitted alike
  have waits := mem_queue_of_mem_chosen (mem_chosen_of_mem_admitted admitted)
  have kept : (watched.kept disk existing catalog).contains entry.1 = true :=
    OrderedMap.contains_iff_exists_entry.mpr ⟨_, stays, Path.compare_eq_iff.mpr alike.symm⟩
  rw [not_contains_kept distinct waits] at kept
  cases kept

end Watched

namespace Tracking

variable {settings : Settings}

/-- A file that is tracked, still exists and still has words keeps its number in a sync when it has
not changed. Otherwise it has to be indexed again. It stays tracked just as long as there is no
greatest number of files, or the files that stay and those that wait before it are fewer, and else
it is left out. This is so in the syncs of a tick, and where a path is added again, which gives
files that have been left out another chance. -/
theorem retained_of_run {first last : Tracking} (begun : first.watch.roots = .empty)
    (run : Relation.ReflTransGen (SharedStep settings) first last)
    (room : last.taken ≤ UInt64.size) {root : Path} {watched tracked : Watched}
    (found : last.watch.roots.get? root = some watched)
    (before : tracked = watched ∨ tracked = { watched with capped := .empty }) {file : Path}
    {id : DocId} {item : Indexable} (member : (file, id) ∈ watched.files.entries)
    (there : (eligible settings last.disk root).contains file = true)
    (read : Indexable.ofFile settings.extensions last.disk file = .ok (some item)) :
    let existing := eligible settings last.disk root
    ∃ synced, tracked.sync settings last.disk last.catalog root = .ok synced ∧
      ((fateOf last.disk existing last.catalog file id = .same ∧
          synced.watched.files.get? file = some id) ∨
        fateOf last.disk existing last.catalog file id = .changed ∧
          (synced.watched.files.contains file = true ↔ settings.watch.maxFilesPerPath = 0 ∨
            (tracked.kept last.disk existing last.catalog).size +
              tracked.ahead last.disk existing last.catalog file <
                settings.watch.maxFilesPerPath) ∧
          (synced.watched.files.contains file = false →
            synced.watched.capped.contains file = true)) := by
  intro existing
  have files : tracked.files = watched.files := by
    rcases before with rfl | rfl <;> rfl
  have distinct : tracked.files.values.Nodup :=
    files ▸ (intact_of_run begun run room).nodup_values found
  rw [← files] at member
  refine ⟨_, tracked.sync_eq settings last.disk last.catalog root, ?_⟩
  cases fate : fateOf last.disk existing last.catalog file id with
  | same => exact .inl ⟨rfl, Watched.get?_syncFiles_of_same distinct member fate⟩
  | gone =>
      rw [fateOf_eq_gone, there] at fate
      cases fate
  | changed =>
      have waits : file ∈ tracked.queue last.disk existing last.catalog :=
        Watched.mem_queue_iff.mpr (.inr ((Watched.mem_changed_iff member).mpr fate))
      exact .inr ⟨rfl, Watched.contains_syncFiles_iff distinct waits read⟩

/-- The standard settings with another greatest number of files. -/
def limited (limit : Nat) : Settings :=
  { Settings.standard with watch := { Settings.standard.watch with maxFilesPerPath := limit } }

def memoPath : Path := ⟨"/memo.txt"⟩

/-- The disk after the one file was written anew and another one has come before it. -/
def crowdedDisk : Disk := Upkeep.laterDisk.put ["memo.txt"] (.file [0x68, 0x69] 0)

/-- The root of the disk has been added while it had one file. Now this file was written anew, and
another one has come before it. -/
def crowded (limit : Nat) : Tracking :=
  { bare.add (limited limit) ⟨"/"⟩ with disk := crowdedDisk }

/-- The eligible files of the root are all files on the disk with an allowed extension. -/
theorem eligible_slash (settings : Settings) {disk : Disk} (named : disk.Named) :
    eligible settings disk ⟨"/"⟩ = .ofList (Path.sort
      (((disk.below []).map fun found => Path.descend ⟨"/"⟩ found.1).filter
        (Gathering.accepts settings.extensions disk))) := by
  have there : disk.holds ⟨"/"⟩ = true := by
    unfold Disk.holds Disk.look
    rw [disk.resolve_slash]
  unfold eligible collectFiles
  rw [if_pos there, collectListed_of_resolve named (fun _ entries => List.Perm.refl entries)
    disk.resolve_slash settings.extensions]
  rfl

theorem named_noteDisk : noteDisk.Named := by
  unfold Disk.Named
  decide

theorem named_crowdedDisk : crowdedDisk.Named := by
  unfold Disk.Named
  decide

theorem file?_notePath {disk : Disk} {content : Bytes} {modified : Int}
    (found : disk.entry? ["note.txt"] = some (.file content modified)) :
    disk.file? notePath = some (content, modified) := by
  unfold Disk.file? Disk.look
  rw [resolve_notePath found]

theorem file?_memoPath : crowdedDisk.file? memoPath = some ([0x68, 0x69], 0) := by
  have plain : Disk.Plain crowdedDisk ⟨"/"⟩ [] [] :=
    ⟨crowdedDisk.resolve_slash, fun _ member => absurd member List.not_mem_nil,
      fun _ member => absurd member List.not_mem_nil⟩
  have found : crowdedDisk.entry? ([] ++ [("memo.txt" : Bytes)]) = some (.file [0x68, 0x69] 0) := rfl
  have checked : Disk.checkSpelling (Path.child ⟨"/"⟩ "memo.txt").bytes = .ok () :=
    Disk.checkSpelling_eq_ok.mpr (by decide)
  have spelt : memoPath = Path.child ⟨"/"⟩ "memo.txt" := by decide
  unfold Disk.file? Disk.look
  rw [spelt, plain.resolve_file (by decide) checked found]

theorem found_crowded : crowdedDisk.entry? ["note.txt"] = some (.file [0x68, 0x6f] 5) := rfl

theorem eligible_note (limit : Nat) :
    eligible (limited limit) noteDisk ⟨"/"⟩ = .ofList [notePath] := by
  have below : (noteDisk.below []).map (fun found => Path.descend ⟨"/"⟩ found.1) = [notePath] := by
    decide +kernel
  have allowed : (limited limit).extensions.isAllowed notePath = true := by
    show Settings.standard.extensions.isAllowed notePath = true
    decide +kernel
  rw [eligible_slash _ named_noteDisk, below, List.filter_cons_of_pos]
  · rw [List.filter_nil, Path.sort, List.mergeSort_singleton]
  · rw [Gathering.accepts, allowed, file?_notePath Upkeep.found_note]
    rfl

theorem eligible_crowded (limit : Nat) :
    eligible (limited limit) crowdedDisk ⟨"/"⟩ = .ofList [memoPath, notePath] := by
  have below : (crowdedDisk.below []).map (fun found => Path.descend ⟨"/"⟩ found.1) =
      [memoPath, notePath] := by
    decide +kernel
  have allowed : ∀ path ∈ [memoPath, notePath],
      (limited limit).extensions.isAllowed path = true := by
    show ∀ path ∈ [memoPath, notePath], Settings.standard.extensions.isAllowed path = true
    decide +kernel
  rw [eligible_slash _ named_crowdedDisk, below, List.filter_cons_of_pos, List.filter_cons_of_pos]
  · rw [List.filter_nil, Path.sort, List.mergeSort_of_pairwise (by decide +kernel)]
  · rw [Gathering.accepts, allowed notePath (by decide), file?_notePath found_crowded]
    rfl
  · rw [Gathering.accepts, allowed memoPath (by decide), file?_memoPath]
    rfl

theorem not_isIgnored_notePath (limit : Nat) :
    (limited limit).extensions.isIgnored notePath = false := by
  show Settings.standard.extensions.isIgnored notePath = false
  decide +kernel

/-- The one file is tracked for the root of the disk. -/
def rooted : Watched := ⟨.ofList [(notePath, 1)], .empty⟩

theorem crowded_eq {limit : Nat} (wide : 1 ≤ limit) :
    (crowded limit).watch = ⟨.ofList [(⟨"/"⟩, rooted)], 0⟩ ∧
      (crowded limit).catalog = (bare.catalog.register note).2 ∧ (crowded limit).taken = 1 := by
  obtain ⟨report, counted, synced⟩ :=
    Upkeep.syncFiles_note bare.catalog rfl Upkeep.found_note (not_isIgnored_notePath limit) (.inr wide)
  have none : bare.watch.watched ⟨"/"⟩ = .empty := rfl
  have disk : bare.disk = noteDisk := rfl
  unfold crowded
  rw [add_eq_sync, none]
  unfold sync
  rw [disk, eligible_note, synced]
  exact ⟨rfl, rfl, (Nat.zero_add _).trans counted⟩

theorem get?_crowded {limit : Nat} (wide : 1 ≤ limit) :
    (crowded limit).watch.roots.get? ⟨"/"⟩ = some rooted := by
  rw [(crowded_eq wide).1]
  exact OrderedMap.get?_insert_self ..

theorem run_crowded (limit : Nat) :
    Relation.ReflTransGen (SharedStep (limited limit)) bare (crowded limit) :=
  (Relation.ReflTransGen.single (.own (.add bare ⟨"/"⟩))).tail (.own (.files _ crowdedDisk))

/-- The one file has changed when it was written anew in a later second. -/
theorem fateOf_note {disk : Disk} {content : Bytes} {existing : OrderedSet Path}
    {catalog : Catalog} (zoned : disk.zone = .world)
    (found : disk.entry? ["note.txt"] = some (.file content 5)) (there : existing.contains notePath = true)
    (stored : catalog.document? 1 = some (note.document 1)) :
    fateOf disk existing catalog notePath 1 = .changed := by
  have written : disk.modified? notePath = some 5 := by
    unfold Disk.modified? Disk.look
    rw [resolve_notePath found]
  have later : (compare (Zone.world.moment 5) (note.document 1).facts.modified == .gt) = true := by
    decide
  unfold fateOf
  rw [there, stored, zoned]
  simp only [written, later, Bool.not_true, if_true, if_neg Bool.false_ne_true]

section Rooted

variable {disk : Disk} {existing : OrderedSet Path} {catalog : Catalog}
  (fate : fateOf disk existing catalog notePath 1 = .changed)

include fate

theorem size_kept_rooted : (rooted.kept disk existing catalog).size = 0 := by
  have none : (rooted.kept disk existing catalog).entries = [] := by
    rw [List.eq_nil_iff_forall_not_mem]
    intro entry member
    obtain ⟨held, stays⟩ := Watched.mem_kept_iff.mp member
    cases List.mem_singleton.mp held
    rw [fate] at stays
    cases stays
  unfold OrderedMap.size
  rw [none]
  rfl

theorem changed_rooted : rooted.changed disk existing catalog = [notePath] := by
  have entries : rooted.files.entries = [(notePath, 1)] := rfl
  unfold Watched.changed withFate
  rw [entries, List.filter_cons_of_pos (by rw [fate]; rfl)]
  rfl

end Rooted

theorem fate_crowded {limit : Nat} (wide : 1 ≤ limit) :
    fateOf crowdedDisk (eligible (limited limit) crowdedDisk ⟨"/"⟩) (crowded limit).catalog
      notePath 1 = .changed := by
  have there : (eligible (limited limit) crowdedDisk ⟨"/"⟩).contains notePath = true := by
    rw [eligible_crowded]
    decide
  have stored : (crowded limit).catalog.document? 1 = some (note.document 1) := by
    rw [(crowded_eq wide).2.1, Catalog.document?_register]
    rfl
  exact fateOf_note rfl found_crowded there stored

theorem read_crowded (limit : Nat) : ∃ item,
    Indexable.ofFile (limited limit).extensions crowdedDisk notePath = .ok (some item) := by
  have valid : (Extract.Extraction.ofContent notePath [0x68, 0x6f]).isValid = true := by
    decide +kernel
  unfold Indexable.ofFile Disk.look
  rw [resolve_notePath found_crowded]
  simp only [not_isIgnored_notePath, valid]
  exact ⟨_, rfl⟩

/-- The file has to be indexed again, and the new one waits before it. -/
theorem ahead_crowded {limit : Nat} (wide : 1 ≤ limit) :
    rooted.ahead crowdedDisk (eligible (limited limit) crowdedDisk ⟨"/"⟩)
      (crowded limit).catalog notePath = 1 := by
  have fresh : rooted.fresh (.ofList [memoPath, notePath]) = [memoPath] := by decide
  unfold Watched.ahead Watched.queue
  rw [(List.mergeSort_perm _ _).countP_eq, changed_rooted (fate_crowded wide), eligible_crowded,
    fresh]
  decide

/-- Where two files may be tracked, one that was written anew stays tracked beside a new one. -/
theorem retained_of_run_rewritten : bare.watch.roots = .empty ∧
    Relation.ReflTransGen (SharedStep (limited 2)) bare (crowded 2) ∧
    (crowded 2).taken ≤ UInt64.size ∧
    (crowded 2).watch.roots.get? ⟨"/"⟩ = some rooted ∧ (notePath, 1) ∈ rooted.files.entries ∧
    (eligible (limited 2) crowdedDisk ⟨"/"⟩).contains notePath = true ∧
    ∃ item, Indexable.ofFile (limited 2).extensions crowdedDisk notePath = .ok (some item) ∧
    ∃ synced, rooted.sync (limited 2) crowdedDisk (crowded 2).catalog ⟨"/"⟩ = .ok synced ∧
      synced.watched.files.contains notePath = true := by
  have found := get?_crowded (show 1 ≤ 2 by decide)
  obtain ⟨item, read⟩ := read_crowded 2
  have room : (crowded 2).taken ≤ UInt64.size := by
    rw [(crowded_eq (by decide)).2.2]
    decide
  have member : (notePath, 1) ∈ rooted.files.entries := List.mem_singleton_self _
  have there : (eligible (limited 2) crowdedDisk ⟨"/"⟩).contains notePath = true := by
    rw [eligible_crowded]
    decide
  have stay := size_kept_rooted (fate_crowded (show 1 ≤ 2 by decide))
  have turn := ahead_crowded (show 1 ≤ 2 by decide)
  obtain ⟨synced, result, ⟨-, kept⟩ | ⟨-, retained, -⟩⟩ :=
    retained_of_run rfl (run_crowded 2) room found (.inl rfl) member there read
  · exact ⟨rfl, run_crowded 2, room, found, member, there, item, read, synced, result,
      congrArg Option.isSome kept⟩
  · have few := Nat.lt_of_le_of_lt (Nat.le_of_eq (congrArg₂ (· + ·) stay turn))
      (show 0 + 1 < 2 by decide)
    exact ⟨rfl, run_crowded 2, room, found, member, there, item, read, synced, result,
      retained.mpr (.inr few)⟩

/-- Where one file may be tracked, one that was written anew is left out for a new one that comes
before it, though it still exists and still has words. -/
theorem leftOut_of_crowded : bare.watch.roots = .empty ∧
    Relation.ReflTransGen (SharedStep (limited 1)) bare (crowded 1) ∧
    (crowded 1).watch.roots.get? ⟨"/"⟩ = some rooted ∧ (notePath, 1) ∈ rooted.files.entries ∧
    (eligible (limited 1) crowdedDisk ⟨"/"⟩).contains notePath = true ∧
    (∃ item, Indexable.ofFile (limited 1).extensions crowdedDisk notePath = .ok (some item)) ∧
    ∃ synced, rooted.sync (limited 1) crowdedDisk (crowded 1).catalog ⟨"/"⟩ = .ok synced ∧
      synced.watched.files.contains notePath = false := by
  obtain ⟨item, read⟩ := read_crowded 1
  have there : (eligible (limited 1) crowdedDisk ⟨"/"⟩).contains notePath = true := by
    rw [eligible_crowded]
    decide
  have member : (notePath, 1) ∈ rooted.files.entries := List.mem_singleton_self _
  refine ⟨rfl, run_crowded 1, get?_crowded (Nat.le_refl 1), member, there, ⟨item, read⟩, _,
    Watched.sync_eq .., ?_⟩
  have fate := fate_crowded (Nat.le_refl 1)
  have waits : notePath ∈ rooted.queue crowdedDisk
      (eligible (limited 1) crowdedDisk ⟨"/"⟩) (crowded 1).catalog :=
    Watched.mem_queue_iff.mpr (.inr ((Watched.mem_changed_iff member).mpr fate))
  have distinct : rooted.files.values.Nodup := List.nodup_singleton 1
  rw [← Bool.not_eq_true, (Watched.contains_syncFiles_iff distinct waits read).1,
    size_kept_rooted fate, ahead_crowded (Nat.le_refl 1)]
  decide

end Tracking
end Concordance
