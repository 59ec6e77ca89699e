import Concordance.Proofs.Disk.Reach
import Concordance.Proofs.Indexing
import Mathlib.Algebra.GroupWithZero.Nat

/-! Which files are found below a directory. -/
namespace Concordance

/-- Entries are listed in any order, and each of them once. -/
def Listing.IsFair (listing : Listing) : Prop :=
  ∀ path entries, (listing path entries).Perm entries

namespace Gathering

variable {listing : Listing} {extensions : ExtensionSettings} {disk : Disk} {path : Path}
  {location : Location} {names : List Bytes} {name : Bytes} {entry : Entry}

/-- The files below a directory, by the names that lead to them. -/
def filesBelow (extensions : ExtensionSettings) (disk : Disk) (spot : Path × Location) : List Path :=
  ((disk.below spot.2).map fun found => spot.1.descend found.1).filter (accepts extensions disk)

/-- The files among the entries below a directory, from one of its own entries on. -/
def filesOf (extensions : ExtensionSettings) (disk : Disk) (spot : Path × Location)
    (child : Bytes × Entry) : List Path :=
  ((disk.branch spot.2 child).map fun found => spot.1.descend found.1).filter
    (accepts extensions disk)

/-- The number of directories below one. -/
def depthOf (disk : Disk) (location : Location) : Nat :=
  (disk.below location).countP fun found => found.2 = .directory

/-- A path that can be gone on from leads to a directory. -/
structure IsSpot (disk : Disk) (spot : Path × Location) : Prop where
  filled : spot.1.bytes ≠ []
  leads : disk.Leads spot.1 spot.2

/-- A directory in a directory that the search comes to is one it comes to as well. -/
theorem IsSpot.child (here : IsSpot disk (path, location)) (named : Disk.IsFileName name)
    (found : disk.entry? (location ++ [name]) = some .directory) :
    IsSpot disk (path.child name, location ++ [name]) :=
  ⟨Disk.bytes_child_ne_nil here.filled name, here.leads.child here.filled named found⟩

/-- Looking at a directory that the search comes to finds a directory. -/
theorem IsSpot.look (here : IsSpot disk (path, location))
    (checked : Disk.checkSpelling path.bytes = .ok ()) : disk.look path = .ok .directory := by
  unfold Disk.look
  rw [Disk.resolve_eq_of_leads checked here.leads]

/-- A path whose spelling is not allowed leads to no file. -/
theorem look_of_checkSpelling_ne (failed : Disk.checkSpelling path.bytes ≠ .ok ()) :
    disk.file? path = none := by
  unfold Disk.file? Disk.look
  cases resolved : disk.resolve path with
  | error fault => rfl
  | ok place => exact absurd (Disk.resolve_eq_ok.mp resolved).1 failed

/-- A directory is not one of the files. -/
theorem IsSpot.not_accepts (here : IsSpot disk (path, location)) (extensions : ExtensionSettings) :
    accepts extensions disk path = false := by
  have noFile : disk.file? path = none := by
    by_cases checked : Disk.checkSpelling path.bytes = .ok ()
    · unfold Disk.file?
      rw [here.look checked]
    · exact look_of_checkSpelling_ne checked
  rw [accepts, noFile, Option.isSome_none, Bool.and_false]

/-- The entries of a directory are listed if its path can be used. Else nothing below it can. -/
theorem IsSpot.entriesOf_cases (here : IsSpot disk (path, location)) (fair : listing.IsFair)
    (extensions : ExtensionSettings) :
    (entriesOf listing disk path).Perm (disk.children location) ∨
      entriesOf listing disk path = [] ∧ filesBelow extensions disk (path, location) = [] := by
  by_cases checked : Disk.checkSpelling path.bytes = .ok ()
  · refine .inl ?_
    unfold entriesOf Disk.readDirectory
    rw [Disk.resolve_eq_of_leads checked here.leads]
    exact fair path _
  · refine .inr ⟨?_, ?_⟩
    · unfold entriesOf Disk.readDirectory
      cases resolved : disk.resolve path with
      | error fault => rfl
      | ok place => exact absurd (Disk.resolve_eq_ok.mp resolved).1 checked
    · rw [filesBelow, List.filter_eq_nil_iff]
      rintro file member
      obtain ⟨⟨names, entry⟩, -, rfl⟩ := List.mem_map.mp member
      rw [accepts, look_of_checkSpelling_ne fun below =>
        checked (Disk.checkSpelling_of_descend here.filled below), Option.isSome_none, Bool.and_false]
      exact Bool.false_ne_true

/-- Of a directory in a directory the files below it are found. -/
theorem filesOf_directory (here : IsSpot disk (path, location)) (named : Disk.IsFileName name)
    (found : disk.entry? (location ++ [name]) = some .directory) :
    filesOf extensions disk (path, location) (name, .directory) =
      filesBelow extensions disk (path.child name, location ++ [name]) := by
  have other := (here.child named found).not_accepts extensions
  rw [filesOf, Disk.branch, if_pos rfl, List.map_cons, List.map_map, List.filter_cons_of_neg]
  · rfl
  · exact Bool.eq_false_iff.mp other

/-- Of any other entry the entry itself is found, if its path is accepted. -/
theorem filesOf_of_ne (other : entry ≠ .directory) :
    filesOf extensions disk (path, location) (name, entry) =
      if accepts extensions disk (path.child name) then [path.child name] else [] := by
  rw [filesOf, Disk.branch, if_neg other, List.map_cons, List.map_nil, List.filter_cons,
    List.filter_nil]
  rfl

/-- The number of directories that an entry brings with it. -/
def turnsOf (disk : Disk) (location : Location) (child : Bytes × Entry) : Nat :=
  (disk.branch location child).countP fun found => found.2 = .directory

/-- A directory takes a turn and those of the directories in it. -/
theorem turnsOf_directory (disk : Disk) (location : Location) (name : Bytes) :
    turnsOf disk location (name, .directory) = depthOf disk (location ++ [name]) + 1 := by
  rw [turnsOf, Disk.branch, if_pos rfl, List.countP_cons_of_pos (by simp), List.countP_map]
  rfl

/-- Any other entry takes no turn. -/
theorem turnsOf_of_ne (other : entry ≠ .directory) : turnsOf disk location (name, entry) = 0 := by
  rw [turnsOf, Disk.branch, if_neg other, List.countP_cons_of_neg (by simpa using other),
    List.countP_nil]

/-- The files below a directory are those of its entries. -/
theorem perm_filesBelow (spot : Path × Location) :
    (filesBelow extensions disk spot).Perm
      ((disk.children spot.2).flatMap (filesOf extensions disk spot)) := by
  have whole := ((disk.perm_below spot.2).map fun found => spot.1.descend found.1).filter
    (accepts extensions disk)
  rwa [List.map_flatMap, List.filter_flatMap] at whole

/-- The turns below a directory are those of its entries. -/
theorem depthOf_eq (disk : Disk) (location : Location) :
    depthOf disk location = ((disk.children location).map (turnsOf disk location)).sum := by
  rw [depthOf, (disk.perm_below location).countP_eq, List.countP_flatMap]
  rfl

/-- What a search has found and what lies below the directories that are left is all there is, and so
many turns are enough for them. -/
structure Covers (extensions : ExtensionSettings) (disk : Disk) (gathering : Gathering)
    (spots : List (Path × Location)) (all : List Path) (turns : Nat) : Prop where
  pending : gathering.pending = spots.map Prod.fst
  valid : ∀ spot ∈ spots, IsSpot disk spot
  total : all.Perm (gathering.files ++ spots.flatMap (filesBelow extensions disk))
  turns : turns = (spots.map fun spot => depthOf disk spot.2 + 1).sum

namespace Covers

variable {gathering : Gathering} {spots : List (Path × Location)} {all : List Path} {turns : Nat}

/-- In which order files are found does not matter. -/
theorem congr {others : List Path} {more : Nat}
    (covers : Covers extensions disk gathering spots all turns) (perm : others.Perm all) (same : more = turns) :
    Covers extensions disk gathering spots others more :=
  ⟨covers.pending, covers.valid, perm.trans covers.total, same.trans covers.turns⟩

/-- Noting an entry of a directory covers the entry and all below it. -/
theorem note (covers : Covers extensions disk gathering spots all turns)
    (here : IsSpot disk (path, location)) (named : disk.Named)
    (found : disk.entry? (location ++ [name]) = some entry) :
    ∃ others, Covers extensions disk (note extensions disk path gathering (name, entry)) others
      (filesOf extensions disk (path, location) (name, entry) ++ all)
      (turnsOf disk location (name, entry) + turns) := by
  obtain ⟨pending, valid, total, counted⟩ := covers
  unfold Gathering.note
  by_cases directory : entry = .directory
  · subst directory
    refine ⟨(path.child name, location ++ [name]) :: spots, ?_, ?_, ?_, ?_⟩
    · rw [if_pos rfl, pending]
      rfl
    · exact List.forall_mem_cons.mpr ⟨here.child (named.of_child found) found, valid⟩
    · rw [if_pos rfl, filesOf_directory here (named.of_child found) found, List.flatMap_cons]
      exact (total.append_left _).trans (List.perm_append_comm_assoc ..)
    · rw [turnsOf_directory, List.map_cons, List.sum_cons, counted]
  · rw [filesOf_of_ne directory, turnsOf_of_ne directory, Nat.zero_add]
    refine ⟨spots, ?_, valid, ?_, counted⟩
    · rw [if_neg directory]
      split <;> exact pending
    · rw [if_neg directory]
      split
      next =>
        rw [List.append_assoc]
        exact (total.append_left _).trans (List.perm_append_comm_assoc ..)
      next => exact total

/-- Going through the entries of a directory finds its files and notes its directories. -/
theorem foldl_note (covers : Covers extensions disk gathering spots all turns)
    (here : IsSpot disk (path, location)) (named : disk.Named) {entries : List (Bytes × Entry)}
    (inside : ∀ entry ∈ entries, entry ∈ disk.children location) :
    ∃ others, Covers extensions disk
      (entries.foldl (Gathering.note extensions disk path) gathering) others
      (entries.flatMap (filesOf extensions disk (path, location)) ++ all)
      ((entries.map (turnsOf disk location)).sum + turns) := by
  induction entries generalizing gathering spots all turns with
  | nil => exact ⟨spots, covers.congr (.refl _) (Nat.zero_add _)⟩
  | cons entry rest ih =>
      obtain ⟨name, kind⟩ := entry
      rw [List.forall_mem_cons] at inside
      obtain ⟨others, noted⟩ := covers.note here named (Disk.mem_children.mp inside.1)
      obtain ⟨last, done⟩ := ih noted inside.2
      refine ⟨last, done.congr ?_ ?_⟩
      · rw [List.flatMap_cons, List.append_assoc]
        exact List.perm_append_comm_assoc ..
      · rw [List.map_cons, List.sum_cons]
        omega

/-- With enough turns the search comes to an end and has found all. -/
theorem run (covers : Covers extensions disk gathering spots all turns) (fair : listing.IsFair)
    (named : disk.Named) {count : Nat} (enough : turns ≤ count) :
    (run listing extensions disk count gathering).pending = [] ∧
      (run listing extensions disk count gathering).files.Perm all := by
  induction count generalizing gathering spots all turns with
  | zero =>
      obtain ⟨pending, -, total, counted⟩ := covers
      cases spots with
      | nil => exact ⟨pending, by simpa [Gathering.run] using total.symm⟩
      | cons spot rest =>
          rw [List.map_cons, List.sum_cons] at counted
          omega
  | succ count ih =>
      obtain ⟨waiting, files⟩ := gathering
      obtain ⟨pending, valid, total, counted⟩ := covers
      obtain rfl : waiting = spots.map Prod.fst := pending
      cases spots with
      | nil => exact ⟨rfl, by simpa [Gathering.run] using total.symm⟩
      | cons spot rest =>
          obtain ⟨path, location⟩ := spot
          rw [List.forall_mem_cons] at valid
          rw [List.map_cons, List.sum_cons] at counted
          dsimp only at counted
          rw [List.map_cons, Gathering.run]
          have left : Covers extensions disk ⟨rest.map Prod.fst, files⟩ rest
              (files ++ rest.flatMap (filesBelow extensions disk)) _ :=
            ⟨rfl, valid.2, .refl _, rfl⟩
          rcases valid.1.entriesOf_cases fair extensions with listed | ⟨none, bare⟩
          · obtain ⟨others, next⟩ := left.foldl_note valid.1 named fun entry => listed.mem_iff.mp
            have sum := (listed.map (turnsOf disk location)).sum_nat
            rw [← depthOf_eq] at sum
            obtain ⟨finished, found⟩ := ih next (by omega)
            refine ⟨finished, found.trans ?_⟩
            refine List.Perm.trans ?_ total.symm
            rw [List.flatMap_cons]
            refine (List.perm_append_comm_assoc ..).trans (List.Perm.append_left _ ?_)
            exact ((listed.flatMap_right _).trans (perm_filesBelow _).symm).append_right _
          · rw [none]
            obtain ⟨finished, found⟩ := ih left (by omega)
            refine ⟨finished, found.trans ?_⟩
            rw [List.flatMap_cons, bare, List.nil_append] at total
            exact total.symm

end Covers

/-- The files below a directory are told apart by the names that lead to them. -/
theorem pairwise_filesBelow (named : disk.Named) (extensions : ExtensionSettings) (path : Path)
    (location : Location) : (filesBelow extensions disk (path, location)).Pairwise
      fun first second => compare first second ≠ .eq := by
  refine (List.pairwise_map.mpr ?_).sublist List.filter_sublist
  refine List.Pairwise.imp_of_mem ?_ Disk.nodup_below
  rintro ⟨names, entry⟩ ⟨others, other⟩ here there different same
  rw [Disk.mem_below] at here there
  obtain rfl := path.descend_injective (named.of_holds here) (named.of_holds there)
    (Path.compare_eq_iff.mp same)
  have entries := (Disk.holds_iff.mp here).2.symm.trans (Disk.holds_iff.mp there).2
  cases entries
  exact different rfl

/-- A file is found below a directory where names lead to it and it is accepted. -/
theorem mem_filesBelow {file : Path} : file ∈ filesBelow extensions disk (path, location) ↔
    ∃ names entry, disk.Holds location names entry ∧ file = path.descend names ∧
      accepts extensions disk file = true := by
  rw [filesBelow, List.mem_filter, List.mem_map]
  constructor
  · rintro ⟨⟨⟨names, entry⟩, member, rfl⟩, accepted⟩
    exact ⟨names, entry, Disk.mem_below.mp member, rfl, accepted⟩
  · rintro ⟨names, entry, holds, rfl, accepted⟩
    exact ⟨⟨(names, entry), Disk.mem_below.mpr holds, rfl⟩, accepted⟩

/-- A path that is resolved to a directory is one the search comes to. -/
theorem isSpot_of_resolve (resolved : disk.resolve path = .ok (.taken location .directory)) :
    IsSpot disk (path, location) :=
  ⟨(Disk.checkSpelling_eq_ok.mp (Disk.resolve_eq_ok.mp resolved).1).2.1,
    Disk.leads_of_resolve resolved⟩

/-- No more turns are taken than there are entries on the disk. -/
theorem depthOf_le (disk : Disk) (location : Location) :
    depthOf disk location ≤ disk.entries.size :=
  Nat.le_trans List.countP_le_length (List.length_filterMap_le ..)

/-- The search below a directory ends, and has found the files below it. -/
theorem below_of_resolve (named : disk.Named) (fair : listing.IsFair)
    (resolved : disk.resolve path = .ok (.taken location .directory)) :
    (below listing extensions disk path).pending = [] ∧
      (below listing extensions disk path).files.Perm
        (filesBelow extensions disk (path, location)) := by
  have begun : Covers extensions disk ⟨[path], []⟩ [(path, location)]
      (filesBelow extensions disk (path, location)) (depthOf disk location + 1) :=
    ⟨rfl, List.forall_mem_singleton.mpr (isSpot_of_resolve resolved), by simp, by simp⟩
  exact begun.run fair named (Nat.succ_le_succ (depthOf_le disk location))

/-- Only accepted files are found. -/
theorem accepts_of_mem_note {gathering : Gathering} {directory : Path} {child : Bytes × Entry}
    (found : ∀ file ∈ gathering.files, accepts extensions disk file = true) :
    ∀ file ∈ (note extensions disk directory gathering child).files,
      accepts extensions disk file = true := by
  unfold note
  dsimp only
  split
  next => exact found
  next =>
    split
    next accepted =>
      exact List.forall_mem_append.mpr ⟨found, List.forall_mem_singleton.mpr accepted⟩
    next => exact found

/-- Whatever is found is accepted. -/
theorem accepts_of_mem_run {gathering : Gathering} {count : Nat}
    (found : ∀ file ∈ gathering.files, accepts extensions disk file = true) :
    ∀ file ∈ (run listing extensions disk count gathering).files,
      accepts extensions disk file = true := by
  induction count generalizing gathering with
  | zero => exact found
  | succ count ih =>
      obtain ⟨pending, files⟩ := gathering
      cases pending with
      | nil => exact found
      | cons directory rest =>
          refine ih ?_
          refine List.foldlRecOn _ _ (motive := fun gathering : Gathering =>
            ∀ file ∈ gathering.files, accepts extensions disk file = true) found ?_
          exact fun gathering found child _ => accepts_of_mem_note found

end Gathering

section Collecting

variable {listing : Listing} {extensions : ExtensionSettings} {disk : Disk} {root : Path}
  {location : Location}

/-- The files below a directory are collected in the order of their paths, however directories are
listed. -/
theorem collectListed_of_resolve (named : disk.Named) (fair : listing.IsFair)
    (resolved : disk.resolve root = .ok (.taken location .directory))
    (extensions : ExtensionSettings) :
    collectListed listing extensions disk root =
      .ok (Path.sort (Gathering.filesBelow extensions disk (root, location))) := by
  have looked : disk.look root = .ok .directory := by
    unfold Disk.look
    rw [resolved]
  have listed : disk.readDirectory root = .ok (disk.children location) := by
    unfold Disk.readDirectory
    rw [resolved]
  unfold collectListed
  rw [looked, listed]
  exact congrArg Except.ok (Path.sort_eq_of_perm
    (Gathering.below_of_resolve named fair resolved).2
    (Gathering.pairwise_filesBelow named extensions root location))

/-- A path that is no directory gives itself. -/
theorem collectFiles_of_look {entry : Entry} (looked : disk.look root = .ok entry)
    (other : entry ≠ .directory) : collectFiles extensions disk root = .ok [root] := by
  unfold collectFiles collectListed
  rw [looked]
  cases entry with
  | directory => exact absurd rfl other
  | _ => rfl

/-- A path that is there can be searched for files. -/
theorem collectFiles_of_holds (there : disk.holds root = true) :
    ∃ files, collectFiles extensions disk root = .ok files := by
  unfold Disk.holds at there
  split at there
  next entry found =>
    obtain ⟨location, resolved⟩ := Disk.resolve_of_look found
    unfold collectFiles collectListed Disk.readDirectory
    rw [found, resolved]
    cases entry <;> exact ⟨_, rfl⟩
  next => cases there

/-- What is collected are files, or one device. -/
theorem modified?_of_mem_collectFiles {file : Path} {files : List Path}
    (collected : collectFiles extensions disk root = .ok files)
    (member : file ∈ files) : ∃ modified, disk.modified? file = some modified := by
  unfold collectFiles collectListed at collected
  split at collected
  next => cases collected
  next looked =>
    split at collected
    next => cases collected
    next =>
      rw [← Except.ok.inj collected, (Path.perm_sort _).mem_iff] at member
      have accepted := Gathering.accepts_of_mem_run (List.forall_mem_nil _) file member
      obtain ⟨⟨content, modified⟩, found⟩ :=
        Option.isSome_iff_exists.mp (Bool.and_eq_true_iff.mp accepted).2
      unfold Disk.file? at found
      unfold Disk.modified?
      split at found
      next bytes second looked => exact ⟨second, by rw [looked]⟩
      next => cases found
  next entry noDirectory looked =>
    rw [← Except.ok.inj collected, List.mem_singleton] at member
    rw [member]
    exact Disk.modified?_of_look noDirectory looked

end Collecting

namespace Catalog

/-- Indexes the files of a list one by one. One that cannot be read is passed over. -/
def indexEach (catalog : Catalog) (extensions : ExtensionSettings) (disk : Disk) :
    List Path → List DocId × Catalog
  | [] => ([], catalog)
  | path :: rest =>
      match catalog.indexFile extensions disk path with
      | .error _ => catalog.indexEach extensions disk rest
      | .ok (id, catalog) =>
          let (ids, catalog) := catalog.indexEach extensions disk rest
          (id.toList ++ ids, catalog)

/-- Reading all files first comes to the same as indexing them one by one. -/
theorem indexEach_eq (catalog : Catalog) (extensions : ExtensionSettings) (disk : Disk)
    (paths : List Path) :
    catalog.indexEach extensions disk paths =
      ((catalog.indexFiles extensions disk paths).1.map Prod.snd,
        (catalog.indexFiles extensions disk paths).2) := by
  induction paths generalizing catalog with
  | nil => rfl
  | cons path rest ih =>
      unfold indexEach indexFile indexFiles Indexable.ofFiles
      cases read : Indexable.ofFile extensions disk path with
      | error fault =>
          rw [List.filterMap_cons_none (by rw [read])]
          exact ih catalog
      | ok item =>
          cases item with
          | none =>
              rw [List.filterMap_cons_none (by rw [read])]
              exact ih catalog
          | some item =>
              rw [List.filterMap_cons_some (by rw [read]), registerAll_cons]
              have rest_eq := ih (catalog.register item).2
              simp only [bind, Except.bind, pure, Except.pure, rest_eq]
              rfl

/-- Registered files get the next numbers, one after another. -/
theorem ids_registerAll (catalog : Catalog) (items : List Indexable) :
    (catalog.registerAll items).1.map Prod.snd =
      (List.range items.length).map fun index => catalog.nextId + UInt64.ofNat index := by
  induction items generalizing catalog with
  | nil => rfl
  | cons item rest ih =>
      rw [registerAll_cons, List.map_cons, ih, nextId_register, List.length_cons,
        List.range_succ_eq_map, List.map_cons, List.map_map]
      congr 1
      · simp
      · apply List.map_congr_left
        intro index _
        simp [UInt64.add_assoc, UInt64.add_comm 1, UInt64.ofNat_add]

/-- Numbers that follow one another ascend as long as they do not come round. -/
theorem pairwise_numbers {first : DocId} {count : Nat}
    (room : first.toNat + count ≤ UInt64.size) :
    ((List.range count).map fun index => first + UInt64.ofNat index).Pairwise (· < ·) := by
  rw [List.pairwise_map]
  refine List.Pairwise.imp_of_mem ?_ List.pairwise_lt_range
  intro earlier later here there less
  rw [List.mem_range] at here there
  have size : UInt64.size = 2 ^ 64 := rfl
  rw [UInt64.lt_iff_toNat_lt, UInt64.toNat_add, UInt64.toNat_add, UInt64.toNat_ofNat',
    UInt64.toNat_ofNat', Nat.mod_eq_of_lt (a := earlier) (by omega),
    Nat.mod_eq_of_lt (a := later) (by omega), Nat.mod_eq_of_lt (by omega),
    Nat.mod_eq_of_lt (by omega)]
  omega

end Catalog

/-- The files below a directory are found and indexed. However directories are listed, the search
ends with the same files: those with an allowed extension that are reached through directories, and
links to files in their place, each once and in the order of their paths. Indexing the directory does
what indexing these files one by one does, and gives them the next numbers. -/
theorem index_of_directory {disk : Disk} {root : Path} {location : Location} (named : disk.Named)
    (resolved : disk.resolve root = .ok (.taken location .directory))
    (extensions : ExtensionSettings) :
    ∃ files : List Path,
      (∀ listing : Listing, listing.IsFair →
        (Gathering.below listing extensions disk root).pending = [] ∧
        collectListed listing extensions disk root = .ok files) ∧
      files.Nodup ∧ files.Pairwise (fun first second => compare first second = .lt) ∧
      (∀ file, file ∈ files ↔ ∃ names entry, disk.Holds location names entry ∧
        file = root.descend names ∧ extensions.isAllowed file = true ∧
        Disk.checkSpelling file.bytes = .ok () ∧
        (Disk.IsFile entry ∨ (∃ target, entry = .link target) ∧
          ∃ content modified, disk.look file = .ok (.file content modified))) ∧
      ∀ catalog : Catalog,
        catalog.index extensions disk root = .ok (catalog.indexEach extensions disk files) ∧
        ∃ count, (catalog.indexEach extensions disk files).1 =
            (List.range count).map (fun index => catalog.nextId + UInt64.ofNat index) ∧
          (catalog.nextId.toNat + count ≤ UInt64.size →
            (catalog.indexEach extensions disk files).1.Pairwise (· < ·)) := by
  have spot := Gathering.isSpot_of_resolve resolved
  have strict := Path.pairwise_sort
    (Gathering.pairwise_filesBelow named extensions root location)
  refine ⟨Path.sort (Gathering.filesBelow extensions disk (root, location)), fun listing fair =>
    ⟨(Gathering.below_of_resolve named fair resolved).1,
      collectListed_of_resolve named fair resolved extensions⟩,
    ?_, strict, fun file => ?_, fun catalog => ⟨?_, ?_⟩⟩
  · refine strict.imp fun less same => ?_
    rw [same, Std.ReflOrd.compare_self] at less
    cases less
  · rw [(Path.perm_sort _).mem_iff, Gathering.mem_filesBelow]
    refine exists_congr fun names => exists_congr fun entry => and_congr_right fun holds =>
      and_congr_right fun path => ?_
    subst path
    rw [Gathering.accepts, Bool.and_eq_true,
      holds.isSome_file?_iff named spot.filled spot.leads]
  · have collected := collectListed_of_resolve named (fun _ entries => List.Perm.refl entries)
      resolved extensions
    unfold Catalog.index collectFiles Disk.look
    rw [resolved, collected, Catalog.indexEach_eq]
    rfl
  · have ids := Catalog.ids_registerAll catalog (Indexable.ofFiles extensions disk
      (Path.sort (Gathering.filesBelow extensions disk (root, location))))
    refine ⟨_, (congrArg Prod.fst (Catalog.indexEach_eq ..)).trans ids, fun room => ?_⟩
    rw [Catalog.indexEach_eq]
    exact ids ▸ Catalog.pairwise_numbers room

/-- A disk with a file in a directory, a link to the file beside the directory, and in the directory a
link back to where it lies. -/
def linkedDisk : Disk :=
  ⟨.ofList [(["a.txt"], .link "d/b.txt"), (["d"], .directory), (["d", "b.txt"], .file [0x68, 0x69] 0),
    (["d", "up"], .link "..")], [], .world⟩

theorem look_linked : linkedDisk.look ⟨"/a.txt"⟩ = .ok (.file [0x68, 0x69] 0) := by
  have checked : Disk.checkSpelling "/a.txt" = .ok () := Disk.checkSpelling_eq_ok.mpr (by decide)
  have pieces : Path.pieces ⟨"/a.txt"⟩ = [[], ("a.txt" : Bytes)] := by decide
  have target : Path.pieces ⟨"d/b.txt"⟩ = [("d" : Bytes), ("b.txt" : Bytes)] := by decide
  have resolved : linkedDisk.resolve ⟨"/a.txt"⟩ =
      .ok (.taken ["d", "b.txt"] (.file [0x68, 0x69] 0)) := by
    refine Disk.resolve_eq_ok.mpr ⟨checked, ?_⟩
    unfold Disk.walkFrom Disk.maxLinks
    rw [pieces, Disk.walk_blank (.inl rfl), Disk.walk_link (by decide) rfl, target]
    exact (Disk.walk_directory (by decide) rfl).trans (Disk.walk_file (by decide) rfl)
  unfold Disk.look
  rw [resolved]

/-- The file and the link to it are found from the root, whichever of the entries is listed first, and
the link back is not followed. -/
theorem index_of_directory_linked :
    linkedDisk.Named ∧ linkedDisk.resolve ⟨"/"⟩ = .ok (.taken [] .directory) ∧
    ∃ files : List Path, ⟨"/a.txt"⟩ ∈ files ∧ ⟨"/d/b.txt"⟩ ∈ files ∧ files.Nodup ∧
      collectFiles Settings.standard.extensions linkedDisk ⟨"/"⟩ = .ok files ∧
      collectListed (fun _ entries => entries.reverse) Settings.standard.extensions linkedDisk ⟨"/"⟩ =
        .ok files := by
  have named : linkedDisk.Named := by
    unfold Disk.Named
    decide
  obtain ⟨files, found, once, -, member, -⟩ :=
    index_of_directory named linkedDisk.resolve_slash Settings.standard.extensions
  refine ⟨named, linkedDisk.resolve_slash, files, ?_, ?_, once,
    (found (fun _ entries => entries) fun _ entries => List.Perm.refl entries).2,
    (found (fun _ entries => entries.reverse) fun _ => List.reverse_perm).2⟩
  · exact (member _).mpr ⟨["a.txt"], .link "d/b.txt", .child rfl, by decide, by decide +kernel,
      Disk.checkSpelling_eq_ok.mpr (by decide), .inr ⟨⟨_, rfl⟩, _, _, look_linked⟩⟩
  · exact (member _).mpr ⟨["d", "b.txt"], .file [0x68, 0x69] 0, .deeper rfl (.child rfl), by decide,
      by decide +kernel, Disk.checkSpelling_eq_ok.mpr (by decide), .inl ⟨_, _, rfl⟩⟩

end Concordance
