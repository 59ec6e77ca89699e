import Concordance.Proofs.Disk.Tree
import Mathlib.Data.List.Nodup

/-! What lies below a directory. -/
namespace Concordance

namespace Path

theorem partOf?_of_isEntryName {name : Bytes} (named : Disk.IsEntryName name) :
    partOf? name = some (.name name) := by
  obtain ⟨filled, noDot, noDots, -⟩ := named
  unfold partOf?
  rw [if_neg (not_or.mpr ⟨filled, noDot⟩), if_neg noDots]

theorem steps_ne_nil (directory : Path) : directory.steps ≠ [] := by
  unfold steps
  split
  next ends =>
    obtain ⟨before, spelt⟩ := List.getLast?_eq_some_iff.mp ends
    rw [pieces_of_slash spelt, pieces_empty, List.dropLast_concat]
    exact Text.pieces_ne_nil _ _
  next => exact Text.pieces_ne_nil _ _

/-- A child has the parts of its directory and then its name. -/
theorem parts_child (directory : Path) {name : Bytes} (named : Disk.IsFileName name) :
    (directory.child name).parts = directory.parts ++ [.name name] := by
  obtain ⟨plain, entry⟩ := named
  have last : [name].filterMap partOf? = [.name name] := by
    rw [List.filterMap_cons, partOf?_of_isEntryName entry, List.filterMap_nil]
  by_cases filled : directory.bytes = []
  · -- The path that is not spelt at all is the only one whose children are spelt like their names.
    obtain rfl : directory = ⟨[]⟩ := congrArg Path.mk filled
    have relative : isAbsolute ⟨name⟩ = false := by
      unfold isAbsolute
      rw [beq_eq_false_iff_ne]
      exact fun slash => plain (List.mem_of_head? slash)
    have child : child ⟨[]⟩ name = ⟨name⟩ := rfl
    have empty : parts ⟨[]⟩ = [] := by decide
    have noDot : ¬some name = some [dot] := fun same => entry.2.1 (Option.some.inj same)
    rw [child, empty, parts, pieces_of_isName plain, last, relative, List.head?_cons,
      if_neg Bool.false_ne_true, if_neg noDot]
  · have same : directory.pieces.filterMap partOf? = directory.steps.filterMap partOf? := by
      rcases directory.pieces_eq_steps with same | slash
      · rw [same]
      · have none : [[]].filterMap partOf? = [] := by decide
        rw [slash, List.filterMap_append, none, List.append_nil]
    have head : (directory.steps ++ [name]).head? = directory.pieces.head? := by
      rw [List.head?_append_of_ne_nil _ directory.steps_ne_nil]
      rcases directory.pieces_eq_steps with same | slash
      · rw [same]
      · rw [slash, List.head?_append_of_ne_nil _ directory.steps_ne_nil]
    unfold parts
    rw [pieces_child filled plain, isAbsolute_child filled, head, List.filterMap_append, last, same,
      List.append_assoc]

/-- The parts of a path below a directory are those of the directory and the names on the way. -/
theorem parts_descend (directory : Path) {names : List Bytes}
    (named : ∀ name ∈ names, Disk.IsFileName name) :
    (directory.descend names).parts = directory.parts ++ names.map .name := by
  induction names generalizing directory with
  | nil => exact (List.append_nil _).symm
  | cons name rest ih =>
      rw [List.forall_mem_cons] at named
      show ((directory.child name).descend rest).parts = _
      rw [ih _ named.2, parts_child directory named.1, List.append_assoc]
      rfl

/-- Different names lead to paths with different parts. -/
theorem descend_injective (directory : Path) {first second : List Bytes}
    (named : ∀ name ∈ first, Disk.IsFileName name) (others : ∀ name ∈ second, Disk.IsFileName name)
    (same : (directory.descend first).parts = (directory.descend second).parts) :
    first = second := by
  rw [parts_descend directory named, parts_descend directory others, List.append_cancel_left_eq]
    at same
  exact List.map_injective_iff.mpr (fun _ _ same => Part.name.inj same) same

/-- A path is spelt like its directory at the start. -/
theorem bytes_child_prefix (directory : Path) (name : Bytes) :
    directory.bytes <+: (directory.child name).bytes := by
  unfold child
  split
  next none =>
    rw [List.getLast?_eq_none_iff.mp none]
    exact List.nil_prefix
  next => split <;> exact List.prefix_append ..

end Path

namespace Disk

/-- Every step on the way to an entry bears a name that a file can have. -/
def Named (disk : Disk) : Prop :=
  ∀ location ∈ disk.entries.keys, ∀ name ∈ location, IsFileName name

/-- Names lead from a directory to an entry, and through directories only on the way. -/
inductive Holds (disk : Disk) : Location → List Bytes → Entry → Prop where
  | child {location : Location} {name : Bytes} {entry : Entry}
      (found : disk.entry? (location ++ [name]) = some entry) : Holds disk location [name] entry
  | deeper {location : Location} {name : Bytes} {names : List Bytes} {entry : Entry}
      (found : disk.entry? (location ++ [name]) = some .directory)
      (onward : Holds disk (location ++ [name]) names entry) :
      Holds disk location (name :: names) entry

/-- Names lead on, and through directories only before the last of them. -/
def isReached (disk : Disk) : Location → List Bytes → Bool
  | _, [] => false
  | _, [_] => true
  | location, name :: rest =>
      disk.entry? (location ++ [name]) == some .directory && isReached disk (location ++ [name]) rest

/-- The entries in a directory and in the directories below it, each with the names that lead to
it. -/
def below (disk : Disk) (directory : Location) : List (List Bytes × Entry) :=
  disk.entries.entries.filterMap fun (location, entry) =>
    if directory.isPrefixOf location then
      let names := location.drop directory.length
      if disk.isReached directory names then some (names, entry) else none
    else none

section Below

variable {disk : Disk} {location : Location} {names : List Bytes} {entry : Entry}

/-- What is at a place other than the root is an entry of the disk. -/
theorem entry?_of_ne_nil (filled : location ≠ []) : disk.entry? location = some entry ↔
    (location, entry) ∈ disk.entries.entries := by
  unfold entry?
  rw [if_neg filled, OrderedMap.get?_eq_some_iff]

/-- The children of a directory are the entries one name below it. -/
theorem mem_children {name : Bytes} :
    (name, entry) ∈ disk.children location ↔ disk.entry? (location ++ [name]) = some entry := by
  rw [entry?_of_ne_nil (by simp), children, List.mem_filterMap]
  constructor
  · rintro ⟨⟨whole, other⟩, stored, listed⟩
    rcases List.eq_nil_or_concat' whole with rfl | ⟨above, last, rfl⟩
    · cases listed
    · simp only [List.getLast?_concat, List.dropLast_concat] at listed
      split at listed
      next same =>
        cases listed
        exact same ▸ stored
      next => cases listed
  · intro stored
    exact ⟨_, stored, by simp⟩

/-- Every child is listed once. -/
theorem nodup_children : (disk.children location).Nodup := by
  refine List.Nodup.filterMap ?_ (List.Nodup.of_map Prod.fst disk.entries.nodup_keys)
  rintro ⟨first, one⟩ ⟨second, other⟩ ⟨name, entry⟩ here there
  rcases List.eq_nil_or_concat' first with rfl | ⟨above, last, rfl⟩
  · cases here
  rcases List.eq_nil_or_concat' second with rfl | ⟨before, final, rfl⟩
  · cases there
  simp only [List.getLast?_concat, List.dropLast_concat, Option.mem_def,
    Option.ite_none_right_eq_some, Option.some.injEq, Prod.mk.injEq] at here there
  obtain ⟨rfl, rfl, rfl⟩ := here
  obtain ⟨rfl, rfl, rfl⟩ := there
  rfl

/-- A directory holds what names lead to from it through directories. -/
theorem holds_iff : disk.Holds location names entry ↔
    disk.isReached location names = true ∧ disk.entry? (location ++ names) = some entry := by
  constructor
  · intro holds
    induction holds with
    | child found => exact ⟨rfl, found⟩
    | @deeper location name names entry found onward ih =>
        rw [List.append_assoc] at ih
        refine ⟨?_, ih.2⟩
        cases names with
        | nil => cases onward
        | cons next rest => simp only [isReached, found, ih.1, beq_self_eq_true, Bool.and_self]
  · rintro ⟨reached, found⟩
    induction names generalizing location with
    | nil => cases reached
    | cons name rest ih =>
        cases rest with
        | nil => exact .child found
        | cons next others =>
            simp only [isReached, Bool.and_eq_true, beq_iff_eq] at reached
            exact .deeper reached.1 (ih reached.2 (by simpa using found))

/-- What lies below a directory is what it holds. -/
theorem mem_below : (names, entry) ∈ disk.below location ↔ disk.Holds location names entry := by
  rw [holds_iff, below, List.mem_filterMap]
  constructor
  · rintro ⟨⟨whole, other⟩, stored, listed⟩
    simp only [Option.ite_none_right_eq_some, Option.some.injEq, Prod.mk.injEq] at listed
    obtain ⟨inside, reached, rfl, rfl⟩ := listed
    obtain ⟨names, rfl⟩ := List.isPrefixOf_iff_prefix.mp inside
    rw [List.drop_left] at reached ⊢
    have filled : names ≠ [] := by
      rintro rfl
      cases reached
    exact ⟨reached, (entry?_of_ne_nil (by simp [filled])).mpr stored⟩
  · rintro ⟨reached, found⟩
    have filled : names ≠ [] := by
      rintro rfl
      cases reached
    exact ⟨_, (entry?_of_ne_nil (by simp [filled])).mp found, by simp [reached]⟩

/-- What lies below a directory is listed once. -/
theorem nodup_below : (disk.below location).Nodup := by
  refine List.Nodup.filterMap ?_ (List.Nodup.of_map Prod.fst disk.entries.nodup_keys)
  rintro ⟨first, one⟩ ⟨second, other⟩ found here there
  simp only [Option.mem_def, Option.ite_none_right_eq_some, Option.some.injEq] at here there
  obtain ⟨inside, -, rfl⟩ := here
  obtain ⟨within, -, same⟩ := there
  obtain ⟨names, rfl⟩ := List.isPrefixOf_iff_prefix.mp inside
  obtain ⟨others, rfl⟩ := List.isPrefixOf_iff_prefix.mp within
  rw [List.drop_left, List.drop_left] at same
  cases same
  rfl

/-- On a disk with proper names, names that lead to something are proper. -/
theorem Named.of_holds (named : disk.Named) (holds : disk.Holds location names entry) :
    ∀ name ∈ names, IsFileName name := by
  obtain ⟨reached, found⟩ := holds_iff.mp holds
  have filled : names ≠ [] := by
    rintro rfl
    cases reached
  have stored := (entry?_of_ne_nil (by simp [filled])).mp found
  exact fun name member =>
    named _ (List.mem_map_of_mem stored) name (List.mem_append_right _ member)

theorem Named.of_child {name : Bytes} (named : disk.Named)
    (found : disk.entry? (location ++ [name]) = some entry) : IsFileName name :=
  named.of_holds (.child found) name List.mem_cons_self

/-- An entry together with all that lies below it. -/
def branch (disk : Disk) (location : Location) (child : Bytes × Entry) :
    List (List Bytes × Entry) :=
  ([child.1], child.2) ::
    if child.2 = .directory then
      (disk.below (location ++ [child.1])).map fun found => (child.1 :: found.1, found.2)
    else []

/-- The branch of a child is the child itself and, for a directory, what it holds. -/
theorem mem_branch {child : Bytes × Entry} :
    (names, entry) ∈ disk.branch location child ↔
      (names = [child.1] ∧ entry = child.2) ∨
      child.2 = .directory ∧ ∃ rest, names = child.1 :: rest ∧
        disk.Holds (location ++ [child.1]) rest entry := by
  rw [branch, List.mem_cons, Prod.mk.injEq]
  apply or_congr_right
  split
  next directory =>
    rw [List.mem_map]
    constructor
    · rintro ⟨⟨rest, other⟩, member, same⟩
      cases same
      exact ⟨directory, rest, rfl, mem_below.mp member⟩
    · rintro ⟨-, rest, rfl, holds⟩
      exact ⟨(rest, entry), mem_below.mpr holds, rfl⟩
  next other => simp [other]

/-- Everything in the branch of a child is listed once. -/
theorem nodup_branch (child : Bytes × Entry) : (disk.branch location child).Nodup := by
  rw [branch, List.nodup_cons]
  split
  next =>
    constructor
    · intro member
      obtain ⟨⟨rest, other⟩, held, same⟩ := List.mem_map.mp member
      simp only [Prod.mk.injEq, List.cons.injEq, true_and] at same
      obtain ⟨rfl, -⟩ := same
      cases mem_below.mp held
    · refine nodup_below.map ?_
      rintro ⟨first, one⟩ ⟨second, other⟩ same
      cases same
      rfl
  next => exact ⟨List.not_mem_nil, List.nodup_nil⟩

/-- All that lies below a directory are its entries, each with what lies below it. -/
theorem perm_below (disk : Disk) (location : Location) :
    (disk.below location).Perm ((disk.children location).flatMap (disk.branch location)) := by
  refine (List.perm_ext_iff_of_nodup nodup_below ?_).mpr ?_
  · rw [List.nodup_flatMap]
    refine ⟨fun child _ => nodup_branch child, ?_⟩
    apply List.Pairwise.imp_of_mem ?_ nodup_children
    rintro ⟨name, one⟩ ⟨other, two⟩ here there different ⟨names, entry⟩ first second
    -- Both begin with the name of their child, and a name belongs to one entry only.
    have head : ∀ {child : Bytes × Entry}, (names, entry) ∈ disk.branch location child →
        names.head? = some child.1 := by
      intro child member
      rcases mem_branch.mp member with ⟨rfl, -⟩ | ⟨-, rest, rfl, -⟩ <;> rfl
    have names_eq : name = other :=
      Option.some.inj ((head first).symm.trans (head second))
    subst names_eq
    have entries_eq : some one = some two :=
      (mem_children.mp here).symm.trans (mem_children.mp there)
    cases entries_eq
    exact different rfl
  · rintro ⟨names, entry⟩
    rw [mem_below, List.mem_flatMap]
    constructor
    · intro holds
      cases holds with
      | child found => exact ⟨_, mem_children.mpr found, mem_branch.mpr (.inl ⟨rfl, rfl⟩)⟩
      | deeper found onward =>
          exact ⟨_, mem_children.mpr found, mem_branch.mpr (.inr ⟨rfl, _, rfl, onward⟩)⟩
    · rintro ⟨⟨name, kind⟩, member, held⟩
      have found := mem_children.mp member
      rcases mem_branch.mp held with ⟨rfl, rfl⟩ | ⟨rfl, rest, rfl, onward⟩
      · exact .child found
      · exact .deeper found onward

end Below

section Leading

variable {disk : Disk} {path : Path} {location : Location} {name : Bytes} {names : List Bytes}

/-- A walk to a child goes on from where the directory leads. -/
theorem Leads.walkFrom_child (leads : disk.Leads path location) (filled : path.bytes ≠ [])
    (named : Path.IsName name) :
    ∃ left, disk.walkFrom (path.child name) (path.child name).pieces =
      disk.walk left location [name] := by
  obtain ⟨left, passage⟩ := passes_of_walk leads
  have steps : Passes disk maxLinks (if path.isAbsolute then [] else disk.workingDirectory)
      path.steps left location := by
    rcases path.pieces_eq_steps with same | slash
    · rwa [same] at passage
    · rw [slash] at passage
      exact passage.of_slash
  unfold walkFrom
  rw [Path.pieces_child filled named, Path.isAbsolute_child filled]
  exact ⟨left, walk_of_passes steps [name]⟩

/-- A path that leads to a directory leads on to the directories in it. -/
theorem Leads.child (leads : disk.Leads path location) (filled : path.bytes ≠ [])
    (named : IsFileName name) (found : disk.entry? (location ++ [name]) = some .directory) :
    disk.Leads (path.child name) (location ++ [name]) := by
  obtain ⟨left, walked⟩ := leads.walkFrom_child filled named.1
  exact walked.trans ((walk_directory named.2 found).trans walk_nil)

/-- The start of an allowed spelling is allowed. -/
theorem checkSpelling_of_prefix {first second : Bytes} (starts : first <+: second)
    (filled : first ≠ []) (checked : checkSpelling second = .ok ()) :
    checkSpelling first = .ok () := by
  obtain ⟨clean, -, narrow⟩ := checkSpelling_eq_ok.mp checked
  exact checkSpelling_eq_ok.mpr ⟨fun zero => clean (starts.subset zero), filled,
    Nat.le_trans starts.length_le narrow⟩

theorem bytes_child_ne_nil (filled : path.bytes ≠ []) (name : Bytes) :
    (path.child name).bytes ≠ [] := by
  intro empty
  have starts := path.bytes_child_prefix name
  rw [empty, List.prefix_nil] at starts
  exact filled starts

/-- A path that cannot be used has no usable paths below it. -/
theorem checkSpelling_of_descend (filled : path.bytes ≠ [])
    (checked : checkSpelling (path.descend names).bytes = .ok ()) :
    checkSpelling path.bytes = .ok () := by
  induction names generalizing path with
  | nil => exact checked
  | cons name rest ih =>
      exact checkSpelling_of_prefix (path.bytes_child_prefix name) filled
        (ih (bytes_child_ne_nil filled name) checked)

/-- Names below a directory lead to where they end, up to the last of them. -/
theorem Holds.walkFrom_descend {entry : Entry} (holds : disk.Holds location names entry)
    (named : disk.Named) (filled : path.bytes ≠ []) (leads : disk.Leads path location) :
    ∃ left above name, disk.walkFrom (path.descend names) (path.descend names).pieces =
        disk.walk left above [name] ∧
      IsEntryName name ∧ disk.entry? (above ++ [name]) = some entry := by
  induction holds generalizing path with
  | @child location name entry found =>
      have legal := named.of_child found
      obtain ⟨left, walked⟩ := leads.walkFrom_child filled legal.1
      exact ⟨left, location, name, walked, legal.2, found⟩
  | @deeper location name names entry found onward ih =>
      have legal := named.of_child found
      exact ih (bytes_child_ne_nil filled name) (leads.child filled legal found)

/-- A usable path that names lead to is that of a file, if a file or a link to one is there. -/
theorem Holds.isSome_file?_iff {entry : Entry} (holds : disk.Holds location names entry)
    (named : disk.Named) (filled : path.bytes ≠ []) (leads : disk.Leads path location) :
    (disk.file? (path.descend names)).isSome = true ↔
      checkSpelling (path.descend names).bytes = .ok () ∧
      (IsFile entry ∨ (∃ target, entry = .link target) ∧
        ∃ content modified, disk.look (path.descend names) = .ok (.file content modified)) := by
  obtain ⟨left, above, name, walked, legal, found⟩ := holds.walkFrom_descend named filled leads
  have resolved : ∀ place, disk.resolve (path.descend names) = .ok place ↔
      checkSpelling (path.descend names).bytes = .ok () ∧ disk.walk left above [name] = .ok place :=
    fun place => by rw [resolve_eq_ok, walked]
  have isSome_iff : (disk.file? (path.descend names)).isSome = true ↔
      ∃ content modified, disk.look (path.descend names) = .ok (.file content modified) := by
    unfold file?
    split
    next content modified looked => exact ⟨fun _ => ⟨content, modified, looked⟩, fun _ => rfl⟩
    next other => exact ⟨fun none => (nomatch none), fun ⟨content, modified, looked⟩ =>
      absurd looked (other content modified)⟩
  rw [isSome_iff]
  constructor
  · rintro ⟨content, modified, looked⟩
    obtain ⟨place, whole⟩ := resolve_of_look looked
    obtain ⟨checked, ended⟩ := (resolved _).mp whole
    refine ⟨checked, ?_⟩
    rw [walk_name legal, found] at ended
    cases entry with
    | file content modified => exact .inl ⟨content, modified, rfl⟩
    | link target => exact .inr ⟨⟨target, rfl⟩, content, modified, looked⟩
    | directory => rw [walk_nil] at ended; cases ended
    | device => cases ended
  · rintro ⟨checked, ⟨content, modified, rfl⟩ | ⟨-, file⟩⟩
    · refine ⟨content, modified, ?_⟩
      unfold look
      rw [(resolved _).mpr ⟨checked, walk_file legal found⟩]
    · exact file

end Leading

end Disk
end Concordance
