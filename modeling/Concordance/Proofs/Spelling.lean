import Concordance.Indexing
import Concordance.Proofs.Disk

namespace Concordance

namespace Path

theorem compare_eq_iff {first second : Path} :
    compare first second = .eq ↔ first.parts = second.parts :=
  Std.LawfulEqOrd.compare_eq_iff_eq (α := List Part)

/-- A piece that leads somewhere. -/
def isStep (piece : Bytes) : Bool := decide (piece ≠ [] ∧ piece ≠ [dot])

/-- The pieces that lead somewhere. -/
def strides (path : Path) : List Bytes := path.pieces.filter isStep

theorem bytes_of_partOf? {piece : Bytes} {part : Part} (found : partOf? piece = some part) :
    part.bytes = piece ∧ isStep piece = true ∧ part ≠ .root ∧ part ≠ .here := by
  unfold partOf? at found
  by_cases blank : piece = [] ∨ piece = [dot]
  · rw [if_pos blank] at found
    cases found
  · rw [if_neg blank] at found
    have step : isStep piece = true := decide_eq_true (not_or.mp blank)
    by_cases dots : piece = [dot, dot]
    · rw [if_pos dots] at found
      cases found
      exact ⟨dots.symm, step, by decide, by decide⟩
    · rw [if_neg dots] at found
      cases found
      exact ⟨rfl, step, Part.noConfusion, Part.noConfusion⟩

theorem filterMap_partOf? (pieces : List Bytes) :
    (pieces.filterMap partOf?).map Part.bytes = pieces.filter isStep := by
  rw [List.map_filterMap, ← List.filterMap_eq_filter]
  apply List.filterMap_congr
  intro piece _
  cases found : partOf? piece with
  | some part =>
      obtain ⟨bytes, step, -⟩ := bytes_of_partOf? found
      simp [Option.guard, step, bytes]
  | none =>
      have blank : isStep piece = false := by
        unfold partOf? at found
        unfold isStep
        by_cases blank : piece = [] ∨ piece = [dot]
        · rcases blank with rfl | rfl <;> rfl
        · rw [if_neg blank] at found
          split at found <;> cases found
      simp [Option.guard, blank]

/-- The steps of a path tell whether it starts from the root, and which of its pieces lead
somewhere. -/
theorem of_parts_eq {first second : Path} (same : first.parts = second.parts) :
    first.isAbsolute = second.isAbsolute ∧ first.strides = second.strides := by
  have inner : ∀ path : Path, ∀ part ∈ path.pieces.filterMap partOf?,
      part ≠ .root ∧ part ≠ .here := by
    intro path part member
    obtain ⟨piece, -, found⟩ := List.mem_filterMap.mp member
    exact (bytes_of_partOf? found).2.2
  have absolute : ∀ path : Path, path.isAbsolute = true ↔ .root ∈ path.parts := by
    intro path
    unfold parts
    have noRoot : Part.root ∉ path.pieces.filterMap partOf? := fun member =>
      (inner path .root member).1 rfl
    by_cases rooted : path.isAbsolute = true
    · simp [rooted]
    · by_cases dotted : path.pieces.head? = some [dot] <;> simp_all
  have steps : ∀ path : Path,
      (path.parts.filter fun part => part ≠ .root ∧ part ≠ .here).map Part.bytes = path.strides := by
    intro path
    unfold strides
    rw [← filterMap_partOf?]
    congr 1
    unfold parts
    have kept : (path.pieces.filterMap partOf?).filter (fun part => part ≠ .root ∧ part ≠ .here) =
        path.pieces.filterMap partOf? :=
      List.filter_eq_self.mpr fun part member => decide_eq_true (inner path part member)
    rw [List.filter_append, kept]
    by_cases rooted : path.isAbsolute = true
    · simp [rooted]
    · by_cases dotted : path.pieces.head? = some [dot] <;> simp_all
  constructor
  · rw [Bool.eq_iff_iff, absolute, absolute, same]
  · rw [← steps, ← steps, same]

theorem fileExtension_congr {first second : Path} (same : first.parts = second.parts) :
    first.fileExtension = second.fileExtension := by
  unfold fileExtension fileName?
  rw [same]

end Path

namespace Disk

open Path (dot)

/-- Pieces without some of those that lead nowhere, as long as something comes after them. -/
inductive Trims : List Bytes → List Bytes → Prop where
  | refl (pieces : List Bytes) : Trims pieces pieces
  | skip {piece : Bytes} {rest trimmed : List Bytes} (blank : piece = [] ∨ piece = [dot])
      (filled : rest.all List.isEmpty = false) (more : Trims rest trimmed) :
      Trims (piece :: rest) trimmed
  | keep (piece : Bytes) {rest trimmed : List Bytes} (more : Trims rest trimmed) :
      Trims (piece :: rest) (piece :: trimmed)

theorem Trims.all_eq {pieces trimmed : List Bytes} (trims : Trims pieces trimmed) :
    pieces.all List.isEmpty = trimmed.all List.isEmpty := by
  induction trims with
  | refl => rfl
  | skip _ filled _ ih => rw [← ih, List.all_cons, filled, Bool.and_false]
  | keep piece _ ih => rw [List.all_cons, List.all_cons, ih]

theorem Trims.isEmpty_eq {pieces trimmed : List Bytes} (trims : Trims pieces trimmed) :
    pieces.isEmpty = trimmed.isEmpty := by
  cases trims with
  | refl => rfl
  | skip _ filled more =>
      rw [more.all_eq] at filled
      cases trimmed with
      | nil => cases filled
      | cons => rfl
  | keep => rfl

theorem Trims.append_left (before : List Bytes) {pieces trimmed : List Bytes}
    (trims : Trims pieces trimmed) : Trims (before ++ pieces) (before ++ trimmed) := by
  induction before with
  | nil => exact trims
  | cons piece rest ih => exact .keep piece ih

/-- Pieces that lead nowhere can be left out of a walk. -/
theorem walk_of_trims {disk : Disk} {pieces trimmed : List Bytes} (links : Nat) (start : Location)
    (trims : Trims pieces trimmed) :
    disk.walk links start pieces = disk.walk links start trimmed := by
  match trims with
  | .refl _ => rfl
  | .skip blank _ more =>
      rw [walk_blank blank]
      exact walk_of_trims links start more
  | @Trims.keep piece rest cut more =>
      by_cases blank : piece = [] ∨ piece = [dot]
      · rw [walk_blank blank, walk_blank blank]
        exact walk_of_trims links start more
      by_cases dots : piece = [dot, dot]
      · rw [dots, walk_up, walk_up]
        exact walk_of_trims links start.dropLast more
      by_cases long : isNameTooLong piece = true
      · rw [walk, walk, if_neg blank, if_neg dots, if_pos long, if_neg blank, if_neg dots,
          if_pos long]
      have named := isEntryName_of_not blank dots long
      have empty : rest = [] ↔ cut = [] := by
        rw [← List.isEmpty_iff, ← List.isEmpty_iff, more.isEmpty_eq]
      rw [walk_name named, walk_name named, more.all_eq, more.isEmpty_eq]
      cases disk.entry? (start ++ [piece]) with
      | none => rfl
      | some entry =>
          cases entry with
          | file content modified => simp only [empty]
          | directory => exact walk_of_trims links (start ++ [piece]) more
          | link target =>
              cases links with
              | zero => rfl
              | succ fewer =>
                  exact walk_of_trims fewer (linkStart target start)
                    (more.append_left (Path.pieces ⟨target⟩))
          | device modified => simp only [empty]
termination_by (links, pieces.length)

/-- Pieces that end in one that leads somewhere. -/
def EndsInStep (pieces : List Bytes) : Prop :=
  ∃ last, pieces.getLast? = some last ∧ Path.isStep last

theorem trims_filter {pieces : List Bytes} (ends : EndsInStep pieces) :
    Trims pieces (pieces.filter Path.isStep) := by
  induction pieces with
  | nil => exact .refl []
  | cons piece rest ih =>
      obtain ⟨last, found, step⟩ := ends
      by_cases alone : rest = []
      · rw [alone, List.getLast?_singleton, Option.some.injEq] at found
        rw [alone, List.filter_cons_of_pos (found ▸ step)]
        exact .refl [piece]
      · have later : EndsInStep rest := by
          refine ⟨last, ?_, step⟩
          rwa [List.getLast?_cons_of_ne_nil alone] at found
        by_cases leads : Path.isStep piece = true
        · rw [List.filter_cons_of_pos leads]
          exact .keep piece (ih later)
        · have blank : piece = [] ∨ piece = [dot] := by
            unfold Path.isStep at leads
            rw [decide_eq_true_iff, not_and_or, not_not, not_not] at leads
            exact leads
          rw [List.filter_cons_of_neg leads]
          refine .skip blank ?_ (ih later)
          obtain ⟨last, found, step⟩ := later
          refine List.all_eq_false.mpr ⟨last, List.mem_of_getLast? found, ?_⟩
          rintro same
          rw [List.isEmpty_iff.mp same] at step
          cases step

/-- A walk that does not end in a directory ends at a name, and never at a link. -/
theorem endsInStep_of_walk {disk : Disk} {links : Nat} {start location : Location} {entry : Entry}
    {pieces : List Bytes} (other : entry ≠ .directory)
    (whole : disk.walk links start pieces = .ok (.taken location entry)) :
    EndsInStep pieces ∧ ∀ target, entry ≠ .link target := by
  have longer : ∀ {piece : Bytes} {rest : List Bytes}, EndsInStep rest →
      EndsInStep (piece :: rest) := by
    rintro piece rest ⟨last, found, step⟩
    refine ⟨last, ?_, step⟩
    rw [List.getLast?_cons, found]
    rfl
  induction links, start, pieces using walk.induct disk with
  | case1 links start =>
      rw [walk_nil] at whole
      cases whole
      exact absurd rfl other
  | case2 links start piece rest blank ih =>
      rw [walk_blank blank] at whole
      exact ⟨longer (ih whole).1, (ih whole).2⟩
  | case3 links start rest _ ih =>
      rw [walk_up] at whole
      exact ⟨longer (ih whole).1, (ih whole).2⟩
  | case4 links start piece rest filled noDots long =>
      rw [walk, if_neg filled, if_neg noDots, if_pos long] at whole
      cases whole
  | case5 links start piece rest filled noDots short place free blanks =>
      rw [walk_name (isEntryName_of_not filled noDots short), free, if_pos blanks] at whole
      cases whole
  | case6 links start piece rest filled noDots short place free blanks =>
      rw [walk_name (isEntryName_of_not filled noDots short), free, if_neg blanks] at whole
      cases whole
  | case7 links start piece rest filled noDots short place found ih =>
      rw [walk_directory (isEntryName_of_not filled noDots short) found] at whole
      exact ⟨longer (ih whole).1, (ih whole).2⟩
  | case8 start piece rest filled noDots short place target found =>
      rw [walk_name (isEntryName_of_not filled noDots short), found] at whole
      cases whole
  | case9 start piece rest filled noDots short place target found fewer path ih =>
      rw [walk_link (isEntryName_of_not filled noDots short) found] at whole
      -- Where the link comes last its target ends the walk, but its name still ends the pieces.
      obtain ⟨⟨last, ending, step⟩, noLink⟩ := ih whole
      refine ⟨?_, noLink⟩
      by_cases alone : rest = []
      · rw [alone]
        exact ⟨piece, rfl, decide_eq_true (not_or.mp filled)⟩
      · rw [List.getLast?_append_of_ne_nil _ alone] at ending
        exact longer ⟨last, ending, step⟩
  | case10 links start piece filled noDots short place entry noDirectory noLink found =>
      rw [walk_name (isEntryName_of_not filled noDots short), found] at whole
      refine ⟨⟨piece, rfl, decide_eq_true (not_or.mp filled)⟩, ?_⟩
      rintro target rfl
      cases entry <;> simp_all
  | case11 links start piece rest filled noDots short place entry noDirectory noLink found more =>
      rw [walk_name (isEntryName_of_not filled noDots short), found] at whole
      cases entry <;> simp_all

/-- A spelling by which something other than a directory has been reached on some disk. -/
def IsFileSpelling (path : Path) : Prop :=
  ∃ (disk : Disk) (entry : Entry), entry ≠ .directory ∧ disk.look path = .ok entry

theorem resolve_of_look {disk : Disk} {path : Path} {entry : Entry}
    (found : disk.look path = .ok entry) :
    ∃ location, disk.resolve path = .ok (.taken location entry) := by
  unfold look at found
  split at found
  next location reached resolved =>
    cases found
    exact ⟨location, resolved⟩
  next => cases found
  next => cases found

theorem resolve_of_isFileSpelling {path : Path} (spelling : IsFileSpelling path) (disk : Disk) :
    disk.resolve path = disk.walkFrom path path.strides := by
  obtain ⟨other, entry, file, found⟩ := spelling
  obtain ⟨location, resolved⟩ := resolve_of_look found
  obtain ⟨checked, whole⟩ := resolve_eq_ok.mp resolved
  have trims := trims_filter (endsInStep_of_walk file whole).1
  unfold resolve
  rw [checked]
  exact walk_of_trims _ _ trims

/-- Two spellings of one path lead to the same place. -/
theorem look_congr {first second : Path} (spelling : IsFileSpelling first)
    (again : IsFileSpelling second) (same : first.parts = second.parts) (disk : Disk) :
    disk.look first = disk.look second := by
  obtain ⟨absolute, strides⟩ := Path.of_parts_eq same
  unfold look
  rw [resolve_of_isFileSpelling spelling, resolve_of_isFileSpelling again, strides]
  unfold walkFrom
  rw [absolute]

/-- What is looked at and is no directory is a file or a device. -/
theorem modified?_of_look {disk : Disk} {path : Path} {entry : Entry} (other : entry ≠ .directory)
    (found : disk.look path = .ok entry) : ∃ modified, disk.modified? path = some modified := by
  obtain ⟨location, resolved⟩ := resolve_of_look found
  have noLink := (endsInStep_of_walk other (resolve_eq_ok.mp resolved).2).2
  unfold modified?
  rw [found]
  cases entry with
  | file content modified => exact ⟨modified, rfl⟩
  | directory => exact absurd rfl other
  | link target => exact absurd rfl (noLink target)
  | device modified => exact ⟨modified, rfl⟩

theorem isFileSpelling_of_modified? {disk : Disk} {path : Path} {modified : Int}
    (found : disk.modified? path = some modified) : IsFileSpelling path := by
  unfold modified? at found
  split at found
  next content second looked => exact ⟨disk, _, Entry.noConfusion, looked⟩
  next second looked => exact ⟨disk, _, Entry.noConfusion, looked⟩
  next => cases found

theorem modified?_congr {first second : Path} (spelling : IsFileSpelling first)
    (again : IsFileSpelling second) (same : first.parts = second.parts) (disk : Disk) :
    disk.modified? first = disk.modified? second := by
  unfold modified?
  rw [look_congr spelling again same]

theorem file?_congr {first second : Path} (spelling : IsFileSpelling first)
    (again : IsFileSpelling second) (same : first.parts = second.parts) (disk : Disk) :
    disk.file? first = disk.file? second := by
  unfold file?
  rw [look_congr spelling again same]

end Disk
end Concordance
