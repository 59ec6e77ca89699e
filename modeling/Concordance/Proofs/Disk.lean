import Concordance.Disk
import Concordance.Proofs.Action
import Concordance.Proofs.Ordered.Map
import Concordance.Proofs.Path

namespace Concordance.Disk

open Path (dot)

/-- A change that succeeds leaves what it has made. -/
theorem change_eq_ok {operation : Disk → Except DiskFault Disk} {disk changed : Disk} :
    change operation disk = .ok () changed ↔ operation disk = .ok changed := by
  unfold change
  cases operation disk with
  | error fault => exact ⟨fun whole => (nomatch whole), fun whole => (nomatch whole)⟩
  | ok result => simp

/-- A change that fails leaves the disk as it was. -/
theorem change_of_error {operation : Disk → Except DiskFault Disk} {disk : Disk} {fault : DiskFault}
    (failed : operation disk = .error fault) :
    change operation disk = .error (.disk fault) disk := by
  unfold change
  rw [failed]

/-- A check changes nothing on the disk. -/
theorem check_eq_ok {α : Type} {result : Except Fault α} {disk changed : Disk} {value : α} :
    check result disk = .ok value changed ↔ result = .ok value ∧ changed = disk := by
  unfold check
  cases result with
  | error fault => exact ⟨fun whole => (nomatch whole), fun whole => (nomatch whole.1)⟩
  | ok found =>
      constructor
      · intro whole
        cases whole
        exact ⟨rfl, rfl⟩
      · rintro ⟨same, rfl⟩
        cases same
        rfl

/-- A piece of a path that names an entry. -/
def IsEntryName (piece : Bytes) : Prop :=
  piece ≠ [] ∧ piece ≠ [dot] ∧ piece ≠ [dot, dot] ∧ isNameTooLong piece = false

instance (piece : Bytes) : Decidable (IsEntryName piece) :=
  inferInstanceAs (Decidable (_ ∧ _))

theorem isEntryName_of_not {piece : Bytes} (filled : ¬(piece = [] ∨ piece = [dot]))
    (noDots : ¬piece = [dot, dot]) (short : ¬isNameTooLong piece = true) : IsEntryName piece := by
  rw [not_or] at filled
  exact ⟨filled.1, filled.2, noDots, Bool.eq_false_iff.mpr short⟩

/-- The location from which the target of a link is looked for. -/
def linkStart (target : Bytes) (start : Location) : Location :=
  if Path.isAbsolute ⟨target⟩ then [] else start

section Walk

variable {disk : Disk} {links : Nat} {start : Location} {piece : Bytes} {rest : List Bytes}

/-- Where no pieces are left, the walk is at a directory. -/
theorem walk_nil : disk.walk links start [] = .ok (.taken start .directory) := by
  rw [walk]

/-- An empty piece and a single dot lead nowhere. -/
theorem walk_blank (blank : piece = [] ∨ piece = [dot]) :
    disk.walk links start (piece :: rest) = disk.walk links start rest := by
  rw [walk, if_pos blank]

/-- Two dots lead to the directory above. -/
theorem walk_up : disk.walk links start ([dot, dot] :: rest) = disk.walk links start.dropLast rest := by
  rw [walk, if_neg (by decide), if_pos rfl]

/-- At a name the walk goes on as its entry says. -/
theorem walk_name (named : IsEntryName piece) :
    disk.walk links start (piece :: rest) =
      match disk.entry? (start ++ [piece]) with
      | none =>
          if rest.all List.isEmpty then .ok (.free (start ++ [piece]) !rest.isEmpty)
          else .error .notFound
      | some .directory => disk.walk links (start ++ [piece]) rest
      | some (.link target) =>
          match links with
          | 0 => .error .tooManyLinks
          | left + 1 => disk.walk left (linkStart target start) (Path.pieces ⟨target⟩ ++ rest)
      | some entry =>
          if rest = [] then .ok (.taken (start ++ [piece]) entry) else .error .notADirectory := by
  obtain ⟨filled, noDot, noDots, short⟩ := named
  rw [walk, if_neg (by simp [filled, noDot]), if_neg noDots, short, if_neg Bool.false_ne_true]
  rfl

/-- The name of a directory leads into it. -/
theorem walk_directory (named : IsEntryName piece)
    (found : disk.entry? (start ++ [piece]) = some .directory) :
    disk.walk links start (piece :: rest) = disk.walk links (start ++ [piece]) rest := by
  rw [walk_name named, found]

/-- The name of a link leads on to its target. -/
theorem walk_link {target : Bytes} (named : IsEntryName piece)
    (found : disk.entry? (start ++ [piece]) = some (.link target)) :
    disk.walk (links + 1) start (piece :: rest) =
      disk.walk links (linkStart target start) (Path.pieces ⟨target⟩ ++ rest) := by
  rw [walk_name named, found]

/-- A last name under which there is nothing leads to a free place. -/
theorem walk_free (named : IsEntryName piece) (free : disk.entry? (start ++ [piece]) = none) :
    disk.walk links start [piece] = .ok (.free (start ++ [piece]) false) := by
  rw [walk_name named, free]
  rfl

/-- A last name under which there is a file leads to it. -/
theorem walk_file {content : Bytes} {modified : Int} (named : IsEntryName piece)
    (found : disk.entry? (start ++ [piece]) = some (.file content modified)) :
    disk.walk links start [piece] = .ok (.taken (start ++ [piece]) (.file content modified)) := by
  rw [walk_name named, found]
  rfl

end Walk

/-- Pieces of a path lead through directories and links from one location to another, where some of
the links are left. -/
inductive Passes (disk : Disk) : Nat → Location → List Bytes → Nat → Location → Prop where
  | stay (links : Nat) (location : Location) : Passes disk links location [] links location
  | blank {links left : Nat} {start location : Location} {piece : Bytes} {rest : List Bytes}
      (blank : piece = [] ∨ piece = [dot]) (onward : Passes disk links start rest left location) :
      Passes disk links start (piece :: rest) left location
  | up {links left : Nat} {start location : Location} {piece : Bytes} {rest : List Bytes}
      (dots : piece = [dot, dot]) (onward : Passes disk links start.dropLast rest left location) :
      Passes disk links start (piece :: rest) left location
  | enter {links left : Nat} {start location : Location} {piece : Bytes} {rest : List Bytes}
      (named : IsEntryName piece) (found : disk.entry? (start ++ [piece]) = some .directory)
      (onward : Passes disk links (start ++ [piece]) rest left location) :
      Passes disk links start (piece :: rest) left location
  | follow {links left : Nat} {start location : Location} {piece target : Bytes}
      {rest : List Bytes} (named : IsEntryName piece)
      (found : disk.entry? (start ++ [piece]) = some (.link target))
      (onward : Passes disk links (linkStart target start) (Path.pieces ⟨target⟩ ++ rest) left
        location) :
      Passes disk (links + 1) start (piece :: rest) left location

section Passage

variable {disk other : Disk} {links left : Nat} {start location : Location}

/-- A walk goes on from where its first pieces have led. -/
theorem walk_of_passes {pieces : List Bytes}
    (passage : Passes disk links start pieces left location) (rest : List Bytes) :
    disk.walk links start (pieces ++ rest) = disk.walk left location rest := by
  induction passage with
  | stay => rfl
  | blank blank _ ih => rw [List.cons_append, walk_blank blank, ih]
  | up dots _ ih => rw [List.cons_append, dots, walk_up, ih]
  | enter named found _ ih => rw [List.cons_append, walk_directory named found, ih]
  | follow named found _ ih => rw [List.cons_append, walk_link named found, ← ih, List.append_assoc]

/-- A passage through directories is what a walk goes through. -/
theorem walk_eq_of_passes {pieces : List Bytes}
    (passage : Passes disk links start pieces left location) :
    disk.walk links start pieces = .ok (.taken location .directory) := by
  have whole := walk_of_passes passage []
  rwa [List.append_nil, walk_nil] at whole

/-- A walk that ends in a directory has passed through directories and links only. -/
theorem passes_of_walk {pieces : List Bytes}
    (whole : disk.walk links start pieces = .ok (.taken location .directory)) :
    ∃ left, Passes disk links start pieces left location := by
  induction links, start, pieces using walk.induct disk with
  | case1 links start =>
      rw [walk_nil, Except.ok.injEq, Place.taken.injEq] at whole
      rw [whole.1]
      exact ⟨links, .stay links location⟩
  | case2 links start piece rest blank ih =>
      rw [walk_blank blank] at whole
      obtain ⟨left, onward⟩ := ih whole
      exact ⟨left, .blank blank onward⟩
  | case3 links start rest _ ih =>
      rw [walk_up] at whole
      obtain ⟨left, onward⟩ := ih whole
      exact ⟨left, .up rfl onward⟩
  | case4 links start piece rest filled noDots long =>
      rw [walk, if_neg filled, if_neg noDots, if_pos long] at whole
      cases whole
  | case5 links start piece rest filled noDots short place free blanks =>
      have named := isEntryName_of_not filled noDots short
      rw [walk_name named, free, if_pos blanks] at whole
      cases whole
  | case6 links start piece rest filled noDots short place free blanks =>
      have named := isEntryName_of_not filled noDots short
      rw [walk_name named, free, if_neg blanks] at whole
      cases whole
  | case7 links start piece rest filled noDots short place found ih =>
      have named := isEntryName_of_not filled noDots short
      rw [walk_directory named found] at whole
      obtain ⟨left, onward⟩ := ih whole
      exact ⟨left, .enter named found onward⟩
  | case8 start piece rest filled noDots short place target found =>
      have named := isEntryName_of_not filled noDots short
      rw [walk_name named, found] at whole
      cases whole
  | case9 start piece rest filled noDots short place target found fewer path ih =>
      have named := isEntryName_of_not filled noDots short
      rw [walk_link named found] at whole
      obtain ⟨left, onward⟩ := ih whole
      exact ⟨left, .follow named found onward⟩
  | case10 links start piece filled noDots short place entry noDirectory noLink found =>
      have named := isEntryName_of_not filled noDots short
      rw [walk_name named, found] at whole
      cases entry <;> simp_all
  | case11 links start piece rest filled noDots short place entry noDirectory noLink found more =>
      have named := isEntryName_of_not filled noDots short
      rw [walk_name named, found] at whole
      cases entry <;> simp_all

/-- A passage ends where its first part leads and the rest leads from there. -/
theorem Passes.split {before after : List Bytes}
    (passage : Passes disk links start (before ++ after) left location) :
    ∃ mid place, Passes disk links start before mid place ∧
      Passes disk mid place after left location := by
  generalize whole : before ++ after = pieces at passage
  induction passage generalizing before with
  | stay links location =>
      obtain ⟨rfl, rfl⟩ := List.append_eq_nil_iff.mp whole
      exact ⟨links, location, .stay links location, .stay links location⟩
  | @blank links left start location piece rest blank onward ih =>
      cases before with
      | nil =>
          rw [List.nil_append] at whole
          exact ⟨links, start, .stay links start, whole ▸ .blank blank onward⟩
      | cons head steps =>
          obtain ⟨rfl, rest_eq⟩ := List.cons.inj whole
          obtain ⟨mid, place, first, last⟩ := ih rest_eq
          exact ⟨mid, place, .blank blank first, last⟩
  | @up links left start location piece rest dots onward ih =>
      cases before with
      | nil =>
          rw [List.nil_append] at whole
          exact ⟨links, start, .stay links start, whole ▸ .up dots onward⟩
      | cons head steps =>
          obtain ⟨rfl, rest_eq⟩ := List.cons.inj whole
          obtain ⟨mid, place, first, last⟩ := ih rest_eq
          exact ⟨mid, place, .up dots first, last⟩
  | @enter links left start location piece rest named found onward ih =>
      cases before with
      | nil =>
          rw [List.nil_append] at whole
          exact ⟨links, start, .stay links start, whole ▸ .enter named found onward⟩
      | cons head steps =>
          obtain ⟨rfl, rest_eq⟩ := List.cons.inj whole
          obtain ⟨mid, place, first, last⟩ := ih rest_eq
          exact ⟨mid, place, .enter named found first, last⟩
  | @follow links left start location piece target rest named found onward ih =>
      cases before with
      | nil =>
          rw [List.nil_append] at whole
          exact ⟨links + 1, start, .stay (links + 1) start, whole ▸ .follow named found onward⟩
      | cons head steps =>
          obtain ⟨rfl, rest_eq⟩ := List.cons.inj whole
          have inside : (Path.pieces ⟨target⟩ ++ steps) ++ after =
              Path.pieces ⟨target⟩ ++ rest := by
            rw [List.append_assoc, ← rest_eq]
            rfl
          obtain ⟨mid, place, first, last⟩ := ih inside
          exact ⟨mid, place, .follow named found first, last⟩

/-- A slash at the end of a path leads nowhere else. -/
theorem Passes.of_slash {pieces : List Bytes}
    (passage : Passes disk links start (pieces ++ [[]]) left location) :
    Passes disk links start pieces left location := by
  obtain ⟨mid, place, first, last⟩ := passage.split
  cases last with
  | blank _ onward =>
      cases onward
      exact first
  | up dots => exact absurd dots (by decide)
  | enter named => exact absurd rfl named.1
  | follow named => exact absurd rfl named.1

/-- What keeps directories and links keeps every passage. -/
theorem Passes.mono {pieces : List Bytes}
    (keeps : ∀ place entry, disk.entry? place = some entry →
      (entry = .directory ∨ ∃ target, entry = .link target) → other.entry? place = some entry)
    (passage : Passes disk links start pieces left location) :
    Passes other links start pieces left location := by
  induction passage with
  | stay => exact .stay _ _
  | blank blank _ ih => exact .blank blank ih
  | up dots _ ih => exact .up dots ih
  | enter named found _ ih => exact .enter named (keeps _ _ found (.inl rfl)) ih
  | follow named found _ ih => exact .follow named (keeps _ _ found (.inr ⟨_, rfl⟩)) ih

end Passage

/-- Bytes can spell a path unless there are none of them, too many, or a zero among them. -/
theorem checkSpelling_eq_ok {bytes : Bytes} : checkSpelling bytes = .ok () ↔
    0 ∉ bytes ∧ bytes ≠ [] ∧ bytes.length ≤ maxPathWidth := by
  unfold checkSpelling
  by_cases zero : 0 ∈ bytes
  · simp [zero]
  by_cases empty : bytes = []
  · simp [empty]
  by_cases wide : maxPathWidth < bytes.length
  · simp [zero, empty, wide]
  · simp [zero, empty, wide, Nat.le_of_not_lt wide]

/-- A path is resolved where its spelling is allowed and its walk succeeds. -/
theorem resolve_eq_ok {disk : Disk} {path : Path} {place : Place} :
    disk.resolve path = .ok place ↔
      checkSpelling path.bytes = .ok () ∧ disk.walkFrom path path.pieces = .ok place := by
  unfold resolve
  cases checkSpelling path.bytes with
  | error fault => exact ⟨fun whole => (nomatch whole), fun whole => (nomatch whole.1)⟩
  | ok => exact ⟨fun whole => ⟨rfl, whole⟩, And.right⟩

section Entries

/-- Putting an entry at a place changes that place only. -/
theorem entry?_put {location : Location} (inside : location ≠ []) (disk : Disk) (entry : Entry)
    (other : Location) :
    entry? (disk.put location entry) other =
      if other = location then some entry else disk.entry? other := by
  unfold entry? put
  by_cases root : other = []
  · rw [if_pos root, if_pos root, if_neg (by rw [root]; exact inside.symm)]
  · rw [if_neg root, if_neg root, OrderedMap.get?_insert]
    simp only [Std.LawfulEqOrd.compare_eq_iff_eq]

/-- Dropping a place takes away what is at it and below it. -/
theorem entry?_drop (disk : Disk) (location other : Location) :
    entry? (disk.drop location) other =
      if other ≠ [] ∧ location.isPrefixOf other then none else disk.entry? other := by
  unfold entry? drop
  by_cases root : other = []
  · rw [if_pos root, if_pos root, if_neg (by simp [root])]
  · rw [if_neg root, if_neg root, OrderedMap.get?_filter]
    by_cases below : location.isPrefixOf other = true
    · rw [if_pos ⟨root, below⟩, Option.filter_eq_none_iff]
      simp [below]
    · rw [if_neg fun both => below both.2]
      cases disk.entries.get? other <;> simp [below]

end Entries

/-- Something stands at a name that a passage leads through. -/
theorem Passes.isSome_entry? {disk : Disk} {links left : Nat} {start location : Location}
    {piece : Bytes} {rest : List Bytes}
    (passage : Passes disk links start (piece :: rest) left location) (filled : piece ≠ [])
    (noDot : piece ≠ [dot]) (noDots : piece ≠ [dot, dot]) :
    (disk.entry? (start ++ [piece])).isSome = true := by
  cases passage with
  | blank blank => exact absurd blank (by simp [filled, noDot])
  | up dots => exact absurd dots noDots
  | enter named found => rw [found, Option.isSome_some]
  | follow named found => rw [found, Option.isSome_some]

/-- The site of a path whose last name stands in a directory. -/
theorem site?_eq {disk : Disk} {path : Path} {place : Location} {name : Bytes}
    {above : List Bytes} (checked : checkSpelling path.bytes = .ok ())
    (ends : path.pieces.reverse.dropWhile List.isEmpty = name :: above)
    (reached : disk.walkFrom path above.reverse = .ok (.taken place .directory)) :
    disk.site? path =
      if name = [dot] ∨ name = [dot, dot] then .ok none
      else if isNameTooLong name then .error .nameTooLong
      else .ok (some ⟨place ++ [name], path.pieces.getLast? == some []⟩) := by
  unfold site?
  rw [checked, ends]
  show (disk.walkFrom path above.reverse >>= _) = _
  rw [reached]
  rfl

/-- The last name of a path comes before slashes only. -/
theorem pieces_of_ends {path : Path} {name : Bytes} {above : List Bytes}
    (ends : path.pieces.reverse.dropWhile List.isEmpty = name :: above) :
    name ≠ [] ∧ ∃ slashes : List Bytes, (∀ piece ∈ slashes, piece = []) ∧
      path.pieces = above.reverse ++ name :: slashes := by
  have filled : name ≠ [] := by
    have kept := List.head_dropWhile_not List.isEmpty (l := path.pieces.reverse) (by simp [ends])
    simpa [ends] using kept
  have cut := List.takeWhile_append_dropWhile (p := List.isEmpty) (l := path.pieces.reverse)
  rw [ends] at cut
  refine ⟨filled, (path.pieces.reverse.takeWhile List.isEmpty).reverse, ?_, ?_⟩
  · intro piece member
    exact List.isEmpty_iff.mp (List.all_eq_true.mp List.all_takeWhile piece (List.mem_reverse.mp member))
  · simpa using (congrArg List.reverse cut).symm

/-- A directory that is there cannot be made again. -/
theorem makeDirectory_of_resolve {disk : Disk} {path : Path} {location : Location}
    (there : disk.resolve path = .ok (.taken location .directory)) :
    ∃ fault, disk.makeDirectory path = .error fault ∧ fault ≠ .notFound := by
  obtain ⟨checked, walked⟩ := resolve_eq_ok.mp there
  cases ends : path.pieces.reverse.dropWhile List.isEmpty with
  | nil =>
      unfold makeDirectory site?
      rw [checked, ends]
      exact ⟨.occupied, rfl, by decide⟩
  | cons name above =>
      obtain ⟨left, passage⟩ := passes_of_walk walked
      obtain ⟨filled, slashes, -, spelt⟩ := pieces_of_ends ends
      rw [spelt] at passage
      obtain ⟨mid, place, first, last⟩ := passage.split
      unfold makeDirectory
      rw [site?_eq checked ends (walk_eq_of_passes first)]
      by_cases dots : name = [dot] ∨ name = [dot, dot]
      · rw [if_pos dots]
        exact ⟨.occupied, rfl, by decide⟩
      · rw [if_neg dots]
        rw [not_or] at dots
        by_cases long : isNameTooLong name = true
        · rw [if_pos long]
          exact ⟨.nameTooLong, rfl, by decide⟩
        · rw [if_neg long]
          show ∃ fault, (if (disk.entry? (place ++ [name])).isSome = true then _ else _) = _ ∧ _
          rw [if_pos (last.isSome_entry? filled dots.1 dots.2)]
          exact ⟨.occupied, rfl, by decide⟩

/-- A path that is written to is spelt like one. -/
theorem checkSpelling_of_write {disk changed : Disk} {path : Path} {content : Bytes}
    {modified : Int} (whole : disk.write path content modified = .ok changed) :
    checkSpelling path.bytes = .ok () := by
  unfold write at whole
  cases resolved : disk.resolve path with
  | error fault =>
      rw [resolved] at whole
      cases whole
  | ok place => exact (resolve_eq_ok.mp resolved).1

/-- A path that has a site is spelt as is allowed. -/
theorem checkSpelling_of_site? {disk : Disk} {path : Path} {site : Option Site}
    (whole : disk.site? path = .ok site) : checkSpelling path.bytes = .ok () := by
  unfold site? at whole
  cases checked : checkSpelling path.bytes with
  | error fault =>
      rw [checked] at whole
      cases whole
  | ok => rfl

/-- A file is given only names that are spelt as is allowed. -/
theorem checkSpelling_of_rename {disk changed : Disk} {source target : Path}
    (whole : disk.rename source target = .ok changed) : checkSpelling target.bytes = .ok () := by
  unfold rename at whole
  cases old : disk.site? source with
  | error fault =>
      rw [old] at whole
      cases whole
  | ok site =>
      rw [old] at whole
      cases site with
      | none => cases whole
      | some site =>
          cases new : disk.site? target with
          | error fault =>
              rw [new] at whole
              cases whole
          | ok site => exact checkSpelling_of_site? new

/-- Making a directory that is there changes nothing. -/
theorem makeDirectories_of_resolve {disk : Disk} {path : Path} {location : Location}
    (there : disk.resolve path = .ok (.taken location .directory)) :
    makeDirectories path disk = .ok () disk := by
  have directory : disk.isDirectory path = true := by
    unfold isDirectory look
    rw [there]
  obtain ⟨fault, refused, known⟩ := makeDirectory_of_resolve there
  unfold makeDirectories
  cases path.parts.reverse with
  | nil => rfl
  | cons last above =>
      unfold makeAbove
      rw [refused]
      cases fault <;> simp_all

/-- The root leads to itself. -/
theorem resolve_slash (disk : Disk) : disk.resolve ⟨"/"⟩ = .ok (.taken [] .directory) := by
  have checked : checkSpelling "/" = .ok () := checkSpelling_eq_ok.mpr (by decide)
  have pieces : Path.pieces ⟨"/"⟩ = [[], []] := by decide
  refine resolve_eq_ok.mpr ⟨checked, ?_⟩
  unfold walkFrom
  rw [pieces, walk_blank (.inl rfl), walk_blank (.inl rfl), walk_nil]
  rfl

/-- Some names in a directory are free or those of files, and nothing lies below them. -/
structure Plain (disk : Disk) (directory : Path) (names : List Bytes) (location : Location) :
    Prop where
  resolves : disk.resolve directory = .ok (.taken location .directory)
  regular : ∀ name ∈ names, disk.entry? (location ++ [name]) = none ∨
    ∃ content modified, disk.entry? (location ++ [name]) = some (.file content modified)
  bare : ∀ name ∈ names, ∀ below, below ≠ [] → disk.entry? (location ++ [name] ++ below) = none

/-- A name that can be given to a file as the last piece of a path. -/
def IsFileName (name : Bytes) : Prop := Path.IsName name ∧ IsEntryName name

instance (name : Bytes) : Decidable (IsFileName name) := inferInstanceAs (Decidable (_ ∧ _))

namespace Plain

variable {disk : Disk} {directory : Path} {names : List Bytes} {location : Location}
  {name : Bytes} {content : Bytes} {modified : Int}

theorem bytes_ne_nil (plain : Plain disk directory names location) : directory.bytes ≠ "" :=
  (checkSpelling_eq_ok.mp (resolve_eq_ok.mp plain.resolves).1).2.1

/-- The steps of the directory lead to it. -/
theorem passes (plain : Plain disk directory names location) :
    ∃ left, Passes disk maxLinks (if directory.isAbsolute then [] else disk.workingDirectory)
      directory.steps left location := by
  obtain ⟨left, passage⟩ := passes_of_walk (resolve_eq_ok.mp plain.resolves).2
  rcases directory.pieces_eq_steps with same | slash
  · rw [same] at passage
    exact ⟨left, passage⟩
  · rw [slash] at passage
    exact ⟨left, passage.of_slash⟩

/-- Walking to a child is walking from where the directory leads. -/
theorem walkFrom_child (plain : Plain disk directory names location) (named : Path.IsName name) :
    ∃ left, disk.walkFrom (directory.child name) (directory.child name).pieces =
      disk.walk left location [name] := by
  obtain ⟨left, passage⟩ := plain.passes
  unfold walkFrom
  rw [Path.pieces_child plain.bytes_ne_nil named, Path.isAbsolute_child plain.bytes_ne_nil]
  exact ⟨left, walk_of_passes passage [name]⟩

/-- The name of no file in a plain directory leads to a free place. -/
theorem resolve_free (plain : Plain disk directory names location) (named : IsFileName name)
    (checked : checkSpelling (directory.child name).bytes = .ok ())
    (free : disk.entry? (location ++ [name]) = none) :
    disk.resolve (directory.child name) = .ok (.free (location ++ [name]) false) := by
  obtain ⟨left, walked⟩ := plain.walkFrom_child named.1
  exact resolve_eq_ok.mpr ⟨checked, walked.trans (walk_free named.2 free)⟩

/-- The name of a file in a plain directory leads to the file. -/
theorem resolve_file (plain : Plain disk directory names location) (named : IsFileName name)
    (checked : checkSpelling (directory.child name).bytes = .ok ())
    (found : disk.entry? (location ++ [name]) = some (.file content modified)) :
    disk.resolve (directory.child name) =
      .ok (.taken (location ++ [name]) (.file content modified)) := by
  obtain ⟨left, walked⟩ := plain.walkFrom_child named.1
  exact resolve_eq_ok.mpr ⟨checked, walked.trans (walk_file named.2 found)⟩

/-- A file in a plain directory is read by its name. -/
theorem read_file (plain : Plain disk directory names location) (named : IsFileName name)
    (checked : checkSpelling (directory.child name).bytes = .ok ())
    (found : disk.entry? (location ++ [name]) = some (.file content modified)) :
    disk.read (directory.child name) = .ok content := by
  unfold read look
  rw [plain.resolve_file named checked found]

/-- Writing to one of the names makes its file. -/
theorem write_child (plain : Plain disk directory names location) (named : IsFileName name)
    (member : name ∈ names) (checked : checkSpelling (directory.child name).bytes = .ok ()) :
    disk.write (directory.child name) content modified =
      .ok (disk.put (location ++ [name]) (.file content modified)) := by
  unfold write
  rcases plain.regular name member with free | ⟨old, time, found⟩
  · rw [plain.resolve_free named checked free]
  · rw [plain.resolve_file named checked found]

/-- A name in a plain directory has its site there. -/
theorem site?_child (plain : Plain disk directory names location) (named : IsFileName name)
    (checked : checkSpelling (directory.child name).bytes = .ok ()) :
    disk.site? (directory.child name) = .ok (some ⟨location ++ [name], false⟩) := by
  obtain ⟨plainName, filled, noDot, noDots, short⟩ := named
  obtain ⟨left, passage⟩ := plain.passes
  have pieces := Path.pieces_child plain.bytes_ne_nil plainName
  have backwards : (directory.steps ++ [name]).reverse.dropWhile List.isEmpty =
      name :: directory.steps.reverse := by
    rw [List.reverse_append, List.reverse_singleton, List.singleton_append,
      List.dropWhile_cons_of_neg (by simp [filled])]
  have above : disk.walkFrom (directory.child name) directory.steps =
      .ok (.taken location .directory) := by
    unfold walkFrom
    rw [Path.isAbsolute_child plain.bytes_ne_nil]
    exact walk_eq_of_passes passage
  have last : ((directory.steps ++ [name]).getLast? == some []) = false := by simp [filled]
  rw [← pieces] at backwards last
  rw [site?_eq checked backwards (by rwa [List.reverse_reverse]), if_neg (by simp [noDot, noDots]),
    short, last]
  rfl

/-- A file is given another of the names. -/
theorem rename_child {target : Bytes} (plain : Plain disk directory names location)
    (source_named : IsFileName name) (target_named : IsFileName target) (member : target ∈ names)
    (source_checked : checkSpelling (directory.child name).bytes = .ok ())
    (target_checked : checkSpelling (directory.child target).bytes = .ok ())
    (found : disk.entry? (location ++ [name]) = some (.file content modified)) :
    disk.rename (directory.child name) (directory.child target) =
      .ok ((disk.drop (location ++ [name])).put (location ++ [target])
        (.file content modified)) := by
  unfold rename
  rw [plain.site?_child source_named source_checked, plain.site?_child target_named target_checked]
  simp only [bind, Except.bind, found]
  rcases plain.regular target member with free | ⟨old, time, there⟩
  · rw [free]
    rfl
  · rw [there]
    rfl

/-- The directory stays where it is as long as all directories and links stay. -/
theorem resolves_of_keeps {other : Disk} (plain : Plain disk directory names location)
    (keeps : ∀ place entry, disk.entry? place = some entry →
      (entry = .directory ∨ ∃ target, entry = .link target) → other.entry? place = some entry)
    (same : other.workingDirectory = disk.workingDirectory) :
    other.resolve directory = .ok (.taken location .directory) := by
  obtain ⟨checked, walked⟩ := resolve_eq_ok.mp plain.resolves
  obtain ⟨left, passage⟩ := passes_of_walk walked
  refine resolve_eq_ok.mpr ⟨checked, ?_⟩
  unfold walkFrom
  rw [same]
  exact walk_eq_of_passes (passage.mono keeps)

/-- What stands at one of the names is no directory and no link. -/
theorem not_passage (plain : Plain disk directory names location) (member : name ∈ names)
    {entry : Entry} (found : disk.entry? (location ++ [name]) = some entry) :
    ¬(entry = .directory ∨ ∃ target, entry = .link target) := by
  rcases plain.regular name member with free | ⟨content, modified, file⟩
  · rw [free] at found
    cases found
  · rw [file] at found
    rw [← Option.some.inj found]
    rintro (same | ⟨target, same⟩) <;> cases same

/-- A file written to one of the names leaves them plain. -/
theorem put (plain : Plain disk directory names location) (member : name ∈ names)
    (content : Bytes) (modified : Int) :
    Plain (disk.put (location ++ [name]) (.file content modified)) directory names location := by
  have inside : location ++ [name] ≠ [] := by simp
  refine ⟨plain.resolves_of_keeps ?_ rfl, ?_, ?_⟩
  · intro place entry found passage
    rw [entry?_put inside, if_neg]
    · exact found
    · rintro rfl
      exact plain.not_passage member found passage
  · intro other held
    rw [entry?_put inside]
    split
    next => exact .inr ⟨content, modified, rfl⟩
    next => exact plain.regular other held
  · intro other held below filled
    rw [entry?_put inside, if_neg]
    · exact plain.bare other held below filled
    · intro same
      have lengths := congrArg List.length same
      have positive := List.length_pos_iff.mpr filled
      simp only [List.length_append, List.length_singleton] at lengths
      omega

/-- A file taken away from one of the names leaves them plain. -/
theorem drop (plain : Plain disk directory names location) (member : name ∈ names) :
    Plain (disk.drop (location ++ [name])) directory names location := by
  refine ⟨plain.resolves_of_keeps ?_ rfl, ?_, ?_⟩
  · intro place entry found passage
    rw [entry?_drop, if_neg]
    · exact found
    · rintro ⟨-, lies⟩
      obtain ⟨below, rfl⟩ := List.isPrefixOf_iff_prefix.mp lies
      by_cases blank : below = []
      · rw [blank, List.append_nil] at found
        exact plain.not_passage member found passage
      · rw [plain.bare name member below blank] at found
        cases found
  · intro other held
    rw [entry?_drop]
    split
    next => exact .inl rfl
    next => exact plain.regular other held
  · intro other held below filled
    rw [entry?_drop]
    split
    next => rfl
    next => exact plain.bare other held below filled

end Plain

end Concordance.Disk
