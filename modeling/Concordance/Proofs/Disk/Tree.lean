import Concordance.Proofs.Spelling
import Mathlib.Data.List.Induction

/-! How a disk grows. -/
namespace Concordance.Disk

/-- A path leads to a directory, whether or not its text is too wide to be used. -/
def Leads (disk : Disk) (path : Path) (location : Location) : Prop :=
  disk.walkFrom path path.pieces = .ok (.taken location .directory)

def IsFile (entry : Entry) : Prop := ∃ content modified, entry = .file content modified

/-- Every entry lies in a directory, and so does whoever works with the disk. -/
structure IsTree (disk : Disk) : Prop where
  inside : ∀ location name, (disk.entry? (location ++ [name])).isSome = true →
    disk.entry? location = some .directory
  working : disk.entry? disk.workingDirectory = some .directory

/-- What is on a disk stays there, except for files at some places, and what comes is a directory or
such a file. All that comes lies in directories. -/
structure Evolves (own : Location → Prop) (disk next : Disk) : Prop where
  working : next.workingDirectory = disk.workingDirectory
  kept : ∀ place entry, disk.entry? place = some entry → ¬(own place ∧ IsFile entry) →
    next.entry? place = some entry
  new : ∀ place entry, next.entry? place = some entry →
    disk.entry? place = some entry ∨ entry = .directory ∨ own place ∧ IsFile entry
  inside : ∀ location name, (next.entry? (location ++ [name])).isSome = true →
    (disk.entry? (location ++ [name])).isSome = true ∨ next.entry? location = some .directory

theorem not_isFile_directory : ¬IsFile .directory := by
  rintro ⟨content, modified, same⟩
  cases same

theorem entry?_root (disk : Disk) : disk.entry? [] = some .directory := if_pos rfl

namespace Evolves

variable {own : Location → Prop} {disk middle next : Disk}

/-- A disk on which nothing was done has evolved. -/
theorem refl (own : Location → Prop) (disk : Disk) : Evolves own disk disk where
  working := rfl
  kept _ _ found _ := found
  new _ _ found := .inl found
  inside _ _ found := .inl found

/-- Directories stay as a disk evolves. -/
theorem directory (evolves : Evolves own disk next) {location : Location}
    (found : disk.entry? location = some .directory) : next.entry? location = some .directory :=
  evolves.kept location .directory found fun both => not_isFile_directory both.2

/-- What evolves in two steps has evolved. -/
theorem trans (first : Evolves own disk middle) (second : Evolves own middle next) :
    Evolves own disk next where
  working := second.working.trans first.working
  kept place entry found other := second.kept place entry (first.kept place entry found other) other
  new place entry found := by
    rcases second.new place entry found with there | other
    · exact first.new place entry there
    · exact .inr other
  inside location name found := by
    rcases second.inside location name found with there | directory
    · rcases first.inside location name there with before | directory
      · exact .inl before
      · exact .inr (second.directory directory)
    · exact .inr directory

/-- A disk that is a tree stays one as it evolves. -/
theorem isTree (evolves : Evolves own disk next) (tree : disk.IsTree) : next.IsTree where
  inside location name found := by
    rcases evolves.inside location name found with there | directory
    · exact evolves.directory (tree.inside location name there)
    · exact directory
  working := evolves.working ▸ evolves.directory tree.working

/-- Directories and links stay where they are. -/
theorem keeps (evolves : Evolves own disk next) (place : Location) (entry : Entry)
    (found : disk.entry? place = some entry)
    (passage : entry = .directory ∨ ∃ target, entry = .link target) :
    next.entry? place = some entry := by
  refine evolves.kept place entry found ?_
  rintro ⟨-, content, modified, rfl⟩
  rcases passage with same | ⟨target, same⟩ <;> cases same

/-- Paths to directories lead where they led as a disk evolves. -/
theorem leads (evolves : Evolves own disk next) {path : Path} {location : Location}
    (leads : disk.Leads path location) : next.Leads path location := by
  obtain ⟨left, passage⟩ := passes_of_walk leads
  unfold Leads walkFrom
  rw [evolves.working]
  exact walk_eq_of_passes (passage.mono evolves.keeps)

end Evolves

section Leading

variable {disk : Disk} {path : Path} {location : Location}

/-- A path that leads to a directory is resolved to it. -/
theorem resolve_eq_of_leads (checked : checkSpelling path.bytes = .ok ())
    (leads : disk.Leads path location) : disk.resolve path = .ok (.taken location .directory) :=
  resolve_eq_ok.mpr ⟨checked, leads⟩

/-- A path that is resolved to a directory leads to it. -/
theorem leads_of_resolve (resolved : disk.resolve path = .ok (.taken location .directory)) :
    disk.Leads path location :=
  (resolve_eq_ok.mp resolved).2

/-- A path leads to one directory. -/
theorem Leads.unique {other : Location} (one : disk.Leads path location)
    (another : disk.Leads path other) : location = other := by
  unfold Leads at one another
  rw [one, Except.ok.injEq, Place.taken.injEq] at another
  exact another.1

/-- A path is that of a directory where it is resolved to one. -/
theorem isDirectory_iff :
    disk.isDirectory path = true ↔
      ∃ location, disk.resolve path = .ok (.taken location .directory) := by
  constructor
  · intro found
    unfold isDirectory at found
    split at found
    next looked => exact resolve_of_look looked
    next => cases found
  · rintro ⟨location, resolved⟩
    unfold isDirectory look
    rw [resolved]

/-- In a tree a passage that starts in a directory ends in one. -/
theorem IsTree.entry?_of_passes (tree : disk.IsTree) {links left : Nat} {start : Location}
    {pieces : List Bytes} (passage : Passes disk links start pieces left location)
    (begun : disk.entry? start = some .directory) : disk.entry? location = some .directory := by
  induction passage with
  | stay => exact begun
  | blank _ _ ih => exact ih begun
  | @up links left start location piece rest _ _ ih =>
      apply ih
      rcases List.eq_nil_or_concat start with rfl | ⟨above, name, rfl⟩
      · exact begun
      · rw [List.concat_eq_append] at begun ⊢
        rw [List.dropLast_concat]
        exact tree.inside above name (Option.isSome_of_eq_some begun)
  | enter _ found _ ih => exact ih found
  | follow _ _ _ ih =>
      apply ih
      unfold linkStart
      split
      next => exact entry?_root disk
      next => exact begun

/-- In a tree, what a walk takes for a directory is one. -/
theorem IsTree.entry?_of_walkFrom (tree : disk.IsTree) {pieces : List Bytes}
    (walked : disk.walkFrom path pieces = .ok (.taken location .directory)) :
    disk.entry? location = some .directory := by
  obtain ⟨left, passage⟩ := passes_of_walk walked
  refine tree.entry?_of_passes passage ?_
  split
  next => exact entry?_root disk
  next => exact tree.working

end Leading

section Spelling

variable {disk : Disk} {links left : Nat} {start location : Location}

/-- Pieces that lead nowhere can be put before a passage. -/
theorem Passes.of_blanks {blanks pieces : List Bytes}
    (blank : ∀ piece ∈ blanks, ¬Path.isStep piece = true)
    (passage : Passes disk links start pieces left location) :
    Passes disk links start (blanks ++ pieces) left location := by
  induction blanks with
  | nil => exact passage
  | cons piece rest ih =>
      have nowhere := blank piece List.mem_cons_self
      unfold Path.isStep at nowhere
      rw [decide_eq_true_iff, not_and_or, not_not, not_not] at nowhere
      exact .blank nowhere (ih fun other member => blank other (List.mem_cons_of_mem _ member))

/-- A passage does not depend on the pieces that lead nowhere. -/
theorem Passes.congr {pieces others : List Bytes}
    (passage : Passes disk links start pieces left location)
    (same : pieces.filter Path.isStep = others.filter Path.isStep) :
    Passes disk links start others left location := by
  have split {piece : Bytes} {rest others : List Bytes} (step : Path.isStep piece = true)
      (same : (piece :: rest).filter Path.isStep = others.filter Path.isStep) :
      ∃ blanks more, others = blanks ++ piece :: more ∧
        (∀ other ∈ blanks, ¬Path.isStep other = true) ∧
        rest.filter Path.isStep = more.filter Path.isStep := by
    rw [List.filter_cons_of_pos step] at same
    obtain ⟨blanks, more, rfl, blank, -, rest_eq⟩ := List.filter_eq_cons_iff.mp same.symm
    exact ⟨blanks, more, rfl, blank, rest_eq.symm⟩
  induction passage generalizing others with
  | stay links location =>
      have blank := List.filter_eq_nil_iff.mp same.symm
      have here : Passes disk links location [] links location := .stay links location
      simpa using here.of_blanks blank
  | blank blank _ ih =>
      refine ih ?_
      rw [← same, List.filter_cons_of_neg]
      unfold Path.isStep
      rcases blank with rfl | rfl <;> simp
  | up dots _ ih =>
      obtain ⟨blanks, more, rfl, blank, rest⟩ := split (by rw [dots]; decide) same
      exact (Passes.up dots (ih rest)).of_blanks blank
  | enter named found _ ih =>
      obtain ⟨blanks, more, rfl, blank, rest⟩ :=
        split (by simp [Path.isStep, named.1, named.2.1]) same
      exact (Passes.enter named found (ih rest)).of_blanks blank
  | @follow links left start location piece target rest named found _ ih =>
      obtain ⟨blanks, more, rfl, blank, rest⟩ :=
        split (by simp [Path.isStep, named.1, named.2.1]) same
      refine (Passes.follow named found (ih ?_)).of_blanks blank
      rw [List.filter_append, List.filter_append, rest]

/-- Two spellings of one path lead to the same directory. -/
theorem Leads.congr {first second : Path} (leads : disk.Leads first location)
    (same : first.parts = second.parts) : disk.Leads second location := by
  obtain ⟨absolute, strides⟩ := Path.of_parts_eq same
  obtain ⟨left, passage⟩ := passes_of_walk leads
  unfold Leads walkFrom
  rw [← absolute]
  exact walk_eq_of_passes (passage.congr strides)

end Spelling

section Files

variable {own : Location → Prop} {disk : Disk} {location : Location} {name : Bytes}

/-- A new entry in a directory leaves all others where they are. -/
theorem evolves_put {entry : Entry} (directory : disk.entry? location = some .directory)
    (free : ∀ old, disk.entry? (location ++ [name]) = some old →
      own (location ++ [name]) ∧ IsFile old)
    (new : entry = .directory ∨ own (location ++ [name]) ∧ IsFile entry) :
    Evolves own disk (disk.put (location ++ [name]) entry) where
  working := rfl
  kept place old found other := by
    rw [entry?_put (by simp), if_neg]
    · exact found
    · rintro rfl
      exact other (free old found)
  new place old found := by
    rw [entry?_put (by simp)] at found
    split at found
    next here =>
      cases found
      exact .inr (here ▸ new)
    next => exact .inl found
  inside place other found := by
    rw [entry?_put (by simp)] at found
    split at found
    next here =>
      obtain ⟨rfl, -⟩ := List.append_inj' here rfl
      rw [entry?_put (by simp), if_neg (by simp)]
      exact .inr directory
    next => exact .inl found

/-- What lies above an entry of a tree is a directory. -/
theorem IsTree.entry?_of_below (tree : disk.IsTree) {below : List Bytes} (some : below ≠ [])
    (found : (disk.entry? (location ++ below)).isSome = true) :
    disk.entry? location = .some .directory := by
  induction below using List.reverseRecOn with
  | nil => exact absurd rfl some
  | append_singleton above last ih =>
      rw [← List.append_assoc] at found
      have directory := tree.inside _ last found
      by_cases none : above = []
      · rwa [none, List.append_nil] at directory
      · exact ih none (Option.isSome_of_eq_some directory)

/-- Nothing lies below a file, so nothing else goes when the file does. -/
theorem IsTree.entry?_drop (tree : disk.IsTree) {file : Entry} (isFile : IsFile file)
    (found : disk.entry? (location ++ [name]) = some file) (other : Location) :
    entry? (disk.drop (location ++ [name])) other =
      if other = location ++ [name] then none else disk.entry? other := by
  rw [Disk.entry?_drop]
  by_cases same : other = location ++ [name]
  · rw [if_pos same, if_pos]
    rw [same]
    simp
  · rw [if_neg same]
    split
    next lies =>
      obtain ⟨below, rfl⟩ := List.isPrefixOf_iff_prefix.mp lies.2
      have deeper : below ≠ [] := by
        rintro rfl
        exact same (List.append_nil _)
      cases there : disk.entry? (location ++ [name] ++ below) with
      | none => rfl
      | some entry =>
          have directory := tree.entry?_of_below deeper (Option.isSome_of_eq_some there)
          rw [found, Option.some.injEq] at directory
          exact absurd (directory ▸ isFile) not_isFile_directory
    next => rfl

/-- A file that goes leaves all other entries where they are. -/
theorem evolves_drop (tree : disk.IsTree) {file : Entry} (isFile : IsFile file)
    (found : disk.entry? (location ++ [name]) = some file) (owned : own (location ++ [name])) :
    Evolves own disk (disk.drop (location ++ [name])) where
  working := rfl
  kept place entry there other := by
    rw [tree.entry?_drop isFile found, if_neg]
    · exact there
    · rintro rfl
      rw [found, Option.some.injEq] at there
      exact other ⟨owned, there ▸ isFile⟩
  new place entry there := by
    rw [tree.entry?_drop isFile found] at there
    split at there
    next => cases there
    next => exact .inl there
  inside place other there := by
    rw [tree.entry?_drop isFile found] at there
    split at there
    next => cases there
    next => exact .inl there

end Files

section Making

variable {own : Location → Prop} {disk made : Disk} {path : Path}

/-- The site of a name lies in the directory that the pieces before the name lead to. -/
theorem of_site? {site : Site} (whole : disk.site? path = .ok (some site)) :
    checkSpelling path.bytes = .ok () ∧ ∃ place name above, IsEntryName name ∧
      path.pieces.reverse.dropWhile List.isEmpty = name :: above ∧
      disk.walkFrom path above.reverse = .ok (.taken place .directory) ∧
      site = ⟨place ++ [name], path.pieces.getLast? == some []⟩ := by
  have checked := checkSpelling_of_site? whole
  refine ⟨checked, ?_⟩
  cases ends : path.pieces.reverse.dropWhile List.isEmpty with
  | nil =>
      unfold site? at whole
      rw [checked, ends] at whole
      cases whole
  | cons name above =>
      cases walked : disk.walkFrom path above.reverse with
      | error fault =>
          unfold site? at whole
          rw [checked, ends] at whole
          change (disk.walkFrom path above.reverse >>= _) = _ at whole
          rw [walked] at whole
          cases whole
      | ok found =>
          cases found with
          | free location hasSlash =>
              unfold site? at whole
              rw [checked, ends] at whole
              change (disk.walkFrom path above.reverse >>= _) = _ at whole
              rw [walked] at whole
              cases whole
          | taken place entry =>
              cases entry with
              | directory =>
                  rw [site?_eq checked ends walked] at whole
                  split at whole
                  next => cases whole
                  next noDots =>
                    rw [not_or] at noDots
                    split at whole
                    next => cases whole
                    next short =>
                      have named : IsEntryName name :=
                        ⟨(pieces_of_ends ends).1, noDots.1, noDots.2, Bool.eq_false_iff.mpr short⟩
                      exact ⟨place, name, above, named, rfl, walked,
                        (Option.some.inj (Except.ok.inj whole)).symm⟩
              | _ =>
                  unfold site? at whole
                  rw [checked, ends] at whole
                  change (disk.walkFrom path above.reverse >>= _) = _ at whole
                  rw [walked] at whole
                  cases whole

/-- A directory that is made lies in one that is there, and its path leads to it. -/
theorem evolves_makeDirectory (tree : disk.IsTree) (whole : disk.makeDirectory path = .ok made) :
    Evolves own disk made ∧ ∃ location, made.resolve path = .ok (.taken location .directory) := by
  unfold makeDirectory at whole
  cases sited : disk.site? path with
  | error fault =>
      rw [sited] at whole
      cases whole
  | ok site =>
      rw [sited] at whole
      cases site with
      | none => cases whole
      | some site =>
          change (if (disk.entry? site.location).isSome = true then _ else _) = _ at whole
          split at whole
          next => cases whole
          next free =>
            obtain ⟨checked, place, name, above, named, ends, walked, rfl⟩ := of_site? sited
            rw [Option.not_isSome_iff_eq_none] at free
            have added : made = disk.put (place ++ [name]) .directory := (Except.ok.inj whole).symm
            have evolves : Evolves own disk made := added ▸ evolves_put
              (tree.entry?_of_walkFrom walked) (fun old found => nomatch free.symm.trans found)
              (.inl rfl)
            refine ⟨evolves, place ++ [name], resolve_eq_ok.mpr ⟨checked, ?_⟩⟩
            obtain ⟨-, slashes, blank, spelt⟩ := pieces_of_ends ends
            obtain ⟨left, passage⟩ := passes_of_walk walked
            have there : made.entry? (place ++ [name]) = some .directory := by
              rw [added, entry?_put (by simp), if_pos rfl]
            have rest : Passes made left (place ++ [name]) slashes left (place ++ [name]) := by
              have none : ∀ piece ∈ slashes, ¬Path.isStep piece = true :=
                fun piece member => by simp [Path.isStep, blank piece member]
              have here : Passes made left (place ++ [name]) [] left (place ++ [name]) := .stay ..
              simpa using here.of_blanks none
            unfold walkFrom
            rw [spelt, evolves.working, walk_of_passes (passage.mono evolves.keeps)]
            exact walk_eq_of_passes (.enter named there rest)

/-- What making a directory comes to: it adds directories only, also where it fails in the end, and
where it does not, the path is that of a directory afterwards. -/
def Makes (own : Location → Prop) (disk : Disk) (path : Path) :
    EStateM.Result Fault Disk Unit → Prop
  | .ok _ made => Evolves own disk made ∧ made.isDirectory path = true
  | .error _ left => Evolves own disk left

/-- What is made on a disk that has evolved is made on the disk before. -/
theorem Makes.of_evolves {ready : Disk} {result : EStateM.Result Fault Disk Unit}
    (evolves : Evolves own disk ready) (makes : Makes own ready path result) :
    Makes own disk path result := by
  cases result with
  | ok value made => exact ⟨evolves.trans makes.1, makes.2⟩
  | error fault left => exact evolves.trans makes

/-- A directory that is there need not be made. -/
theorem makes_of_isDirectory (fault : DiskFault) :
    Makes own disk path
      (if disk.isDirectory path then .ok () disk else .error (.disk fault) disk) := by
  split
  next there => exact ⟨.refl own disk, there⟩
  next => exact .refl own disk

/-- Making one directory makes it, and nothing else. -/
theorem makes_makeDirectory (tree : disk.IsTree) (whole : disk.makeDirectory path = .ok made) :
    Makes own disk path (.ok () made) :=
  have made := evolves_makeDirectory tree whole
  ⟨made.1, isDirectory_iff.mpr made.2⟩

/-- Making a directory lets the disk evolve, also where it fails. -/
theorem Makes.evolves {action : Action Unit} (makes : Makes own disk path (action disk)) :
    Evolves own disk (stateAfter action disk) := by
  unfold stateAfter
  cases result : action disk with
  | ok value made =>
      rw [result] at makes
      exact makes.1
  | error fault left =>
      rw [result] at makes
      exact makes

/-- The directories above are made first where the first attempt finds none. -/
theorem makes_makeAbove_cons (tree : disk.IsTree) (last : Path.Part) {above : List Path.Part}
    (before : Evolves own disk (stateAfter (makeAbove (.ofParts above.reverse) above) disk)) :
    Makes own disk path (makeAbove path (last :: above) disk) := by
  rw [makeAbove]
  beta_reduce
  split
  next made whole => exact makes_makeDirectory tree whole
  next =>
    split
    next ready stage =>
      rw [stateAfter_of_ok stage] at before
      refine Makes.of_evolves before ?_
      split
      next made whole => exact makes_makeDirectory (before.isTree tree) whole
      next => exact makes_of_isDirectory _
    next stage =>
      rw [stateAfter_of_error stage] at before
      exact before
  next => exact makes_of_isDirectory _

/-- Making the directories above a path lets the disk evolve. -/
theorem evolves_makeAbove (tree : disk.IsTree) (steps : List Path.Part) (path : Path) :
    Evolves own disk (stateAfter (makeAbove path steps) disk) := by
  induction steps generalizing path with
  | nil => exact .refl own disk
  | cons last above ih => exact (makes_makeAbove_cons tree last (ih _)).evolves

/-- Making a directory where a path has a step. -/
theorem makes_makeDirectories (tree : disk.IsTree) (filled : path.parts ≠ []) :
    Makes own disk path (makeDirectories path disk) := by
  obtain ⟨last, above, steps⟩ := List.exists_cons_of_ne_nil
    (show path.parts.reverse ≠ [] by simpa using filled)
  unfold makeDirectories
  rw [steps]
  exact makes_makeAbove_cons tree last (evolves_makeAbove tree above _)

end Making

end Concordance.Disk
