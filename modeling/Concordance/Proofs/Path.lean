import Concordance.Path
import Concordance.Proofs.Text.Split
import Concordance.Proofs.Text.Utf8

namespace Concordance.Path

/-- A path that is spelt in a text shows that text. -/
@[simp]
theorem text_mk (text : String) : Path.text ⟨text⟩ = text := by
  unfold Path.text
  rw [Utf8.lossy_bytes, String.ofList_toList]

/-- A path that is spelt in text is text. -/
theorem isText_mk (text : String) : IsText ⟨text⟩ := by
  unfold IsText written
  rw [text_mk]

/-- The paths that come back as they are written are those that are spelt in a text. -/
theorem isText_iff {path : Path} : path.IsText ↔ ∃ text : String, path = ⟨text⟩ := by
  constructor
  · exact fun same => ⟨path.text, same.symm⟩
  · rintro ⟨text, rfl⟩
    exact isText_mk text

/-- Writing a path that was read back loses nothing more. -/
@[simp]
theorem written_written (path : Path) : path.written.written = path.written :=
  isText_mk path.text

/-- Bytes that can stand as one piece of a path. -/
def IsName (name : Bytes) : Prop := slash ∉ name

instance (name : Bytes) : Decidable (IsName name) := inferInstanceAs (Decidable (_ ∉ _))

/-- The pieces of a directory that come before the name of a child. -/
def steps (directory : Path) : List Bytes :=
  if directory.bytes.getLast? = some slash then directory.pieces.dropLast else directory.pieces

/-- A name is one piece. -/
theorem pieces_of_isName {name : Bytes} (plain : IsName name) : pieces ⟨name⟩ = [name] := by
  unfold pieces
  apply Text.pieces_of_forall_not
  intro byte member
  rw [beq_eq_false_iff_ne]
  rintro rfl
  exact plain member

/-- Pieces of bytes cut at one of their slashes. -/
theorem pieces_of_slash {path : Path} {before after : Bytes}
    (spelt : path.bytes = before ++ slash :: after) :
    path.pieces = pieces ⟨before⟩ ++ pieces ⟨after⟩ := by
  unfold pieces
  rw [spelt, Text.pieces_append_mark (by decide)]

theorem pieces_empty : pieces ⟨[]⟩ = [[]] := rfl

/-- A directory has its steps as pieces, with an empty one after them where it ends in a slash. -/
theorem pieces_eq_steps (directory : Path) :
    directory.pieces = directory.steps ∨ directory.pieces = directory.steps ++ [[]] := by
  unfold steps
  split
  next ends =>
    obtain ⟨before, spelt⟩ := List.getLast?_eq_some_iff.mp ends
    rw [pieces_of_slash spelt, pieces_empty, List.dropLast_concat]
    exact .inr rfl
  next => exact .inl rfl

/-- A child has the steps of its directory and then its name. -/
theorem pieces_child {directory : Path} {name : Bytes} (filled : directory.bytes ≠ [])
    (plain : IsName name) : (directory.child name).pieces = directory.steps ++ [name] := by
  unfold child steps
  split
  next none => exact absurd (List.getLast?_eq_none_iff.mp none) filled
  next last found =>
    simp only [found, Option.some.injEq]
    by_cases ends : last = slash
    · rw [if_pos ends, if_pos ends]
      obtain ⟨before, spelt⟩ := List.getLast?_eq_some_iff.mp (ends ▸ found)
      have child : directory.bytes ++ name = before ++ slash :: name := by
        rw [spelt, List.append_assoc, List.singleton_append]
      rw [pieces_of_slash child, pieces_of_slash spelt, pieces_empty, List.dropLast_concat,
        pieces_of_isName plain]
    · rw [if_neg ends, if_neg ends, pieces_of_slash rfl, pieces_of_isName plain]

theorem isAbsolute_child {directory : Path} (filled : directory.bytes ≠ []) (name : Bytes) :
    (directory.child name).isAbsolute = directory.isAbsolute := by
  obtain ⟨first, rest, spelt⟩ := List.exists_cons_of_ne_nil filled
  unfold isAbsolute child
  split
  next none => simp_all
  next => split <;> simp [spelt]

/-- A path that is spelt at all has a step. -/
theorem parts_ne_nil {path : Path} (filled : path.bytes ≠ []) : path.parts ≠ [] := by
  obtain ⟨first, rest, spelt⟩ := List.exists_cons_of_ne_nil filled
  by_cases rooted : first = slash
  · have absolute : path.isAbsolute = true := by simp [isAbsolute, spelt, rooted]
    simp [parts, absolute]
  · obtain ⟨piece, more, cut⟩ := List.exists_cons_of_ne_nil
      (Text.pieces_ne_nil (· == slash) rest)
    have pieces : path.pieces = (first :: piece) :: more := by
      simp [Path.pieces, spelt, Text.pieces, rooted, cut]
    intro none
    unfold parts at none
    rw [pieces, List.append_eq_nil_iff, List.filterMap_cons] at none
    by_cases dotted : first :: piece = [dot]
    · have start := none.1
      simp only [dotted, List.head?_cons, if_true] at start
      split at start <;> cases start
    · have part : ∃ part, partOf? (first :: piece) = some part := by
        unfold partOf?
        rw [if_neg (not_or.mpr ⟨List.cons_ne_nil _ _, dotted⟩)]
        split <;> exact ⟨_, rfl⟩
      obtain ⟨part, found⟩ := part
      rw [found] at none
      exact List.cons_ne_nil _ _ none.2

/-- Sorting keeps all paths. -/
theorem perm_sort (paths : List Path) : (sort paths).Perm paths := List.mergeSort_perm ..

/-- Paths that are told apart are in strict order once they are sorted. -/
theorem pairwise_sort {paths : List Path}
    (apart : paths.Pairwise fun first second => compare first second ≠ .eq) :
    (sort paths).Pairwise fun first second => compare first second = .lt := by
  have sorted : (sort paths).Pairwise fun first second => (compare first second).isLE := by
    apply List.pairwise_mergeSort
    · exact fun _ _ _ => Std.TransCmp.isLE_trans
    · intro first second
      rw [Std.OrientedOrd.eq_swap (a := second)]
      cases compare first second <;> rfl
  have told := apart.perm (perm_sort paths).symm fun different same =>
    different (Std.OrientedCmp.eq_symm same)
  refine (sorted.and told).imp ?_
  rintro first second ⟨before, different⟩
  cases order : compare first second with
  | lt => rfl
  | eq => exact absurd order different
  | gt => rw [order] at before; cases before

/-- The order of a list does not matter once it is sorted. -/
theorem sort_eq_of_perm {first second : List Path} (perm : first.Perm second)
    (apart : second.Pairwise fun first second => compare first second ≠ .eq) :
    sort first = sort second := by
  refine ((perm_sort first).trans (perm.trans (perm_sort second).symm)).eq_of_pairwise ?_
    (pairwise_sort ?_) (pairwise_sort apart)
  · exact fun _ _ _ _ less more => absurd more (Std.OrientedCmp.not_lt_of_lt less)
  · exact apart.perm perm.symm fun different same => different (Std.OrientedCmp.eq_symm same)

end Concordance.Path
