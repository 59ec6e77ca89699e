import Concordance.Ordered.Set
import Mathlib.Data.List.Nodup

namespace Concordance.OrderedSet

section Elements

variable {α : Type} [Ord α]

@[simp] theorem toList_empty : (empty : OrderedSet α).toList = [] := rfl

/-- What is left of a set are the elements that are kept. -/
theorem mem_filter {set : OrderedSet α} {keep : α → Bool} {element : α} :
    element ∈ (set.filter keep).toList ↔ element ∈ set.toList ∧ keep element = true := by
  simp [filter]

/-- A set contains an element where one of its elements has the same place in the order. -/
theorem contains_iff_exists {set : OrderedSet α} {element : α} :
    set.contains element = true ↔ ∃ other ∈ set.toList, compare element other = .eq := by
  simp [contains]

theorem contains_of_filter {set : OrderedSet α} {keep : α → Bool} {element : α}
    (held : (set.filter keep).contains element = true) : set.contains element = true := by
  obtain ⟨other, member, same⟩ := contains_iff_exists.mp held
  exact contains_iff_exists.mpr ⟨other, (mem_filter.mp member).1, same⟩

variable [Std.TransOrd α]

/-- Elements that compare as equal are in the same sets. -/
theorem contains_congr {first second : α} (same : compare first second = .eq)
    (set : OrderedSet α) : set.contains first = set.contains second := by
  simp only [contains, Std.TransCmp.congr_left same]

/-- The elements of a set that are in another one too. -/
theorem contains_filter_contains {first second : OrderedSet α} {element : α} :
    (first.filter second.contains).contains element = true ↔
      first.contains element = true ∧ second.contains element = true := by
  constructor
  · intro both
    obtain ⟨other, member, same⟩ := contains_iff_exists.mp both
    rw [contains_congr same second]
    exact ⟨contains_of_filter both, (mem_filter.mp member).2⟩
  · rintro ⟨held, kept⟩
    obtain ⟨other, member, same⟩ := contains_iff_exists.mp held
    rw [contains_congr same] at kept
    exact contains_iff_exists.mpr ⟨other, mem_filter.mpr ⟨member, kept⟩, same⟩

/-- No element stands twice in a set. -/
theorem nodup_toList (set : OrderedSet α) : set.toList.Nodup := by
  apply set.ascending.imp
  intro first second less same
  rw [same, Std.ReflOrd.compare_self] at less
  cases less

/-- An element that comes after all others is placed at the end. -/
theorem place_of_forall_lt {element : α} {elements : List α}
    (above : ∀ other ∈ elements, compare other element = .lt) :
    place element elements = elements ++ [element] := by
  induction elements with
  | nil => rfl
  | cons head rest ih =>
      have more := Std.OrientedCmp.gt_of_lt (above head List.mem_cons_self)
      simp only [place, more, List.cons_append]
      rw [ih fun other member => above other (List.mem_cons_of_mem _ member)]

/-- A list in ascending order is what its set holds. -/
theorem toList_ofList {elements : List α}
    (ascending : elements.Pairwise fun first second => compare first second = .lt) :
    (ofList elements).toList = elements := by
  have build : ∀ (more : List α) (set : OrderedSet α),
      (set.toList ++ more).Pairwise (fun first second => compare first second = .lt) →
      (more.foldl insert set).toList = set.toList ++ more := by
    intro more
    induction more with
    | nil => simp
    | cons element more ih =>
        intro set sorted
        have last : (set.insert element).toList = set.toList ++ [element] :=
          place_of_forall_lt fun earlier member =>
            (List.pairwise_append.mp sorted).2.2 earlier member element List.mem_cons_self
        rw [List.foldl_cons, ih, last, List.append_assoc, List.singleton_append]
        rwa [last, List.append_assoc, List.singleton_append]
  simpa [ofList] using build elements empty (by simpa using ascending)

/-- A set is put together again from its elements. -/
@[simp] theorem ofList_toList (set : OrderedSet α) : ofList set.toList = set :=
  ext (toList_ofList set.ascending)

theorem exists_mem_place (element probe : α) (elements : List α) :
    (∃ other ∈ place element elements, compare probe other = .eq) ↔
      compare probe element = .eq ∨ ∃ other ∈ elements, compare probe other = .eq := by
  induction elements with
  | nil => simp [place]
  | cons head rest ih =>
      simp only [place]
      split
      next => simp
      next same =>
        rw [Std.TransCmp.congr_right (a := probe) same]
        simp
      next => simp only [List.mem_cons, exists_eq_or_imp, ih, or_left_comm]

/-- Inserting an element adds it and nothing else. -/
theorem contains_insert (set : OrderedSet α) (element probe : α) :
    (set.insert element).contains probe = true ↔
      compare probe element = .eq ∨ set.contains probe = true := by
  rw [contains_iff_exists, contains_iff_exists]
  exact exists_mem_place element probe set.toList

/-- After insertions a set contains what was inserted and what was there before. -/
theorem contains_foldl_insert (elements : List α) (set : OrderedSet α) (probe : α) :
    (elements.foldl insert set).contains probe = true ↔
      (∃ other ∈ elements, compare probe other = .eq) ∨ set.contains probe = true := by
  induction elements generalizing set with
  | nil => simp
  | cons element rest ih =>
      simp only [List.foldl_cons, ih, contains_insert, List.mem_cons, exists_eq_or_imp]
      exact or_left_comm.trans or_assoc.symm

/-- A set of elements contains what has the place of one of them in the order. -/
theorem contains_ofList (elements : List α) (probe : α) :
    (ofList elements).contains probe = true ↔ ∃ other ∈ elements, compare probe other = .eq := by
  rw [ofList, contains_foldl_insert]
  simp [contains]

/-- What a set of a list holds stands in the list. -/
theorem mem_of_mem_ofList {elements : List α} {element : α}
    (member : element ∈ (ofList elements).toList) : element ∈ elements := by
  have build : ∀ (more : List α) (set : OrderedSet α),
      element ∈ (more.foldl insert set).toList → element ∈ more ∨ element ∈ set.toList := by
    intro more
    induction more with
    | nil => exact fun set held => .inr held
    | cons head rest ih =>
        intro set held
        rcases ih (set.insert head) held with later | before
        · exact .inl (List.mem_cons_of_mem _ later)
        · rcases mem_place before with rfl | old
          · exact .inl List.mem_cons_self
          · exact .inr old
  simpa using build elements empty member

/-- Sets with the same members are the same set. -/
theorem ext_mem {first second : OrderedSet α}
    (same : ∀ element, element ∈ first.toList ↔ element ∈ second.toList) : first = second := by
  apply ext
  refine List.Perm.eq_of_pairwise ?_ first.ascending second.ascending ?_
  · intro element other _ _ less more
    exact absurd more (Std.OrientedCmp.not_lt_of_lt less)
  · exact (List.perm_ext_iff_of_nodup first.nodup_toList second.nodup_toList).mpr same

end Elements

section Lawful

variable {α : Type} [Ord α] [Std.TransOrd α] [Std.LawfulEqOrd α]

/-- Where elements of one place are equal, a set of elements has exactly these. -/
theorem mem_ofList {elements : List α} {element : α} :
    element ∈ (ofList elements).toList ↔ element ∈ elements := by
  rw [← contains_iff, contains_ofList]
  simp

/-- The set of distinct elements holds each of them once. -/
theorem perm_ofList {elements : List α} (distinct : elements.Nodup) :
    (ofList elements).toList.Perm elements :=
  (List.perm_ext_iff_of_nodup (ofList elements).nodup_toList distinct).mpr fun _ => mem_ofList

end Lawful

end Concordance.OrderedSet
