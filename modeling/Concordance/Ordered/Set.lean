import Concordance.Ordered.Map

/-! Sets kept as strictly ascending lists. -/
namespace Concordance

/-- Elements in strictly ascending order. -/
structure OrderedSet (α : Type) [Ord α] where
  toList : List α
  ascending : toList.Pairwise fun first second => compare first second = .lt

namespace OrderedSet

variable {α : Type} [Ord α]

@[ext] theorem ext {first second : OrderedSet α} (same : first.toList = second.toList) :
    first = second := by
  cases first; cases second; simp_all

instance [DecidableEq α] : DecidableEq (OrderedSet α) := fun first second =>
  if same : first.toList = second.toList then isTrue (ext same)
  else isFalse fun equal => same (equal ▸ rfl)

def empty : OrderedSet α := ⟨[], .nil⟩

instance : Inhabited (OrderedSet α) := ⟨empty⟩

def size (set : OrderedSet α) : Nat := set.toList.length

def isEmpty (set : OrderedSet α) : Bool := set.toList.isEmpty

def contains (set : OrderedSet α) (element : α) : Bool :=
  set.toList.any fun other => compare element other == .eq

/-- The list with one element put where it belongs, unless it is there. -/
def place (element : α) : List α → List α
  | [] => [element]
  | other :: rest =>
      match compare element other with
      | .lt => element :: other :: rest
      | .eq => other :: rest
      | .gt => other :: place element rest

theorem mem_place {element other : α} {elements : List α} (member : other ∈ place element elements) :
    other = element ∨ other ∈ elements := by
  induction elements with
  | nil => simpa [place] using member
  | cons head rest ih =>
      simp only [place] at member
      split at member
      · simpa using member
      · exact .inr member
      · rcases List.mem_cons.mp member with same | later
        · exact .inr (by simp [same])
        · rcases ih later with same | old
          · exact .inl same
          · exact .inr (by simp [old])

theorem pairwise_place [Std.TransOrd α] (element : α) {elements : List α}
    (ascending : elements.Pairwise fun first second => compare first second = .lt) :
    (place element elements).Pairwise fun first second => compare first second = .lt := by
  induction elements with
  | nil => simp [place]
  | cons head rest ih =>
      rw [List.pairwise_cons] at ascending
      simp only [place]
      split
      next less =>
        refine List.pairwise_cons.mpr ⟨?_, List.pairwise_cons.mpr ascending⟩
        intro other member
        rcases List.mem_cons.mp member with rfl | later
        · exact less
        · exact Std.TransCmp.lt_trans less (ascending.1 other later)
      next => exact List.pairwise_cons.mpr ascending
      next more =>
        refine List.pairwise_cons.mpr ⟨fun other member => ?_, ih ascending.2⟩
        rcases mem_place member with rfl | later
        · exact Std.OrientedCmp.lt_of_gt more
        · exact ascending.1 other later

/-- The elements that a test accepts. -/
def filter (set : OrderedSet α) (keep : α → Bool) : OrderedSet α :=
  ⟨set.toList.filter keep, set.ascending.sublist List.filter_sublist⟩

variable [Std.TransOrd α]

def insert (set : OrderedSet α) (element : α) : OrderedSet α :=
  ⟨place element set.toList, pairwise_place element set.ascending⟩

def ofList (elements : List α) : OrderedSet α := elements.foldl insert empty

omit [Std.TransOrd α] in
theorem contains_iff [Std.LawfulEqOrd α] (set : OrderedSet α) (element : α) :
    set.contains element = true ↔ element ∈ set.toList := by
  simp only [contains, List.any_eq_true, beq_iff_eq]
  constructor
  · rintro ⟨other, member, same⟩
    exact Std.LawfulEqOrd.eq_of_compare same ▸ member
  · intro member
    exact ⟨element, member, Std.ReflCmp.compare_self⟩

omit [Std.TransOrd α] in
theorem mem_place_iff [Std.LawfulEqOrd α] (element other : α) (elements : List α) :
    other ∈ place element elements ↔ other = element ∨ other ∈ elements := by
  constructor
  · exact mem_place
  · induction elements with
    | nil => simp [place]
    | cons head rest ih =>
        simp only [place]
        split
        · simp
        next same =>
          have equal := Std.LawfulEqOrd.eq_of_compare same
          simp [equal]
        next =>
          simp only [List.mem_cons]
          rintro (same | same | later)
          · exact .inr (ih (.inl same))
          · exact .inl same
          · exact .inr (ih (.inr later))

theorem mem_insert [Std.LawfulEqOrd α] (set : OrderedSet α) (element other : α) :
    other ∈ (set.insert element).toList ↔ other = element ∨ other ∈ set.toList :=
  mem_place_iff element other set.toList

end OrderedSet
end Concordance
