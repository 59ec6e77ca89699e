/-! Maps kept as lists of entries in ascending order of their keys. -/
namespace Concordance

/-- Entries in strictly ascending order of their keys. -/
structure OrderedMap (κ ν : Type) [Ord κ] where
  entries : List (κ × ν)
  ascending : entries.Pairwise fun first second => compare first.1 second.1 = .lt

namespace OrderedMap

variable {κ ν : Type} [Ord κ]

instance [DecidableEq κ] [DecidableEq ν] : DecidableEq (OrderedMap κ ν) := fun first second =>
  if same : first.entries = second.entries then
    isTrue (by cases first; cases second; simp_all)
  else isFalse fun equal => same (equal ▸ rfl)

@[ext] theorem ext {first second : OrderedMap κ ν} (same : first.entries = second.entries) :
    first = second := by
  cases first; cases second; simp_all

def empty : OrderedMap κ ν := ⟨[], .nil⟩

instance : Inhabited (OrderedMap κ ν) := ⟨empty⟩

def size (map : OrderedMap κ ν) : Nat := map.entries.length

def isEmpty (map : OrderedMap κ ν) : Bool := map.entries.isEmpty

def keys (map : OrderedMap κ ν) : List κ := map.entries.map Prod.fst

def values (map : OrderedMap κ ν) : List ν := map.entries.map Prod.snd

/-- The value at a key in a list of entries. -/
def look (key : κ) : List (κ × ν) → Option ν
  | [] => none
  | (other, value) :: rest =>
      match compare key other with
      | .lt => none
      | .eq => some value
      | .gt => look key rest

def get? (map : OrderedMap κ ν) (key : κ) : Option ν := look key map.entries

def contains (map : OrderedMap κ ν) (key : κ) : Bool := (map.get? key).isSome

/-- The entries with the value of one key set. A key that is there already stays as it was spelt. -/
def put (key : κ) (value : ν) : List (κ × ν) → List (κ × ν)
  | [] => [(key, value)]
  | (other, old) :: rest =>
      match compare key other with
      | .lt => (key, value) :: (other, old) :: rest
      | .eq => (other, value) :: rest
      | .gt => (other, old) :: put key value rest

theorem mem_put {key : κ} {value : ν} {entries : List (κ × ν)} {entry : κ × ν}
    (member : entry ∈ put key value entries) :
    entry.1 = key ∨ ∃ old, (entry.1, old) ∈ entries := by
  induction entries with
  | nil => exact .inl (by simp_all [put])
  | cons head rest ih =>
      obtain ⟨other, old⟩ := head
      obtain ⟨name, content⟩ := entry
      simp only [put] at member
      split at member
      · rcases List.mem_cons.mp member with same | later
        · exact .inl (by simp_all)
        · exact .inr ⟨content, later⟩
      · rcases List.mem_cons.mp member with same | later
        · exact .inr ⟨old, by simp_all⟩
        · exact .inr ⟨content, List.mem_cons_of_mem _ later⟩
      · rcases List.mem_cons.mp member with same | later
        · exact .inr ⟨content, by simp_all⟩
        · rcases ih later with same | ⟨before, found⟩
          · exact .inl same
          · exact .inr ⟨before, List.mem_cons_of_mem _ found⟩

theorem pairwise_put [Std.TransOrd κ] (key : κ) (value : ν) {entries : List (κ × ν)}
    (ascending : entries.Pairwise fun first second => compare first.1 second.1 = .lt) :
    (put key value entries).Pairwise fun first second => compare first.1 second.1 = .lt := by
  induction entries with
  | nil => simp [put]
  | cons head rest ih =>
      obtain ⟨other, old⟩ := head
      rw [List.pairwise_cons] at ascending
      simp only [put]
      split
      next less =>
        refine List.pairwise_cons.mpr ⟨?_, List.pairwise_cons.mpr ascending⟩
        intro entry member
        rcases List.mem_cons.mp member with rfl | later
        · exact less
        · exact Std.TransCmp.lt_trans less (ascending.1 entry later)
      next => exact List.pairwise_cons.mpr ascending
      next more =>
        refine List.pairwise_cons.mpr ⟨fun entry member => ?_, ih ascending.2⟩
        rcases mem_put member with same | ⟨before, found⟩
        · exact same ▸ Std.OrientedCmp.lt_of_gt more
        · exact ascending.1 (entry.1, before) found

variable [Std.TransOrd κ]

def insert (map : OrderedMap κ ν) (key : κ) (value : ν) : OrderedMap κ ν :=
  ⟨put key value map.entries, pairwise_put key value map.ascending⟩

/-- Later entries replace earlier ones of the same key. -/
def ofList (entries : List (κ × ν)) : OrderedMap κ ν :=
  entries.foldl (fun map entry => map.insert entry.1 entry.2) empty

omit [Std.TransOrd κ] in
theorem pairwise_filter (keep : κ × ν → Bool) {entries : List (κ × ν)}
    (ascending : entries.Pairwise fun first second => compare first.1 second.1 = .lt) :
    (entries.filter keep).Pairwise fun first second => compare first.1 second.1 = .lt :=
  ascending.sublist List.filter_sublist

/-- The entries that a test accepts. -/
def filter (map : OrderedMap κ ν) (keep : κ → ν → Bool) : OrderedMap κ ν :=
  ⟨map.entries.filter fun entry => keep entry.1 entry.2, pairwise_filter _ map.ascending⟩

def erase (map : OrderedMap κ ν) (key : κ) : OrderedMap κ ν :=
  map.filter fun other _ => compare key other != .eq

/-- The map with every value changed. -/
def mapValues {μ : Type} (map : OrderedMap κ ν) (change : κ → ν → μ) : OrderedMap κ μ :=
  ⟨map.entries.map fun entry => (entry.1, change entry.1 entry.2),
    List.pairwise_map.mpr map.ascending⟩

/-- What comes before a key is passed over when the key is looked up. -/
theorem look_append {key : κ} {before : List (κ × ν)}
    (above : ∀ entry ∈ before, compare entry.1 key = .lt) (after : List (κ × ν)) :
    look key (before ++ after) = look key after := by
  induction before with
  | nil => rfl
  | cons head rest ih =>
      obtain ⟨other, old⟩ := head
      have more := Std.OrientedCmp.gt_of_lt (above (other, old) List.mem_cons_self)
      simp only [List.cons_append, look, more]
      exact ih fun entry member => above entry (List.mem_cons_of_mem _ member)

/-- What comes before a key stays there when the key is put. -/
theorem put_append {key : κ} {value : ν} {before : List (κ × ν)}
    (above : ∀ entry ∈ before, compare entry.1 key = .lt) (after : List (κ × ν)) :
    put key value (before ++ after) = before ++ put key value after := by
  induction before with
  | nil => rfl
  | cons head rest ih =>
      obtain ⟨other, old⟩ := head
      have more := Std.OrientedCmp.gt_of_lt (above (other, old) List.mem_cons_self)
      simp only [List.cons_append, put, more]
      rw [ih fun entry member => above entry (List.mem_cons_of_mem _ member)]

theorem look_put_self (key : κ) (value : ν) (entries : List (κ × ν)) :
    look key (put key value entries) = some value := by
  induction entries with
  | nil => simp [put, look, Std.ReflCmp.compare_self]
  | cons head rest ih =>
      obtain ⟨other, old⟩ := head
      simp only [put]
      split
      next => simp [look, Std.ReflCmp.compare_self]
      next same => simp [look, same]
      next more => simp [look, more, ih]

theorem get?_insert_self (map : OrderedMap κ ν) (key : κ) (value : ν) :
    (map.insert key value).get? key = some value := look_put_self key value map.entries

end OrderedMap
end Concordance
