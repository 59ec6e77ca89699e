import Concordance.Ordered.Map
import Mathlib.Data.List.Induction
import Mathlib.Data.List.Nodup

namespace Concordance.OrderedMap

section Entries

variable {κ ν : Type} [Ord κ]

/-- Entries with other keys than one below them all. -/
theorem filter_of_forall_lt {key : κ} {entries : List (κ × ν)}
    (below : ∀ entry ∈ entries, compare key entry.1 = .lt) :
    entries.filter (fun entry => compare key entry.1 != .eq) = entries := by
  apply List.filter_eq_self.mpr
  intro entry member
  rw [below entry member]
  rfl

/-- A key that is not there yet adds one entry. -/
theorem perm_put_of_look_eq_none {key : κ} {value : ν} {entries : List (κ × ν)}
    (ascending : entries.Pairwise fun first second => compare first.1 second.1 = .lt)
    (fresh : look key entries = none) :
    (put key value entries).Perm ((key, value) :: entries) := by
  induction entries with
  | nil => exact .refl _
  | cons head rest ih =>
      obtain ⟨here, old⟩ := head
      rw [List.pairwise_cons] at ascending
      simp only [look] at fresh
      simp only [put]
      cases side : compare key here with
      | lt => exact .refl _
      | eq => simp [side] at fresh
      | gt =>
          rw [side] at fresh
          exact ((ih ascending.2 fresh).cons _).trans (.swap _ _ _)

/-- A replaced value changes no view of the values in which it looks like the old one. -/
theorem map_put_of_look_eq_some {μ : Type} (view : ν → μ) {key : κ} {old value : ν}
    {entries : List (κ × ν)} (found : look key entries = some old) (same : view value = view old) :
    (put key value entries).map (fun entry => view entry.2) =
      entries.map fun entry => view entry.2 := by
  induction entries with
  | nil => cases found
  | cons head rest ih =>
      obtain ⟨here, held⟩ := head
      simp only [look] at found
      simp only [put]
      cases side : compare key here with
      | lt => simp [side] at found
      | eq =>
          rw [side] at found
          cases found
          simp [same]
      | gt =>
          rw [side] at found
          simp only [List.map_cons, ih found]

/-- A value that is found already is put without any change. -/
theorem put_of_look_eq_some {key : κ} {value : ν} {entries : List (κ × ν)}
    (found : look key entries = some value) : put key value entries = entries := by
  induction entries with
  | nil => cases found
  | cons head rest ih =>
      obtain ⟨here, held⟩ := head
      simp only [look] at found
      simp only [put]
      cases side : compare key here with
      | lt => simp [side] at found
      | eq =>
          rw [side] at found
          cases found
          rfl
      | gt =>
          rw [side] at found
          simp only [ih found]

/-- Putting a value under a key that is there changes no key. -/
theorem map_fst_put_of_look_eq_some {key : κ} {old : ν} (value : ν) {entries : List (κ × ν)}
    (found : look key entries = some old) :
    (put key value entries).map Prod.fst = entries.map Prod.fst := by
  induction entries with
  | nil => cases found
  | cons head rest ih =>
      obtain ⟨here, held⟩ := head
      simp only [look] at found
      simp only [put]
      cases side : compare key here with
      | lt => simp [side] at found
      | eq => rfl
      | gt =>
          rw [side] at found
          simp only [List.map_cons, ih found]

variable [Std.TransOrd κ]

/-- Looking finds the value of the one entry whose key compares as equal. -/
theorem look_eq_some_iff {key : κ} {value : ν} {entries : List (κ × ν)}
    (ascending : entries.Pairwise fun first second => compare first.1 second.1 = .lt) :
    look key entries = some value ↔
      ∃ other, compare key other = .eq ∧ (other, value) ∈ entries := by
  induction entries with
  | nil => simp [look]
  | cons head rest ih =>
      obtain ⟨here, old⟩ := head
      rw [List.pairwise_cons] at ascending
      simp only [look]
      cases side : compare key here with
      | lt =>
          constructor
          · intro found
            cases found
          · rintro ⟨other, same, member⟩
            rcases List.mem_cons.mp member with equal | later
            · simp_all
            · have less := Std.TransCmp.lt_trans side (ascending.1 _ later)
              simp_all
      | eq =>
          constructor
          · intro found
            exact ⟨here, side, by simp_all⟩
          · rintro ⟨other, same, member⟩
            rcases List.mem_cons.mp member with equal | later
            · simp_all
            · have less := Std.TransCmp.lt_of_eq_of_lt side (ascending.1 _ later)
              simp_all
      | gt =>
          have apart : ∀ other, compare key other = .eq → (other, value) ≠ (here, old) := by
            intro other same equal
            simp_all
          simp only [ih ascending.2]
          constructor
          · rintro ⟨other, same, member⟩
            exact ⟨other, same, List.mem_cons_of_mem _ member⟩
          · rintro ⟨other, same, member⟩
            rcases List.mem_cons.mp member with equal | later
            · exact absurd equal (apart other same)
            · exact ⟨other, same, later⟩

/-- Keys that compare as equal find the same value. -/
theorem look_congr {first second : κ} (same : compare first second = .eq)
    (entries : List (κ × ν)) : look first entries = look second entries := by
  induction entries with
  | nil => rfl
  | cons head rest ih =>
      simp only [look, Std.TransCmp.congr_left same, ih]

/-- Putting a value at a key changes what is found there and nowhere else. -/
theorem look_put (key other : κ) (value : ν) (entries : List (κ × ν)) :
    look other (put key value entries) =
      if compare other key = .eq then some value else look other entries := by
  split
  next same => rw [look_congr same, look_put_self]
  next apart =>
    induction entries with
    | nil =>
        simp only [put, look]
        split <;> simp_all
    | cons head rest ih =>
        obtain ⟨here, old⟩ := head
        simp only [put]
        split
        next less =>
          simp only [look]
          cases side : compare other key with
          | lt => simp [Std.TransCmp.lt_trans side less]
          | eq => exact absurd side apart
          | gt => rfl
        next same =>
          have apartHere : compare other here ≠ .eq := by
            rw [← Std.TransCmp.congr_right same]
            exact apart
          simp only [look]
          split <;> simp_all
        next => simp [look, ih]

/-- A new key that comes after all entries is put at the end. -/
theorem put_of_forall_gt {key : κ} {value : ν} {entries : List (κ × ν)}
    (above : ∀ entry ∈ entries, compare entry.1 key = .lt) :
    put key value entries = entries ++ [(key, value)] := by
  simpa [put] using put_append above []

/-- A found value is that of the one entry that goes when its key is taken away. -/
theorem perm_filter_of_look_eq_some {key : κ} {value : ν} {entries : List (κ × ν)}
    (ascending : entries.Pairwise fun first second => compare first.1 second.1 = .lt)
    (found : look key entries = some value) :
    ∃ other, compare key other = .eq ∧
      entries.Perm ((other, value) :: entries.filter fun entry => compare key entry.1 != .eq) := by
  induction entries with
  | nil => cases found
  | cons head rest ih =>
      obtain ⟨here, old⟩ := head
      rw [List.pairwise_cons] at ascending
      simp only [look] at found
      cases side : compare key here with
      | lt => simp [side] at found
      | eq =>
          rw [side] at found
          cases found
          have others := filter_of_forall_lt fun entry member =>
            Std.TransCmp.lt_of_eq_of_lt side (ascending.1 entry member)
          refine ⟨here, side, ?_⟩
          rw [List.filter_cons_of_neg (by simp [side]), others]
      | gt =>
          rw [side] at found
          obtain ⟨other, same, perm⟩ := ih ascending.2 found
          refine ⟨other, same, ?_⟩
          rw [List.filter_cons_of_pos (by simp [side])]
          exact (perm.cons _).trans (.swap _ _ _)

/-- What stands at the other keys does not depend on the value put at one. -/
theorem filter_put (key : κ) (value : ν) (entries : List (κ × ν)) :
    (put key value entries).filter (fun entry => compare key entry.1 != .eq) =
      entries.filter fun entry => compare key entry.1 != .eq := by
  induction entries with
  | nil => simp [put]
  | cons head rest ih =>
      obtain ⟨here, old⟩ := head
      simp only [put]
      cases side : compare key here with
      | lt => simp
      | eq => simp [side]
      | gt => simp [side, ih]

end Entries

section Maps

variable {κ ν : Type} [Ord κ]

@[simp] theorem entries_empty : (empty : OrderedMap κ ν).entries = [] := rfl

/-- What is left of a map are the entries that are kept. -/
theorem mem_filter {map : OrderedMap κ ν} {keep : κ → ν → Bool} {entry : κ × ν} :
    entry ∈ (map.filter keep).entries ↔ entry ∈ map.entries ∧ keep entry.1 entry.2 = true := by
  simp [filter]

theorem contains_eq_false {map : OrderedMap κ ν} {key : κ} :
    map.contains key = false ↔ map.get? key = none :=
  Option.isSome_eq_false_iff.trans Option.isNone_iff_eq_none

/-- No two keys of a map compare as equal. -/
theorem pairwise_keys (map : OrderedMap κ ν) :
    map.keys.Pairwise fun first second => compare first second ≠ .eq := by
  refine List.pairwise_map.mpr (map.ascending.imp ?_)
  intro first second less same
  rw [less] at same
  cases same

/-- Changing the values changes no key. -/
@[simp] theorem keys_mapValues {μ : Type} (map : OrderedMap κ ν) (change : κ → ν → μ) :
    (map.mapValues change).keys = map.keys := by
  simp [keys, mapValues]

/-- Looking after a change of values finds the changed value. -/
theorem look_map {μ : Type} (key : κ) (change : ν → μ) (entries : List (κ × ν)) :
    look key (entries.map fun entry => (entry.1, change entry.2)) = (look key entries).map change := by
  induction entries with
  | nil => rfl
  | cons head rest ih =>
      simp only [List.map_cons, look, ih]
      cases compare key head.1 <;> rfl

/-- Values that are changed alike are found changed. -/
theorem get?_mapValues_of_value {μ : Type} (map : OrderedMap κ ν) (change : ν → μ) (key : κ) :
    (map.mapValues fun _ value => change value).get? key = (map.get? key).map change :=
  look_map key change map.entries

variable [Std.TransOrd κ]

/-- A value is found where an entry has a key of the same place in the order. -/
theorem get?_eq_some_iff_exists {map : OrderedMap κ ν} {key : κ} {value : ν} :
    map.get? key = some value ↔
      ∃ other, compare key other = .eq ∧ (other, value) ∈ map.entries :=
  look_eq_some_iff map.ascending

/-- Keys of the same place in the order find the same. -/
theorem get?_congr {first second : κ} (same : compare first second = .eq)
    (map : OrderedMap κ ν) : map.get? first = map.get? second :=
  look_congr same map.entries

/-- Every entry is what the map holds at its key. -/
theorem get?_of_mem {map : OrderedMap κ ν} {key : κ} {value : ν}
    (member : (key, value) ∈ map.entries) : map.get? key = some value :=
  get?_eq_some_iff_exists.mpr ⟨key, Std.ReflCmp.compare_self, member⟩

/-- A map contains a key where one of its keys has the same place in the order. -/
theorem contains_iff_exists {map : OrderedMap κ ν} {key : κ} :
    map.contains key = true ↔ ∃ other ∈ map.keys, compare key other = .eq := by
  simp only [contains, Option.isSome_iff_exists, get?_eq_some_iff_exists, keys, List.mem_map]
  constructor
  · rintro ⟨value, other, same, member⟩
    exact ⟨other, ⟨(other, value), member, rfl⟩, same⟩
  · rintro ⟨other, ⟨⟨key, value⟩, member, rfl⟩, same⟩
    exact ⟨value, key, same, member⟩

theorem contains_iff_exists_entry {map : OrderedMap κ ν} {key : κ} :
    map.contains key = true ↔ ∃ entry ∈ map.entries, compare key entry.1 = .eq := by
  simp [contains_iff_exists, keys]

/-- A map contains both or none of two keys of the same place in the order. -/
theorem contains_congr {first second : κ} (same : compare first second = .eq)
    (map : OrderedMap κ ν) : map.contains first = map.contains second :=
  congrArg Option.isSome (get?_congr same map)

/-- An insertion changes what is found at its own key only. -/
theorem get?_insert (map : OrderedMap κ ν) (key other : κ) (value : ν) :
    (map.insert key value).get? other =
      if compare other key = .eq then some value else map.get? other :=
  look_put key other value map.entries

/-- A new key leaves what there is. -/
theorem get?_insert_of_fresh {map : OrderedMap κ ν} {key other : κ} {held : ν}
    (fresh : map.get? key = none) (found : map.get? other = some held) (value : ν) :
    (map.insert key value).get? other = some held := by
  rw [get?_insert, if_neg, found]
  intro same
  rw [← get?_congr same, found] at fresh
  cases fresh

/-- Inserting a new key adds one entry. -/
theorem perm_insert_of_get?_eq_none {map : OrderedMap κ ν} {key : κ} (value : ν)
    (fresh : map.get? key = none) :
    (map.insert key value).entries.Perm ((key, value) :: map.entries) :=
  perm_put_of_look_eq_none map.ascending fresh

/-- Inserting what is there already changes nothing. -/
theorem insert_of_get?_eq_some {map : OrderedMap κ ν} {key : κ} {value : ν}
    (found : map.get? key = some value) : map.insert key value = map :=
  ext (put_of_look_eq_some found)

/-- Erasing a key takes away what is there and nothing else. -/
theorem get?_erase (map : OrderedMap κ ν) (key other : κ) :
    (map.erase key).get? other =
      if compare other key = .eq then none else map.get? other := by
  apply Option.ext
  intro value
  rw [get?_eq_some_iff_exists]
  simp only [erase, mem_filter, bne_iff_ne]
  split
  next same =>
    constructor
    · rintro ⟨here, equal, -, apart⟩
      exact absurd (Std.TransCmp.eq_trans (Std.OrientedCmp.eq_symm same) equal) apart
    · intro found
      cases found
  next different =>
    rw [get?_eq_some_iff_exists]
    constructor
    · rintro ⟨here, equal, member, -⟩
      exact ⟨here, equal, member⟩
    · rintro ⟨here, equal, member⟩
      refine ⟨here, equal, member, fun same => different ?_⟩
      exact Std.TransCmp.eq_trans equal (Std.OrientedCmp.eq_symm same)

/-- A key that is there makes one entry more than the map without it. -/
theorem perm_erase_of_get?_eq_some {map : OrderedMap κ ν} {key : κ} {value : ν}
    (found : map.get? key = some value) :
    ∃ other, compare key other = .eq ∧
      map.entries.Perm ((other, value) :: (map.erase key).entries) :=
  perm_filter_of_look_eq_some map.ascending found

/-- Erasing a key that is not there changes nothing. -/
theorem erase_of_get?_eq_none {map : OrderedMap κ ν} {key : κ} (missing : map.get? key = none) :
    map.erase key = map := by
  apply ext
  apply List.filter_eq_self.mpr
  intro entry member
  rw [bne_iff_ne]
  intro same
  rw [get?_eq_some_iff_exists.mpr ⟨entry.1, same, member⟩] at missing
  cases missing

/-- Erasing a key forgets what was inserted at it. -/
theorem erase_insert (map : OrderedMap κ ν) (key : κ) (value : ν) :
    (map.insert key value).erase key = map.erase key :=
  ext (filter_put key value map.entries)

/-- An inserted value comes beside those at all other keys. -/
theorem perm_values_insert (map : OrderedMap κ ν) (key : κ) (value : ν) :
    (map.insert key value).values.Perm (value :: (map.erase key).values) := by
  obtain ⟨other, -, perm⟩ := perm_erase_of_get?_eq_some (get?_insert_self map key value)
  rw [erase_insert] at perm
  exact perm.map Prod.snd

/-- The values of a map are the one at a key and those that are left without it. -/
theorem perm_values_erase (map : OrderedMap κ ν) (key : κ) :
    map.values.Perm ((map.get? key).toList ++ (map.erase key).values) := by
  cases found : map.get? key with
  | none =>
      rw [erase_of_get?_eq_none found]
      exact .refl _
  | some value =>
      obtain ⟨other, -, perm⟩ := perm_erase_of_get?_eq_some found
      exact perm.map Prod.snd

/-- A value put at a key that is there adds no key. -/
theorem keys_insert_of_contains {map : OrderedMap κ ν} {key : κ} (value : ν)
    (there : map.contains key = true) : (map.insert key value).keys = map.keys := by
  obtain ⟨old, found⟩ := Option.isSome_iff_exists.mp there
  exact map_fst_put_of_look_eq_some value found

/-- What is found after a change of values is the change of what was found before. -/
theorem get?_mapValues {μ : Type} (map : OrderedMap κ ν) (change : κ → ν → μ) (key : κ)
    (value : μ) : (map.mapValues change).get? key = some value ↔
      ∃ other old, compare key other = .eq ∧ (other, old) ∈ map.entries ∧
        change other old = value := by
  rw [get?_eq_some_iff_exists]
  simp only [mapValues, List.mem_map, Prod.mk.injEq, Prod.exists]
  constructor
  · rintro ⟨other, same, here, old, member, rfl, rfl⟩
    exact ⟨here, old, same, member, rfl⟩
  · rintro ⟨other, old, same, member, rfl⟩
    exact ⟨other, same, other, old, member, rfl, rfl⟩

/-- No key stands twice in a map. -/
theorem nodup_keys (map : OrderedMap κ ν) : map.keys.Nodup := by
  rw [keys, List.Nodup, List.pairwise_map]
  apply map.ascending.imp
  intro first second less same
  rw [same, Std.ReflOrd.compare_self] at less
  cases less

/-- A list in ascending order of its keys is what its map holds. -/
theorem entries_ofList {entries : List (κ × ν)}
    (ascending : entries.Pairwise fun first second => compare first.1 second.1 = .lt) :
    (ofList entries).entries = entries := by
  have build : ∀ (more : List (κ × ν)) (map : OrderedMap κ ν),
      (map.entries ++ more).Pairwise (fun first second => compare first.1 second.1 = .lt) →
      (more.foldl (fun map entry => map.insert entry.1 entry.2) map).entries =
        map.entries ++ more := by
    intro more
    induction more with
    | nil => simp
    | cons entry more ih =>
        intro map sorted
        have last : (map.insert entry.1 entry.2).entries = map.entries ++ [entry] :=
          put_of_forall_gt fun earlier member =>
            (List.pairwise_append.mp sorted).2.2 earlier member entry List.mem_cons_self
        rw [List.foldl_cons, ih, last, List.append_assoc, List.singleton_append]
        rwa [last, List.append_assoc, List.singleton_append]
  simpa [ofList] using build entries empty (by simpa using ascending)

/-- A map is put together again from its entries. -/
@[simp] theorem ofList_entries (map : OrderedMap κ ν) : ofList map.entries = map :=
  ext (entries_ofList map.ascending)

end Maps

section Lawful

variable {κ ν : Type} [Ord κ] [Std.TransOrd κ] [Std.LawfulEqOrd κ]

/-- Where keys of one place are equal, a value is found exactly where its entry is. -/
theorem get?_eq_some_iff {map : OrderedMap κ ν} {key : κ} {value : ν} :
    map.get? key = some value ↔ (key, value) ∈ map.entries := by
  simp [get?_eq_some_iff_exists]

/-- Where keys of one place are equal, a map contains exactly its keys. -/
theorem contains_iff {map : OrderedMap κ ν} {key : κ} :
    map.contains key = true ↔ key ∈ map.keys := by
  simp [contains_iff_exists]

theorem contains_insert (map : OrderedMap κ ν) (key other : κ) (value : ν)
    [DecidableEq κ] :
    (map.insert key value).contains other = (map.contains other || decide (other = key)) := by
  unfold contains
  rw [get?_insert]
  by_cases same : other = key
  · simp [same]
  · simp [same]

theorem contains_erase (map : OrderedMap κ ν) (key other : κ) [DecidableEq κ] :
    (map.erase key).contains other = (map.contains other && decide (other ≠ key)) := by
  unfold contains
  rw [get?_erase]
  by_cases same : other = key
  · simp [same]
  · simp [same]

/-- The keys of a map are one of them and those that are left without it. -/
theorem perm_keys_erase {map : OrderedMap κ ν} {key : κ} (there : map.contains key = true) :
    map.keys.Perm (key :: (map.erase key).keys) := by
  obtain ⟨value, found⟩ := Option.isSome_iff_exists.mp there
  obtain ⟨other, same, perm⟩ := perm_erase_of_get?_eq_some found
  rw [← Std.LawfulEqOrd.eq_of_compare same] at perm
  exact perm.map Prod.fst

/-- The values that stay after a test are those the test accepts. -/
theorem get?_filter (map : OrderedMap κ ν) (keep : κ → ν → Bool) (key : κ) :
    (map.filter keep).get? key = (map.get? key).filter (keep key) := by
  apply Option.ext
  intro value
  rw [get?_eq_some_iff, mem_filter, Option.filter_eq_some_iff, get?_eq_some_iff]

/-- Every entry of the map of a list stands in the list. -/
theorem mem_of_mem_ofList {entries : List (κ × ν)} {entry : κ × ν}
    (member : entry ∈ (ofList entries).entries) : entry ∈ entries := by
  have build : ∀ (more : List (κ × ν)) (map : OrderedMap κ ν),
      entry ∈ (more.foldl (fun map entry => map.insert entry.1 entry.2) map).entries →
      entry ∈ more ∨ entry ∈ map.entries := by
    intro more
    induction more with
    | nil => exact fun map held => .inr held
    | cons head rest ih =>
        intro map held
        rcases ih (map.insert head.1 head.2) held with later | before
        · exact .inl (List.mem_cons_of_mem _ later)
        · have found := get?_eq_some_iff.mpr before
          rw [get?_insert] at found
          split at found
          next same =>
            have equal := Std.LawfulEqOrd.eq_of_compare same
            have head_eq : head = entry := Prod.ext equal.symm (Option.some.inj found)
            exact .inl (by simp [head_eq])
          next => exact .inr (get?_eq_some_iff.mp found)
  simpa using build entries empty member

omit [Std.LawfulEqOrd κ] in
/-- One more entry at the end of a list is inserted last. -/
theorem ofList_concat (entries : List (κ × ν)) (entry : κ × ν) :
    ofList (entries ++ [entry]) = (ofList entries).insert entry.1 entry.2 := by
  rw [ofList, List.foldl_append]
  rfl

/-- The map of a list holds at each key the value of the last entry with that key. -/
theorem get?_ofList {entries : List (κ × ν)} {key : κ} {value : ν} :
    (ofList entries).get? key = some value ↔ ∃ before after,
      entries = before ++ (key, value) :: after ∧ ∀ entry ∈ after, entry.1 ≠ key := by
  induction entries using List.reverseRecOn with
  | nil => simp [ofList, get?, look]
  | append_singleton entries last ih =>
      obtain ⟨here, held⟩ := last
      rw [ofList_concat, get?_insert]
      split
      next same =>
        obtain rfl := Std.LawfulEqOrd.eq_of_compare same
        constructor
        · intro found
          cases found
          exact ⟨entries, [], rfl, by simp⟩
        · rintro ⟨before, after, split, apart⟩
          cases after using List.reverseRecOn with
          | nil => simp_all
          | append_singleton after other =>
              rw [← List.cons_append, ← List.append_assoc] at split
              have equal := (List.append_inj' split rfl).2
              cases equal
              exact absurd rfl (apart (key, held) (by simp))
      next different =>
        have apart : key ≠ here := by
          rintro rfl
          exact different Std.ReflOrd.compare_self
        rw [ih]
        constructor
        · rintro ⟨before, after, rfl, others⟩
          refine ⟨before, after ++ [(here, held)], by simp, ?_⟩
          intro entry member
          rcases List.mem_append.mp member with earlier | last
          · exact others entry earlier
          · rw [List.mem_singleton.mp last]
            exact apart.symm
        · rintro ⟨before, after, split, others⟩
          cases after using List.reverseRecOn with
          | nil =>
              have equal := (List.append_inj' split rfl).2
              cases equal
              exact absurd rfl apart
          | append_singleton after other =>
              rw [← List.cons_append, ← List.append_assoc] at split
              exact ⟨before, after, (List.append_inj' split rfl).1, fun entry member =>
                others entry (List.mem_append_left _ member)⟩

/-- The keys of the map of a list are those of the list. -/
theorem mem_keys_ofList {entries : List (κ × ν)} {key : κ} :
    key ∈ (ofList entries).keys ↔ key ∈ entries.map Prod.fst := by
  induction entries using List.reverseRecOn with
  | nil => simp [ofList, keys]
  | append_singleton entries last ih =>
      rw [ofList_concat, List.map_append, List.mem_append, ← ih, ← contains_iff, ← contains_iff,
        contains, contains, get?_insert]
      split
      next same => simp [Std.LawfulEqOrd.eq_of_compare same]
      next different =>
        have apart : key ≠ last.1 := fun same => different (same ▸ Std.ReflOrd.compare_self)
        simp [apart]

/-- Maps that hold the same at every key are the same map. -/
theorem ext_get? {first second : OrderedMap κ ν}
    (same : ∀ key, first.get? key = second.get? key) : first = second := by
  apply ext
  refine List.Perm.eq_of_pairwise ?_ first.ascending second.ascending ?_
  · intro entry other _ _ less more
    exact absurd more (Std.OrientedCmp.not_lt_of_lt less)
  · refine (List.perm_ext_iff_of_nodup ?_ ?_).mpr ?_
    · exact List.Nodup.of_map Prod.fst first.nodup_keys
    · exact List.Nodup.of_map Prod.fst second.nodup_keys
    · rintro ⟨key, value⟩
      rw [← get?_eq_some_iff, ← get?_eq_some_iff, same]

end Lawful

end Concordance.OrderedMap
