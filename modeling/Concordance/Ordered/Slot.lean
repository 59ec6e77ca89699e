import Concordance.Ordered.Map

namespace Concordance

/-- Where a key stands in a list, or where it has to be put to keep the list in order. -/
inductive Slot where
  | taken (index : Nat)
  | free (index : Nat)
deriving DecidableEq, Repr

namespace Slot

variable {κ : Type} [Ord κ]

/-- The key at an index comes after another one. -/
def isAfter (key : κ) (keys : List κ) (index : Nat) : Bool :=
  keys[index]?.any fun other => compare other key == .gt

/-- Halves a stretch of a list, `size` keys from `base` on, until one of them is left. A turn makes
the stretch shorter, so no more of them are needed than it has keys. -/
def narrow (key : κ) (keys : List κ) : Nat → Nat → Nat → Nat
  | 0, base, _ => base
  | turns + 1, base, size =>
      if size ≤ 1 then base
      else
        let half := size / 2
        narrow key keys turns (if isAfter key keys (base + half) then base else base + half)
          (size - half)

/-- Searches a list for a key. -/
def find (key : κ) (keys : List κ) : Slot :=
  let base := narrow key keys keys.length 0 keys.length
  match keys[base]? with
  | none => .free base
  | some other =>
      match compare other key with
      | .lt => .free (base + 1)
      | .eq => .taken base
      | .gt => .free base

/-- A key after another one has only such keys behind it. -/
theorem isAfter_of_le [Std.TransOrd κ] {key : κ} {keys : List κ}
    (ascending : keys.Pairwise fun first second => compare first second = .lt) {first second : Nat}
    (above : isAfter key keys first = true) (later : first ≤ second) (inside : second < keys.length) :
    isAfter key keys second = true := by
  rcases Nat.eq_or_lt_of_le later with rfl | later
  · exact above
  · have less := List.pairwise_iff_getElem.mp ascending first second (by omega) inside later
    simp only [isAfter, List.getElem?_eq_getElem inside, List.getElem?_eq_getElem (by omega : first <
      keys.length), Option.any_some, beq_iff_eq] at above ⊢
    exact Std.OrientedCmp.gt_of_lt
      (Std.TransCmp.lt_trans (Std.OrientedCmp.lt_of_gt above) less)

/-- A stretch that has the last key in it that is not after the searched one, if there is any. -/
structure IsWindow (key : κ) (keys : List κ) (base size : Nat) : Prop where
  filled : 0 < size
  inside : base + size ≤ keys.length
  low : base = 0 ∨ isAfter key keys base = false
  high : ∀ index, base + size ≤ index → index < keys.length → isAfter key keys index = true

theorem IsWindow.narrow [Std.TransOrd κ] {key : κ} {keys : List κ}
    (ascending : keys.Pairwise fun first second => compare first second = .lt)
    {turns base size : Nat} (enough : size ≤ turns + 1) (window : IsWindow key keys base size) :
    IsWindow key keys (narrow key keys turns base size) 1 := by
  induction turns generalizing base size with
  | zero =>
      have one : size = 1 := Nat.le_antisymm enough window.filled
      exact one ▸ window
  | succ turns ih =>
      obtain ⟨filled, inside, low, high⟩ := window
      simp only [Slot.narrow]
      split
      next small =>
        have one : size = 1 := Nat.le_antisymm small filled
        exact one ▸ ⟨filled, inside, low, high⟩
      next large =>
        apply ih (by omega)
        cases above : isAfter key keys (base + size / 2) with
        | false =>
            refine ⟨by omega, by simp only [Bool.false_eq_true, if_false]; omega, .inr above, ?_⟩
            intro index later
            exact high index (by simp only [Bool.false_eq_true, if_false] at later; omega)
        | true =>
            refine ⟨by omega, by simp only [if_true]; omega, low, ?_⟩
            intro index later
            exact isAfter_of_le ascending above (by simp only [if_true] at later; omega)

/-- The search finds the key, or the place between the keys before it and those after it. -/
theorem find_cases [Std.TransOrd κ] (key : κ) {keys : List κ}
    (ascending : keys.Pairwise fun first second => compare first second = .lt) :
    (∃ before other after, keys = before ++ other :: after ∧ compare other key = .eq ∧
      find key keys = .taken before.length) ∨
    ∃ before after, keys = before ++ after ∧ (∀ other ∈ before, compare other key = .lt) ∧
      (∀ other ∈ after, compare key other = .lt) ∧ find key keys = .free before.length := by
  rcases Nat.eq_zero_or_pos keys.length with empty | filled
  · rw [List.eq_nil_of_length_eq_zero empty]
    exact .inr ⟨[], [], rfl, by simp, by simp, rfl⟩
  obtain ⟨-, inside, low, high⟩ := IsWindow.narrow ascending (Nat.le_succ keys.length)
    (⟨filled, Nat.le_of_eq (Nat.zero_add _), .inl rfl, fun index later inside => by omega⟩ :
      IsWindow key keys 0 keys.length)
  have found : find key keys = match keys[narrow key keys keys.length 0 keys.length]? with
      | none => .free (narrow key keys keys.length 0 keys.length)
      | some other =>
          match compare other key with
          | .lt => .free (narrow key keys keys.length 0 keys.length + 1)
          | .eq => .taken (narrow key keys keys.length 0 keys.length)
          | .gt => .free (narrow key keys keys.length 0 keys.length) := rfl
  generalize narrow key keys keys.length 0 keys.length = base at *
  have bound : base < keys.length := inside
  have split : keys = keys.take base ++ keys[base] :: keys.drop (base + 1) := by
    rw [List.getElem_cons_drop, List.take_append_drop]
  have length : (keys.take base).length = base := List.length_take_of_le (Nat.le_of_lt bound)
  have after : ∀ other ∈ keys.drop (base + 1), compare key other = .lt := by
    intro other member
    obtain ⟨index, within, rfl⟩ := List.getElem_of_mem member
    rw [List.length_drop] at within
    have above := high (base + 1 + index) (by omega) (by omega)
    rw [isAfter, List.getElem?_eq_getElem (by omega), Option.any_some, beq_iff_eq] at above
    rw [List.getElem_drop]
    exact Std.OrientedCmp.lt_of_gt above
  have before : ∀ other ∈ keys.take base, compare other keys[base] = .lt := by
    rw [split, List.pairwise_append] at ascending
    exact fun other member => ascending.2.2 other member _ List.mem_cons_self
  rw [List.getElem?_eq_getElem bound] at found
  cases side : compare keys[base] key with
  | eq =>
      simp only [side] at found
      exact .inl ⟨_, _, _, split, side, by rw [found, length]⟩
  | lt =>
      simp only [side] at found
      refine .inr ⟨keys.take base ++ [keys[base]], keys.drop (base + 1), by simp, ?_, after, ?_⟩
      · intro other member
        rcases List.mem_append.mp member with earlier | last
        · exact Std.TransCmp.lt_trans (before other earlier) side
        · exact List.mem_singleton.mp last ▸ side
      · rw [found, List.length_append, length, List.length_singleton]
  | gt =>
      simp only [side] at found
      obtain rfl : base = 0 := by
        rcases low with first | below
        · exact first
        · rw [isAfter, List.getElem?_eq_getElem bound, Option.any_some, side] at below
          cases below
      refine .inr ⟨[], keys, rfl, by simp, ?_, found⟩
      intro other member
      rw [split] at member
      rcases List.mem_cons.mp member with rfl | later
      · exact Std.OrientedCmp.lt_of_gt side
      · exact after other later

end Slot
end Concordance
