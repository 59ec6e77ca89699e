import Concordance.Ranking.Tiers
import Concordance.Proofs.Ordered.Set
import Concordance.Proofs.Ordered.Map
import Mathlib.Data.Finset.Card
import Mathlib.Order.Basic

namespace Concordance

namespace Retrieval

/-- A better score comes first, and of equal scores the lower number. -/
def precedes (first second : Ranked) : Prop :=
  second.score < first.score ∨ first.score = second.score ∧ first.id < second.id

theorem compare_eq_lt {first second : Ranked} :
    compare first second = .lt ↔ precedes first second := by
  show (compare (-first.score) (-second.score)).then (compare first.id second.id) = .lt ↔ _
  rw [Ordering.then_eq_lt, Std.compare_eq_lt, Std.compare_eq_lt,
    Std.LawfulEqOrd.compare_eq_iff_eq, Int.neg_lt_neg_iff, Int.neg_inj]
  rfl

end Retrieval

namespace Tiers

open Retrieval (precedes compare_eq_lt)

instance : DecidableRel precedes := fun first second =>
  inferInstanceAs (Decidable (second.score < first.score ∨ _))

variable {tiers : Tiers}

/-- The entries of a score are the documents of its tier. -/
theorem mem_toList {score : Int} {id : DocId} :
    ⟨score, id⟩ ∈ tiers.toList ↔ id ∈ (tiers.tier score).toList := by
  simp only [toList, List.mem_flatMap, List.mem_map, Ranked.mk.injEq]
  constructor
  · rintro ⟨⟨height, ids⟩, entry, other, member, rfl, rfl⟩
    have found := OrderedMap.get?_of_mem entry
    rw [tier, found]
    exact member
  · intro member
    cases found : tiers.groups.get? ⟨score⟩ with
    | none =>
        rw [tier, found] at member
        cases member
    | some ids =>
        rw [tier, found] at member
        exact ⟨_, OrderedMap.get?_eq_some_iff.mp found, id, member, rfl, rfl⟩

/-- Better tiers come first, and the documents of a tier stand in order. -/
theorem ascending_toList (tiers : Tiers) :
    tiers.toList.Pairwise fun first second => compare first second = .lt := by
  rw [toList, List.pairwise_flatMap]
  constructor
  · rintro ⟨height, ids⟩ _
    refine List.pairwise_map.mpr (ids.ascending.imp fun {first second} less => ?_)
    exact compare_eq_lt.mpr (.inr ⟨rfl, Std.compare_eq_lt.mp less⟩)
  · refine tiers.groups.ascending.imp ?_
    rintro ⟨height, ids⟩ ⟨other, others⟩ less first here second there
    obtain ⟨id, -, rfl⟩ := List.mem_map.mp here
    obtain ⟨next, -, rfl⟩ := List.mem_map.mp there
    have scores : compare (-height.score) (-other.score) = .lt := less
    exact compare_eq_lt.mpr (.inl (Int.neg_lt_neg_iff.mp (Std.compare_eq_lt.mp scores)))

/-- The entries as an ordered set. -/
def ranking (tiers : Tiers) : Ranking := ⟨tiers.toList, tiers.ascending_toList⟩

/-- Every entry of a ranking is listed once. -/
theorem nodup_toList (tiers : Tiers) : tiers.toList.Nodup := tiers.ranking.nodup_toList

theorem tier_insert (tiers : Tiers) (score other : Int) (id : DocId) :
    (tiers.insert score id).tier other =
      if other = score then (tiers.tier score).insert id else tiers.tier other := by
  simp only [tier, insert, OrderedMap.get?_insert, Std.LawfulEqOrd.compare_eq_iff_eq,
    Height.mk.injEq]
  split <;> rfl

/-- An insertion adds one entry. -/
theorem mem_toList_insert (tiers : Tiers) (score : Int) (id : DocId) (entry : Ranked) :
    entry ∈ (tiers.insert score id).toList ↔ entry = ⟨score, id⟩ ∨ entry ∈ tiers.toList := by
  obtain ⟨other, document⟩ := entry
  rw [mem_toList, mem_toList, tier_insert]
  split
  next same =>
    subst same
    simp [OrderedSet.mem_insert]
  next different => simp [different]

/-- The tiers take in what the ordered set takes in. -/
theorem ranking_insert (tiers : Tiers) (score : Int) (id : DocId) :
    (tiers.insert score id).ranking = tiers.ranking.insert ⟨score, id⟩ :=
  OrderedSet.ext_mem fun entry =>
    (mem_toList_insert tiers score id entry).trans
      (OrderedSet.mem_insert tiers.ranking ⟨score, id⟩ entry).symm

/-- Tiers that are put together hold what the ordered set of the same entries holds. -/
theorem ranking_ofPairs (pairs : List (Int × DocId)) :
    (ofPairs pairs).ranking = Ranking.ofPairs pairs := by
  have all : ∀ (pairs : List (Int × DocId)) (tiers : Tiers),
      (pairs.foldl (fun tiers pair => tiers.insert pair.1 pair.2) tiers).ranking =
        (pairs.map fun pair => (⟨pair.1, pair.2⟩ : Ranked)).foldl OrderedSet.insert
          tiers.ranking := by
    intro pairs
    induction pairs with
    | nil => exact fun _ => rfl
    | cons pair rest ih =>
        intro tiers
        rw [List.foldl_cons, ih, ranking_insert]
        rfl
  exact all pairs empty

/-- The ranking of pairs has these entries and no others. -/
theorem mem_toList_ofPairs (pairs : List (Int × DocId)) (entry : Ranked) :
    entry ∈ (ofPairs pairs).toList ↔ (entry.score, entry.id) ∈ pairs := by
  show entry ∈ (ofPairs pairs).ranking.toList ↔ _
  rw [ranking_ofPairs, Ranking.ofPairs, OrderedSet.mem_ofList, List.mem_map]
  cases entry
  simp

/-- No tier is without documents, and the entries have been counted. -/
structure IsSound (tiers : Tiers) : Prop where
  filled : ∀ height ids, tiers.groups.get? height = some ids → ids.toList ≠ []
  counted : tiers.size = tiers.toList.length

theorem isSound_empty : empty.IsSound where
  filled _ _ found := by cases found
  counted := rfl

namespace IsSound

/-- Inserting keeps tiers sound. -/
theorem insert (sound : tiers.IsSound) (score : Int) (id : DocId) :
    (tiers.insert score id).IsSound := by
  constructor
  case filled =>
    intro height ids found
    have put : (tiers.insert score id).groups.get? height =
        if compare height ⟨score⟩ = .eq then some ((tiers.tier score).insert id)
        else tiers.groups.get? height := OrderedMap.get?_insert ..
    rw [put] at found
    split at found
    next =>
      cases found
      exact List.ne_nil_of_mem ((OrderedSet.mem_insert ..).mpr (.inl rfl))
    next => exact sound.filled height ids found
  case counted =>
    have size : (tiers.insert score id).size =
        if (tiers.tier score).contains id then tiers.size else tiers.size + 1 := rfl
    by_cases known : (tiers.tier score).contains id = true
    · have there : ⟨score, id⟩ ∈ tiers.toList :=
        mem_toList.mpr ((OrderedSet.contains_iff ..).mp known)
      have same : (tiers.insert score id).ranking = tiers.ranking :=
        OrderedSet.ext_mem fun entry => (mem_toList_insert tiers score id entry).trans
          (or_iff_right_of_imp fun equal => equal ▸ there)
      have entries : (tiers.insert score id).toList = tiers.toList :=
        congrArg OrderedSet.toList same
      rw [size, if_pos known, sound.counted, entries]
    · have fresh : ⟨score, id⟩ ∉ tiers.toList := fun there =>
        known ((OrderedSet.contains_iff ..).mpr (mem_toList.mp there))
      have perm : (tiers.insert score id).toList.Perm (⟨score, id⟩ :: tiers.toList) :=
        (List.perm_ext_iff_of_nodup (nodup_toList _)
          (List.nodup_cons.mpr ⟨fresh, nodup_toList tiers⟩)).mpr fun entry => by
            rw [mem_toList_insert, List.mem_cons]
      rw [size, if_neg known, sound.counted, perm.length_eq, List.length_cons]

/-- The tiers of pairs are sound. -/
theorem ofPairs (pairs : List (Int × DocId)) : (ofPairs pairs).IsSound := by
  have all : ∀ (pairs : List (Int × DocId)) (tiers : Tiers), tiers.IsSound →
      (pairs.foldl (fun tiers pair => tiers.insert pair.1 pair.2) tiers).IsSound := by
    intro pairs
    induction pairs with
    | nil => exact fun _ sound => sound
    | cons pair rest ih => exact fun tiers sound => ih _ (sound.insert pair.1 pair.2)
  exact all pairs empty isSound_empty

/-- Truncating keeps tiers sound. -/
theorem truncate (sound : tiers.IsSound) (count : Nat) : (tiers.truncate count).IsSound := by
  unfold Tiers.truncate
  split
  next => exact sound
  next => exact ofPairs _

/-- Tiers are cut where the ordered set is cut. -/
theorem ranking_truncate (sound : tiers.IsSound) (count : Nat) :
    (tiers.truncate count).ranking = tiers.ranking.truncate count := by
  unfold Tiers.truncate
  split
  next few =>
    have all : tiers.toList.take count = tiers.toList :=
      List.take_of_length_le (sound.counted ▸ few)
    exact OrderedSet.ext all.symm
  next =>
    have first := tiers.ascending_toList.sublist (List.take_sublist count tiers.toList)
    have same : (fun pair : Int × DocId => (⟨pair.1, pair.2⟩ : Ranked)) ∘
        (fun entry : Ranked => (entry.score, entry.id)) = id := rfl
    rw [ranking_ofPairs, Ranking.ofPairs, List.map_map, same, List.map_id]
    exact OrderedSet.ext (OrderedSet.toList_ofList first)

/-- What is left of the tiers is the first part of the entries. -/
theorem toList_truncate (sound : tiers.IsSound) (count : Nat) :
    (tiers.truncate count).toList = tiers.toList.take count :=
  congrArg OrderedSet.toList (sound.ranking_truncate count)

theorem get?_eq (sound : tiers.IsSound) (score : Int) :
    tiers.groups.get? ⟨score⟩ =
      if (tiers.tier score).toList = [] then none else some (tiers.tier score) := by
  cases found : tiers.groups.get? ⟨score⟩ with
  | none =>
      have blank : (tiers.tier score).toList = [] := by
        rw [tier, found]
        rfl
      rw [if_pos blank]
  | some ids =>
      have here : tiers.tier score = ids := by
        rw [tier, found]
        rfl
      rw [here, if_neg (sound.filled _ _ found)]

/-- Sound tiers with the same entries are the same tiers. -/
theorem ext_toList {first second : Tiers} (left : first.IsSound) (right : second.IsSound)
    (same : first.toList = second.toList) : first = second := by
  have tier (score : Int) : first.tier score = second.tier score :=
    OrderedSet.ext_mem fun id => by rw [← mem_toList, ← mem_toList, same]
  have groups : first.groups = second.groups :=
    OrderedMap.ext_get? fun height => by rw [left.get?_eq, right.get?_eq, tier]
  have sizes : first.size = second.size := by rw [left.counted, right.counted, same]
  cases first
  cases second
  rw [Tiers.mk.injEq]
  exact ⟨groups, sizes⟩

/-- Sound tiers are decided by what stands in them. -/
theorem ext_mem {first second : Tiers} (left : first.IsSound) (right : second.IsSound)
    (same : ∀ entry, entry ∈ first.toList ↔ entry ∈ second.toList) : first = second := by
  have ranks : first.ranking = second.ranking := OrderedSet.ext_mem same
  exact left.ext_toList right (congrArg OrderedSet.toList ranks)

theorem truncate_truncate (sound : tiers.IsSound) (first second : Nat) :
    (tiers.truncate first).truncate second = tiers.truncate (min first second) := by
  apply ext_toList ((sound.truncate first).truncate second) (sound.truncate _)
  rw [(sound.truncate first).toList_truncate, sound.toList_truncate, sound.toList_truncate,
    List.take_take, Nat.min_comm]

end IsSound

/-- The first entries of a list in order are those with few others before them. -/
theorem mem_take_iff {entries : List Ranked} (sorted : entries.Pairwise precedes) {entry : Ranked}
    (member : entry ∈ entries) (count : Nat) :
    entry ∈ entries.take count ↔ (entries.filter (precedes · entry)).length < count := by
  obtain ⟨before, after, rfl⟩ := List.append_of_mem member
  obtain ⟨-, later, earlier⟩ := List.pairwise_append.mp sorted
  have apart {first second : Ranked} (less : precedes first second) : ¬precedes second first := by
    intro more
    exact Std.OrientedCmp.not_lt_of_lt (compare_eq_lt.mpr less) (compare_eq_lt.mpr more)
  have ahead : (before ++ entry :: after).filter (precedes · entry) = before := by
    have all : before.filter (precedes · entry) = before := by
      rw [List.filter_eq_self]
      intro other there
      exact decide_eq_true (earlier other there entry List.mem_cons_self)
    have none : (entry :: after).filter (precedes · entry) = [] := by
      rw [List.filter_eq_nil_iff]
      intro other there less
      rw [decide_eq_true_iff] at less
      rcases List.mem_cons.mp there with rfl | behind
      · exact apart less less
      · exact apart less ((List.pairwise_cons.mp later).1 other behind)
    rw [List.filter_append, all, none, List.append_nil]
  rw [ahead]
  constructor
  · intro taken
    by_contra! few
    rw [List.take_append_of_le_length few] at taken
    have itself := earlier entry (List.mem_of_mem_take taken) entry List.mem_cons_self
    exact apart itself itself
  · intro many
    obtain ⟨more, rfl⟩ := Nat.exists_eq_add_of_lt many
    rw [List.take_append, Nat.add_assoc, Nat.add_sub_cancel_left, List.take_succ_cons]
    exact List.mem_append_right _ List.mem_cons_self

/-- A change of the tiers. -/
inductive Edit where
  | insert (score : Int) (id : DocId)
  | truncate (count : Nat)

namespace Edit

def apply (tiers : Tiers) : Edit → Tiers
  | insert score id => tiers.insert score id
  | truncate count => tiers.truncate count

/-- The entries that a change leaves of some entries. -/
def leaves (entries : Finset Ranked) : Edit → Finset Ranked
  | insert score id => Insert.insert ⟨score, id⟩ entries
  | truncate count => entries.filter fun entry => (entries.filter (precedes · entry)).card < count

end Edit

/-- Tiers after changes of those that were put together first. -/
def run (pairs : List (Int × DocId)) (edits : List Edit) : Tiers :=
  edits.foldl Edit.apply (ofPairs pairs)

/-- The entries after changes. -/
def entriesAfter (pairs : List (Int × DocId)) (edits : List Edit) : Finset Ranked :=
  edits.foldl Edit.leaves (pairs.map fun pair => ⟨pair.1, pair.2⟩).toFinset

theorem pairwise_toList (tiers : Tiers) : tiers.toList.Pairwise precedes :=
  tiers.ascending_toList.imp compare_eq_lt.mp

/-- Sound tiers hold some entries. -/
structure Holds (tiers : Tiers) (entries : Finset Ranked) : Prop where
  sound : tiers.IsSound
  toFinset_eq : tiers.toList.toFinset = entries

theorem holds_ofPairs (pairs : List (Int × DocId)) :
    (ofPairs pairs).Holds (pairs.map fun pair => ⟨pair.1, pair.2⟩).toFinset where
  sound := .ofPairs pairs
  toFinset_eq := by
    ext ⟨score, id⟩
    rw [List.mem_toFinset, mem_toList_ofPairs, List.mem_toFinset, List.mem_map]
    simp

/-- One change of the tiers is that of their entries. -/
theorem Holds.step {entries : Finset Ranked} (holds : tiers.Holds entries) (edit : Edit) :
    (edit.apply tiers).Holds (edit.leaves entries) := by
  obtain ⟨sound, rfl⟩ := holds
  cases edit with
  | insert score id =>
      refine ⟨sound.insert score id, ?_⟩
      ext entry
      rw [Edit.apply, Edit.leaves, List.mem_toFinset, mem_toList_insert, Finset.mem_insert,
        List.mem_toFinset]
  | truncate count =>
      refine ⟨sound.truncate count, ?_⟩
      ext entry
      have counted : (tiers.toList.toFinset.filter (precedes · entry)).card =
          (tiers.toList.filter (precedes · entry)).length := by
        rw [← List.toFinset_card_of_nodup (tiers.nodup_toList.filter _)]
        congr 1
        ext other
        simp
      rw [Edit.apply, Edit.leaves, List.mem_toFinset, sound.toList_truncate, Finset.mem_filter,
        List.mem_toFinset, counted]
      constructor
      · intro taken
        have member := List.mem_of_mem_take taken
        exact ⟨member, (mem_take_iff tiers.pairwise_toList member count).mp taken⟩
      · rintro ⟨member, few⟩
        exact (mem_take_iff tiers.pairwise_toList member count).mpr few

theorem holds_run (pairs : List (Int × DocId)) (edits : List Edit) :
    (run pairs edits).Holds (entriesAfter pairs edits) := by
  induction edits using List.reverseRecOn with
  | nil => exact holds_ofPairs pairs
  | append_singleton edits edit ih =>
      rw [run, entriesAfter, List.foldl_concat, List.foldl_concat]
      exact ih.step edit

/-- After any changes the tiers list the entries that are left in the order of the ranks, each of them
once, and have counted them; no tier is empty. Cutting them keeps the first entries, and tiers are
equal when they list the same entries, whatever came before. -/
theorem sorted_of_edits (pairs : List (Int × DocId)) (edits : List Edit) :
    let tiers := run pairs edits
    tiers.toList.Pairwise precedes ∧
    (∀ entry, entry ∈ tiers.toList ↔ entry ∈ entriesAfter pairs edits) ∧
    tiers.size = tiers.toList.length ∧ (∀ ids ∈ tiers.groups.values, ids.toList ≠ []) ∧
    (∀ count, (tiers.truncate count).toList = tiers.toList.take count) ∧
    (∀ first second, (tiers.truncate first).truncate second = tiers.truncate (min first second)) ∧
    ∀ others changes, (tiers = run others changes ↔ tiers.toList = (run others changes).toList) ∧
      (tiers = run others changes ↔ entriesAfter pairs edits = entriesAfter others changes) := by
  intro tiers
  obtain ⟨sound, held⟩ := holds_run pairs edits
  refine ⟨tiers.pairwise_toList, fun entry => by rw [← held, List.mem_toFinset], sound.counted, ?_,
    sound.toList_truncate, sound.truncate_truncate, fun others changes => ⟨?_, ?_⟩⟩
  · intro ids member
    obtain ⟨⟨height, _⟩, entry, rfl⟩ := List.mem_map.mp member
    exact sound.filled height _ (OrderedMap.get?_of_mem entry)
  · exact ⟨congrArg toList, sound.ext_toList (holds_run others changes).sound⟩
  · obtain ⟨other, there⟩ := holds_run others changes
    rw [← held, ← there]
    refine ⟨congrArg fun tiers : Tiers => tiers.toList.toFinset, fun same => sound.ext_mem other ?_⟩
    intro entry
    rw [← List.mem_toFinset, same, List.mem_toFinset]

/-- A cut through a tier keeps the lower numbers of it. -/
example : (run [(5, 3), (9, 7), (5, 1)] [.truncate 2, .insert 5 1]).toList = [⟨9, 7⟩, ⟨5, 1⟩] := by
  decide

end Tiers
end Concordance
