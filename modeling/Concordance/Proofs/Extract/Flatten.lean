import Concordance.Proofs.Extract.Leaves
import Concordance.Proofs.Extract.Values
import Concordance.Proofs.Ordered.Map
import Concordance.Proofs.Text.Split

/-! The metadata of a JSON document is told by its leaves. -/
namespace Concordance

/-- No part of a name between two dots, or between a dot and an end, is empty. -/
def HasNoGap (name : String) : Prop := ∀ start, ¬Text.IsPiece (· == '.') name.toList start []

/-- A name is one of a key where it has no gap. -/
theorem isDotted_iff {name : String} : isDotted name = true ↔ HasNoGap name := by
  rw [isDotted, List.all_eq_true]
  constructor
  · intro filled start part
    obtain ⟨before, after, split, -⟩ := Text.pieces_of_isPiece part
    have inside : [] ∈ Text.pieces (· == '.') name.toList := by simp [split]
    simpa using filled [] inside
  · intro gapless piece member
    cases piece with
    | cons => rfl
    | nil =>
        obtain ⟨before, after, split⟩ := List.append_of_mem member
        exact absurd (Text.isPiece_of_pieces split) (gapless _)

theorem Key.eq_of_name {first second : Key} (same : first.name = second.name) : first = second := by
  cases first
  cases second
  cases same
  rfl

namespace Extract

/-- The names on a way with dots between them. -/
def joinedName (path : List String) : String := ".".intercalate path

theorem toList_joinedName (path : List String) :
    (joinedName path).toList = Text.join ['.'] (path.map String.toList) := by
  induction path with
  | nil => rfl
  | cons name rest ih =>
      cases rest with
      | nil => simp [joinedName, Text.join]
      | cons next more =>
          rw [joinedName] at ih ⊢
          rw [String.intercalate_cons_cons, String.toList_append, String.toList_append, ih,
            List.map_cons (l := next :: more), Text.join_cons _ _ (by simp)]
          rfl

theorem parse_eq_ok {name : String} {key : Key} : Key.parse name = .ok key ↔ key.name = name := by
  rw [Key.parse, Key.ofName?]
  constructor
  · intro made
    split at made
    next found =>
      split at found
      next => cases found; cases made; rfl
      next => cases found
    next => cases made
  · rintro rfl
    rw [dif_pos key.dotted]

/-- Segments make a key where their joined name is one. -/
theorem ofSegments_eq_ok {path : List String} {key : Key} :
    Key.ofSegments path = .ok key ↔ key.name = joinedName path := by
  rw [Key.ofSegments, ← toList_joinedName, String.ofList_toList, parse_eq_ok]

/-- A leaf is filed under its joined name as the value that it stands for. -/
structure Files (leaf : Leaf) (entry : Key × Value) : Prop where
  name : entry.1.name = joinedName leaf.path
  value : FiledAs spelling leaf.node entry.2

/-- Filing a leaf puts its entry into the metadata. -/
theorem fileLeaf_eq_ok {leaf : Leaf} (named : leaf.path ≠ []) {metadata after : Metadata} :
    fileLeaf [] metadata leaf = .ok after ↔
      ∃ entry, Files leaf entry ∧ metadata.insert entry.1 entry.2 = after := by
  have present : leaf.path.isEmpty = false := by simpa using named
  rw [fileLeaf, List.nil_append, file, present, if_neg Bool.false_ne_true]
  constructor
  · intro filed
    cases key : Key.ofSegments leaf.path with
    | error fault =>
        rw [key] at filed
        cases filed
    | ok key' =>
        cases value : valueOf leaf.node with
        | error fault =>
            rw [key, value] at filed
            cases filed
        | ok value' =>
            rw [key, value] at filed
            cases filed
            exact ⟨(key', value'), ⟨ofSegments_eq_ok.mp key, valueOf_eq_ok.mp value⟩, rfl⟩
  · rintro ⟨⟨key, value⟩, ⟨name, told⟩, rfl⟩
    rw [ofSegments_eq_ok.mpr name, valueOf_eq_ok.mpr told]
    rfl

/-- Filing leaves one after another puts their entries into the metadata. -/
theorem foldlM_fileLeaf {list : List Leaf} (named : ∀ leaf ∈ list, leaf.path ≠ [])
    {metadata after : Metadata} :
    list.foldlM (fileLeaf []) metadata = .ok after ↔ ∃ entries, List.Forall₂ Files list entries ∧
      entries.foldl (fun metadata entry => metadata.insert entry.1 entry.2) metadata = after := by
  induction list generalizing metadata with
  | nil =>
      constructor
      · intro done
        cases done
        exact ⟨[], .nil, rfl⟩
      · rintro ⟨entries, filed, rfl⟩
        cases filed
        rfl
  | cons leaf rest ih =>
      obtain ⟨head, tail⟩ := List.forall_mem_cons.mp named
      rw [List.foldlM_cons]
      constructor
      · intro done
        cases first : fileLeaf [] metadata leaf with
        | error fault =>
            rw [first] at done
            cases done
        | ok next =>
            rw [first] at done
            obtain ⟨entry, files, rfl⟩ := (fileLeaf_eq_ok head).mp first
            obtain ⟨entries, filed, rfl⟩ := (ih tail).mp done
            exact ⟨entry :: entries, .cons files filed, rfl⟩
      · rintro ⟨entries, filed, rfl⟩
        cases filed with
        | @cons _ entry _ entries files filed =>
            rw [(fileLeaf_eq_ok head).mpr ⟨entry, files, rfl⟩]
            exact (ih tail).mpr ⟨entries, filed, rfl⟩

/-- The metadata of a document is the map of the entries of its leaves, in their order. -/
theorem flatten_eq_ok {document : Json} {metadata : Metadata} :
    flatten document = .ok metadata ↔
      ∃ entries, List.Forall₂ Files (leaves document) entries ∧ .ofList entries = metadata := by
  rw [flatten_eq]
  exact foldlM_fileLeaf fun leaf member => (mem_leaves.mp member).named

section Lists

variable {α β : Type} {Related : α → β → Prop}

/-- Two lists that are related element by element are so on both sides of any of them. -/
theorem exists_split_of_forall₂ {first : List α} {before after : List β} {element : β}
    (all : List.Forall₂ Related first (before ++ element :: after)) :
    ∃ front other back, first = front ++ other :: back ∧ Related other element ∧
      List.Forall₂ Related back after := by
  have later := List.forall₂_drop_append first before (element :: after) all
  obtain ⟨other, back, related, rest, split⟩ := List.forall₂_cons_right_iff.mp later
  refine ⟨first.take before.length, other, back, ?_, related, rest⟩
  rw [← split, List.take_append_drop]

theorem exists_of_forall₂ {first : List α} {second : List β}
    (all : List.Forall₂ Related first second) {element : β} (member : element ∈ second) :
    ∃ other ∈ first, Related other element := by
  obtain ⟨before, after, rfl⟩ := List.append_of_mem member
  obtain ⟨front, other, back, rfl, related, -⟩ := exists_split_of_forall₂ all
  exact ⟨other, by simp, related⟩

theorem exists_forall₂ {first : List α} (each : ∀ element ∈ first, ∃ other, Related element other) :
    ∃ second, List.Forall₂ Related first second := by
  induction first with
  | nil => exact ⟨[], .nil⟩
  | cons head rest ih =>
      obtain ⟨found, later⟩ := List.forall_mem_cons.mp each
      obtain ⟨other, related⟩ := found
      obtain ⟨others, all⟩ := ih later
      exact ⟨other :: others, .cons related all⟩

end Lists

/-- Of the leaves of a document with one joined name none comes after this one. -/
structure IsLast (document : Json) (name : String) (leaf : Leaf) : Prop where
  isLeaf : IsLeafOf document leaf
  joined : joinedName leaf.path = name
  last : ∀ other, IsLeafOf document other → joinedName other.path = name →
    ¬leaf.place < other.place

theorem isLast_iff {document : Json} {name : String} {leaf : Leaf} :
    IsLast document name leaf ↔ joinedName leaf.path = name ∧ ∃ before after,
      leaves document = before ++ leaf :: after ∧
        ∀ other ∈ after, joinedName other.path ≠ name := by
  constructor
  · rintro ⟨isLeaf, joined, last⟩
    obtain ⟨before, after, split⟩ := List.append_of_mem (mem_leaves.mpr isLeaf)
    refine ⟨joined, before, after, split, ?_⟩
    intro other later same
    have sorted := pairwise_leaves document
    rw [split, List.pairwise_append, List.pairwise_cons] at sorted
    have inside : other ∈ leaves document := by simp [split, later]
    exact last other (mem_leaves.mp inside) same (sorted.2.1.1 other later)
  · rintro ⟨joined, before, after, split, apart⟩
    have inside : leaf ∈ leaves document := by simp [split]
    refine ⟨mem_leaves.mp inside, joined, ?_⟩
    intro other isLeaf same less
    have sorted := pairwise_leaves document
    have member := mem_leaves.mpr isLeaf
    rw [split, List.pairwise_append] at sorted
    rw [split] at member
    rcases List.mem_append.mp member with earlier | later
    · have order := sorted.2.2 other earlier leaf List.mem_cons_self
      exact absurd (List.lt_trans order less) (List.lt_irrefl _)
    · rcases List.mem_cons.mp later with rfl | later
      · exact absurd less (List.lt_irrefl _)
      · exact apart other later same

/-- A document is filed where each of its leaves is. -/
theorem exists_flatten_iff {document : Json} :
    (∃ metadata, flatten document = .ok metadata) ↔ ∀ leaf, IsLeafOf document leaf →
      HasNoGap (joinedName leaf.path) ∧ IsFileable leaf.node := by
  constructor
  · rintro ⟨metadata, flat⟩ leaf isLeaf
    obtain ⟨entries, filed, -⟩ := flatten_eq_ok.mp flat
    obtain ⟨entry, -, files⟩ := exists_of_forall₂ filed.flip (mem_leaves.mpr isLeaf)
    exact ⟨files.name ▸ isDotted_iff.mp entry.1.dotted, files.value.isFileable⟩
  · intro each
    have entries : ∃ entries, List.Forall₂ Files (leaves document) entries := by
      apply exists_forall₂
      intro leaf member
      obtain ⟨gapless, fileable⟩ := each leaf (mem_leaves.mp member)
      obtain ⟨value, told⟩ := exists_filedAs spelling fileable
      exact ⟨(⟨joinedName leaf.path, isDotted_iff.mpr gapless⟩, value), rfl, told⟩
    obtain ⟨entries, filed⟩ := entries
    exact ⟨_, flatten_eq_ok.mpr ⟨entries, filed, rfl⟩⟩

/-- The keys of the metadata are the joined names of the leaves. -/
theorem mem_keys_of_flatten {document : Json} {metadata : Metadata}
    (flat : flatten document = .ok metadata) {key : Key} :
    key ∈ metadata.keys ↔ ∃ leaf, IsLeafOf document leaf ∧ joinedName leaf.path = key.name := by
  obtain ⟨entries, filed, rfl⟩ := flatten_eq_ok.mp flat
  rw [OrderedMap.mem_keys_ofList, List.mem_map]
  constructor
  · rintro ⟨entry, member, rfl⟩
    obtain ⟨leaf, inside, files⟩ := exists_of_forall₂ filed member
    exact ⟨leaf, mem_leaves.mp inside, files.name.symm⟩
  · rintro ⟨leaf, isLeaf, joined⟩
    obtain ⟨entry, member, files⟩ := exists_of_forall₂ filed.flip (mem_leaves.mpr isLeaf)
    exact ⟨entry, member, Key.eq_of_name (files.name.trans joined)⟩

/-- Under a name stands what the last leaf of the name is filed as. -/
theorem get?_of_flatten {document : Json} {metadata : Metadata}
    (flat : flatten document = .ok metadata) {key : Key} {value : Value} :
    metadata.get? key = some value ↔
      ∃ leaf, IsLast document key.name leaf ∧ FiledAs spelling leaf.node value := by
  obtain ⟨entries, filed, rfl⟩ := flatten_eq_ok.mp flat
  rw [OrderedMap.get?_ofList]
  constructor
  · rintro ⟨before, after, rfl, apart⟩
    obtain ⟨front, leaf, back, split, files, later⟩ := exists_split_of_forall₂ filed
    refine ⟨leaf, isLast_iff.mpr ⟨files.name.symm, front, back, split, ?_⟩, files.value⟩
    intro other member same
    obtain ⟨entry, inside, told⟩ := exists_of_forall₂ later.flip member
    exact apart entry inside (Key.eq_of_name (told.name.trans same))
  · rintro ⟨leaf, last, told⟩
    obtain ⟨joined, front, back, split, apart⟩ := isLast_iff.mp last
    rw [split] at filed
    obtain ⟨before, entry, after, rfl, files, later⟩ := exists_split_of_forall₂ filed.flip
    have sameValue := (valueOf_of_filedAs files.value).symm.trans (valueOf_of_filedAs told)
    obtain ⟨here, held⟩ := entry
    obtain rfl : here = key := Key.eq_of_name (files.name.trans joined)
    cases sameValue
    refine ⟨before, after, rfl, ?_⟩
    intro other member same
    obtain ⟨next, inside, files⟩ := exists_of_forall₂ later.flip member
    exact apart next inside (files.name.symm.trans (congrArg Key.name same))

end Extract
end Concordance
