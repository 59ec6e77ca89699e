import Concordance.Extract.Flatten
import Mathlib.Data.List.Basic

/-! The leaves of a JSON document, each with the names on the way to it. -/
namespace Concordance.Extract

namespace Json

/-- Other nodes are filed below an object and below an array with an object among its items. -/
def hasBranches : Json → Bool
  | object _ => true
  | array items => items.any isObject
  | _ => false

/-- What holds of a document whenever it holds of all fields or items of it holds of every one. -/
theorem induction {Holds : Json → Prop}
    (object : ∀ fields, (∀ field ∈ fields, Holds field.2) → Holds (.object fields))
    (array : ∀ items, (∀ item ∈ items, Holds item) → Holds (.array items))
    (null : Holds .null) (bool : ∀ value, Holds (.bool value))
    (number : ∀ value, Holds (.number value)) (string : ∀ value, Holds (.string value)) :
    ∀ document, Holds document
  | .object fields => object fields fun field member =>
      have : sizeOf field.2 < sizeOf fields := by
        have small := List.sizeOf_lt_of_mem member
        obtain ⟨name, child⟩ := field
        simp only [Prod.mk.sizeOf_spec] at small
        show sizeOf child < _
        omega
      induction object array null bool number string field.2
  | .array items => array items fun item member =>
      have := List.sizeOf_lt_of_mem member
      induction object array null bool number string item
  | .null => null
  | .bool value => bool value
  | .number value => number value
  | .string value => string value

end Json

/-- The name of the item with an index. -/
def indexName (index : Nat) : String := String.ofList (Number.decimalDigits index)

/-- A node with the names on the way to it. Its place tells at each step of the way how many fields
or items come before the one that is taken. -/
structure Leaf where
  place : List Nat
  path : List String
  node : Json

/-- A leaf of a child as one of the parent. -/
def Leaf.below (index : Nat) (name : String) (leaf : Leaf) : Leaf :=
  ⟨index :: leaf.place, name :: leaf.path, leaf.node⟩

/-- From a document a way leads to a node: through fields of objects, and through those items of
arrays that are objects. -/
inductive Reaches : Json → Leaf → Prop where
  | here (document : Json) : Reaches document ⟨[], [], document⟩
  | field {fields : List (String × Json)} {index : Nat} {name : String} {child : Json} {leaf : Leaf}
      (found : fields[index]? = some (name, child)) (onward : Reaches child leaf) :
      Reaches (.object fields) (leaf.below index name)
  | item {items : List Json} {index : Nat} {item : Json} {leaf : Leaf}
      (found : items[index]? = some item) (inner : item.isObject = true)
      (onward : Reaches item leaf) : Reaches (.array items) (leaf.below index (indexName index))

/-- A node that a way of at least one step leads to and below which nothing else is filed. -/
structure IsLeafOf (document : Json) (leaf : Leaf) : Prop where
  reached : Reaches document leaf
  bare : leaf.node.hasBranches = false
  named : leaf.path ≠ []

mutual

/-- The nodes at the ends of all ways, in the order in which they are come to. -/
def ends : Json → List Leaf
  | .object fields => endsOfFields 0 fields
  | .array items =>
      if items.any Json.isObject then endsOfItems 0 items else [⟨[], [], .array items⟩]
  | node => [⟨[], [], node⟩]

def endsOfFields (index : Nat) : List (String × Json) → List Leaf
  | [] => []
  | (name, child) :: rest =>
      (ends child).map (Leaf.below index name) ++ endsOfFields (index + 1) rest

def endsOfItems (index : Nat) : List Json → List Leaf
  | [] => []
  | item :: rest =>
      (if item.isObject then (ends item).map (Leaf.below index (indexName index)) else []) ++
        endsOfItems (index + 1) rest

end

/-- The leaves of a document in the order in which they are come to. A document that is a single
value has none. -/
def leaves (document : Json) : List Leaf := (ends document).filter fun leaf => !leaf.path.isEmpty

section Listing

theorem mem_endsOfFields {index : Nat} {fields : List (String × Json)} {leaf : Leaf} :
    leaf ∈ endsOfFields index fields ↔ ∃ later name child inner,
      fields[later]? = some (name, child) ∧ inner ∈ ends child ∧
        inner.below (index + later) name = leaf := by
  induction fields generalizing index with
  | nil => simp [endsOfFields]
  | cons field rest ih =>
      obtain ⟨name, child⟩ := field
      rw [endsOfFields, List.mem_append, List.mem_map, ih]
      constructor
      · rintro (⟨inner, member, rfl⟩ | ⟨later, other, next, inner, found, member, rfl⟩)
        · exact ⟨0, name, child, inner, rfl, member, rfl⟩
        · exact ⟨later + 1, other, next, inner, found, member, by
            rw [Nat.add_right_comm, Nat.add_assoc]⟩
      · rintro ⟨later, other, next, inner, found, member, rfl⟩
        cases later with
        | zero =>
            cases found
            exact .inl ⟨inner, member, rfl⟩
        | succ later =>
            exact .inr ⟨later, other, next, inner, found, member, by
              rw [Nat.add_right_comm, Nat.add_assoc]⟩

theorem mem_endsOfItems {index : Nat} {items : List Json} {leaf : Leaf} :
    leaf ∈ endsOfItems index items ↔ ∃ later item inner,
      items[later]? = some item ∧ item.isObject = true ∧ inner ∈ ends item ∧
        inner.below (index + later) (indexName (index + later)) = leaf := by
  induction items generalizing index with
  | nil => simp [endsOfItems]
  | cons item rest ih =>
      rw [endsOfItems, List.mem_append, ih]
      constructor
      · rintro (here | ⟨later, next, inner, found, object, member, rfl⟩)
        · split at here
          next object =>
            obtain ⟨inner, member, rfl⟩ := List.mem_map.mp here
            exact ⟨0, item, inner, rfl, object, member, rfl⟩
          next => cases here
        · exact ⟨later + 1, next, inner, found, object, member, by
            rw [Nat.add_right_comm, Nat.add_assoc]⟩
      · rintro ⟨later, next, inner, found, object, member, rfl⟩
        cases later with
        | zero =>
            cases found
            rw [if_pos object]
            exact .inl (List.mem_map_of_mem member)
        | succ later =>
            exact .inr ⟨later, next, inner, found, object, member, by
              rw [Nat.add_right_comm, Nat.add_assoc]⟩

/-- The ends are the nodes without branches that a way leads to. -/
theorem mem_ends {document : Json} {leaf : Leaf} :
    leaf ∈ ends document ↔ Reaches document leaf ∧ leaf.node.hasBranches = false := by
  induction document using Json.induction generalizing leaf with
  | object fields ih =>
      rw [ends, mem_endsOfFields]
      constructor
      · rintro ⟨later, name, child, inner, found, member, rfl⟩
        obtain ⟨reached, bare⟩ := (ih _ (List.mem_of_getElem? found)).mp member
        rw [Nat.zero_add]
        exact ⟨.field found reached, bare⟩
      · rintro ⟨reached, bare⟩
        cases reached with
        | here => cases bare
        | @field _ index name child inner found onward =>
            refine ⟨index, name, child, inner, found, ?_, by rw [Nat.zero_add]⟩
            exact (ih _ (List.mem_of_getElem? found)).mpr ⟨onward, bare⟩
  | array items ih =>
      rw [ends]
      split
      next branches =>
        rw [mem_endsOfItems]
        constructor
        · rintro ⟨later, item, inner, found, object, member, rfl⟩
          obtain ⟨reached, bare⟩ := (ih _ (List.mem_of_getElem? found)).mp member
          rw [Nat.zero_add]
          exact ⟨.item found object reached, bare⟩
        · rintro ⟨reached, bare⟩
          cases reached with
          | here =>
              rw [Json.hasBranches, branches] at bare
              cases bare
          | @item _ index item inner found object onward =>
              refine ⟨index, item, inner, found, object, ?_, by rw [Nat.zero_add]⟩
              exact (ih _ (List.mem_of_getElem? found)).mpr ⟨onward, bare⟩
      next plain =>
        rw [List.mem_singleton]
        constructor
        · rintro rfl
          exact ⟨.here _, Bool.eq_false_iff.mpr plain⟩
        · rintro ⟨reached, -⟩
          cases reached with
          | here => rfl
          | item found object onward =>
              exact absurd (List.any_eq_true.mpr ⟨_, List.mem_of_getElem? found, object⟩) plain
  | null | bool | number | string =>
      simp only [ends, List.mem_singleton]
      constructor
      · rintro rfl
        exact ⟨.here _, rfl⟩
      · rintro ⟨reached, -⟩
        cases reached
        rfl

/-- The leaves that are listed are those of the document. -/
theorem mem_leaves {document : Json} {leaf : Leaf} :
    leaf ∈ leaves document ↔ IsLeafOf document leaf := by
  rw [leaves, List.mem_filter, mem_ends]
  constructor
  · rintro ⟨⟨reached, bare⟩, named⟩
    exact ⟨reached, bare, by simpa using named⟩
  · rintro ⟨reached, bare, named⟩
    exact ⟨⟨reached, bare⟩, by simpa using named⟩

theorem place_lt_below {index : Nat} {name other : String} {first second : Leaf}
    (less : first.place < second.place) :
    (first.below index name).place < (second.below index other).place :=
  List.cons_lt_cons_iff.mpr (.inr ⟨rfl, less⟩)

theorem pairwise_below {index : Nat} {name : String} {list : List Leaf}
    (sorted : list.Pairwise fun first second => first.place < second.place) :
    (list.map (Leaf.below index name)).Pairwise fun first second => first.place < second.place :=
  List.pairwise_map.mpr (sorted.imp place_lt_below)

theorem pairwise_endsOfFields {index : Nat} {fields : List (String × Json)}
    (each : ∀ field ∈ fields,
      (ends field.2).Pairwise fun first second => first.place < second.place) :
    (endsOfFields index fields).Pairwise fun first second => first.place < second.place := by
  induction fields generalizing index with
  | nil => exact .nil
  | cons field rest ih =>
      obtain ⟨head, tail⟩ := List.forall_mem_cons.mp each
      rw [endsOfFields, List.pairwise_append]
      refine ⟨pairwise_below head, ih tail, ?_⟩
      intro first here second later
      obtain ⟨before, -, rfl⟩ := List.mem_map.mp here
      obtain ⟨next, name, child, after, -, -, rfl⟩ := mem_endsOfFields.mp later
      exact List.cons_lt_cons_iff.mpr (.inl (by omega))

theorem pairwise_endsOfItems {index : Nat} {items : List Json}
    (each : ∀ item ∈ items,
      (ends item).Pairwise fun first second => first.place < second.place) :
    (endsOfItems index items).Pairwise fun first second => first.place < second.place := by
  induction items generalizing index with
  | nil => exact .nil
  | cons item rest ih =>
      obtain ⟨head, tail⟩ := List.forall_mem_cons.mp each
      rw [endsOfItems, List.pairwise_append]
      refine ⟨?_, ih tail, ?_⟩
      · split
        next => exact pairwise_below head
        next => exact .nil
      · intro first here second later
        obtain ⟨next, other, after, -, -, -, rfl⟩ := mem_endsOfItems.mp later
        split at here
        next =>
          obtain ⟨before, -, rfl⟩ := List.mem_map.mp here
          exact List.cons_lt_cons_iff.mpr (.inl (by omega))
        next => cases here

/-- Leaves are listed in the order of their places. -/
theorem pairwise_ends (document : Json) :
    (ends document).Pairwise fun first second => first.place < second.place := by
  induction document using Json.induction with
  | object fields ih => exact pairwise_endsOfFields ih
  | array items ih =>
      rw [ends]
      split
      next => exact pairwise_endsOfItems ih
      next => exact List.pairwise_singleton _ _
  | null | bool | number | string => exact List.pairwise_singleton _ _

/-- The leaves are listed by their places, those of an earlier field or item before later ones. -/
theorem pairwise_leaves (document : Json) :
    (leaves document).Pairwise fun first second => first.place < second.place :=
  (pairwise_ends document).sublist List.filter_sublist

end Listing

section Filing

/-- Filing a leaf under the names on the way to it. -/
def fileLeaf (path : List String) (metadata : Metadata) (leaf : Leaf) : Except Fault Metadata :=
  file (path ++ leaf.path) leaf.node metadata

theorem fileLeaf_below (path : List String) (index : Nat) (name : String) (metadata : Metadata)
    (leaf : Leaf) :
    fileLeaf path metadata (leaf.below index name) = fileLeaf (path ++ [name]) metadata leaf := by
  rw [fileLeaf, fileLeaf, Leaf.below, List.append_assoc, List.singleton_append]

theorem foldlM_below (path : List String) (index : Nat) (name : String) (list : List Leaf)
    (metadata : Metadata) :
    (list.map (Leaf.below index name)).foldlM (fileLeaf path) metadata =
      list.foldlM (fileLeaf (path ++ [name])) metadata := by
  rw [List.foldlM_map]
  simp only [fileLeaf_below]

/-- Going through fields files the leaves in them. -/
theorem flattenFields_eq {fields : List (String × Json)}
    (each : ∀ field ∈ fields, ∀ path metadata,
      flattenInto path metadata field.2 = (ends field.2).foldlM (fileLeaf path) metadata)
    (index : Nat) (path : List String) (metadata : Metadata) :
    flattenFields path metadata fields =
      (endsOfFields index fields).foldlM (fileLeaf path) metadata := by
  induction fields generalizing index metadata with
  | nil => rfl
  | cons field rest ih =>
      obtain ⟨head, tail⟩ := List.forall_mem_cons.mp each
      rw [endsOfFields, List.foldlM_append, foldlM_below, ← head, flattenFields]
      congr 1
      funext filed
      exact ih tail (index + 1) filed

/-- Going through items files the leaves in them. -/
theorem flattenItems_eq {items : List Json}
    (each : ∀ item ∈ items, ∀ path metadata,
      flattenInto path metadata item = (ends item).foldlM (fileLeaf path) metadata)
    (index : Nat) (path : List String) (metadata : Metadata) :
    flattenItems path index metadata items =
      (endsOfItems index items).foldlM (fileLeaf path) metadata := by
  induction items generalizing index metadata with
  | nil => rfl
  | cons item rest ih =>
      obtain ⟨head, tail⟩ := List.forall_mem_cons.mp each
      rw [endsOfItems, List.foldlM_append, flattenItems]
      by_cases object : item.isObject = true
      · rw [if_pos object, if_pos object, foldlM_below, ← head]
        congr 1
        funext filed
        exact ih tail (index + 1) filed
      · rw [if_neg object, if_neg object]
        exact ih tail (index + 1) metadata

/-- Going through a document files the ends of its ways one after another. -/
theorem flattenInto_eq (document : Json) (path : List String) (metadata : Metadata) :
    flattenInto path metadata document = (ends document).foldlM (fileLeaf path) metadata := by
  induction document using Json.induction generalizing path metadata with
  | object fields ih =>
      rw [flattenInto, ends]
      exact flattenFields_eq ih 0 path metadata
  | array items ih =>
      rw [flattenInto, ends]
      split
      next => exact flattenItems_eq ih 0 path metadata
      next => simp [fileLeaf]
  | null | bool | number | string => simp [flattenInto, ends, fileLeaf]

/-- The metadata of a document is its leaves filed one after another. -/
theorem flatten_eq (document : Json) :
    flatten document = (leaves document).foldlM (fileLeaf []) .empty := by
  rw [flatten, flattenInto_eq, leaves, List.foldlM_filter]
  congr 1
  funext metadata leaf
  by_cases named : leaf.path = []
  · simp [fileLeaf, file, named, pure, Except.pure]
  · simp [named]

end Filing

end Concordance.Extract
