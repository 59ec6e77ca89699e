import Concordance.Codec
import Concordance.Ordered.Slot

/-! The places of one word: the documents that contain it and the bytes where it stands in each. -/
namespace Concordance

/-- Documents are numbered from 1 on. -/
abbrev DocId := UInt64

/-- Distances in bytes from the start of a file. -/
abbrev Offsets := OrderedSet UInt64

/-- Documents, and beside each its offsets. -/
structure Columns where
  documents : List DocId
  offsets : List Offsets
deriving DecidableEq

namespace Columns

def empty : Columns := ⟨[], []⟩

/-- Each document with its offsets. -/
def entries (columns : Columns) : List (DocId × Offsets) := columns.documents.zip columns.offsets

/-- The columns of a list of entries. -/
def ofEntries (entries : List (DocId × Offsets)) : Columns :=
  ⟨entries.map Prod.fst, entries.map Prod.snd⟩

/-- The offsets beside a document. -/
def offsets? (columns : Columns) (id : DocId) : Option Offsets :=
  match Slot.find id columns.documents with
  | .taken index => columns.offsets[index]?
  | .free _ => none

/-- Opens a place for a document unless it has one. The index of the place is returned. -/
def openPlace (columns : Columns) (id : DocId) : Nat × Columns :=
  match Slot.find id columns.documents with
  | .taken index => (index, columns)
  | .free index =>
      (index, ⟨columns.documents.insertIdx index id, columns.offsets.insertIdx index .empty⟩)

/-- Records an offset, and tells whether it is a new one. -/
def add (columns : Columns) (id : DocId) (offset : UInt64) : Bool × Columns :=
  let (index, columns) := columns.openPlace id
  let set := columns.offsets.getD index .empty
  (!set.contains offset, { columns with offsets := columns.offsets.set index (set.insert offset) })

/-- Drops the documents that a test rejects, and counts them. The test is asked about each document
once, so its answers are a function of the document. -/
def retain (columns : Columns) (keep : DocId → Bool) : Nat × Columns :=
  let kept := columns.entries.filter fun entry => keep entry.1
  (columns.documents.length - kept.length, ofEntries kept)

/-- The documents are in order and each has its offsets beside it. -/
structure IsSound (columns : Columns) : Prop where
  ascending : columns.documents.Pairwise fun first second => compare first second = .lt
  aligned : columns.offsets.length = columns.documents.length

theorem insertIdx_of_length_eq {α : Type} {index : Nat} {before : List α}
    (place : before.length = index) (element : α) (after : List α) :
    (before ++ after).insertIdx index element = before ++ element :: after := by
  subst place
  induction before with
  | nil => rfl
  | cons head rest ih => simpa using ih

theorem entries_ofEntries (entries : List (DocId × Offsets)) :
    (ofEntries entries).entries = entries := by
  rw [ofEntries, Columns.entries, List.zip_map']
  exact List.map_id _

theorem isSound_ofEntries {entries : List (DocId × Offsets)}
    (ascending : entries.Pairwise fun first second => compare first.1 second.1 = .lt) :
    (ofEntries entries).IsSound :=
  ⟨List.pairwise_map.mpr ascending, (List.length_map _).trans (List.length_map _).symm⟩

namespace IsSound

variable {columns : Columns} (sound : columns.IsSound)
include sound

theorem ofEntries_entries : ofEntries columns.entries = columns := by
  cases columns
  rw [ofEntries, mk.injEq]
  exact ⟨List.map_fst_zip (Nat.le_of_eq sound.aligned.symm),
    List.map_snd_zip (Nat.le_of_eq sound.aligned)⟩

theorem pairwise_entries :
    columns.entries.Pairwise fun first second => compare first.1 second.1 = .lt := by
  have ascending := sound.ascending
  rw [← sound.ofEntries_entries] at ascending
  exact List.pairwise_map.mp ascending

/-- The search finds the entry of a document, or where its entry has to come. -/
theorem find_cases (id : DocId) :
    (∃ before set after, columns = ofEntries (before ++ (id, set) :: after) ∧
      (∀ entry ∈ before, compare entry.1 id = .lt) ∧
      Slot.find id columns.documents = .taken before.length) ∨
    ∃ before after, columns = ofEntries (before ++ after) ∧
      (∀ entry ∈ before, compare entry.1 id = .lt) ∧ (∀ entry ∈ after, compare id entry.1 = .lt) ∧
      Slot.find id columns.documents = .free before.length := by
  have ascending := sound.pairwise_entries
  rw [← sound.ofEntries_entries]
  rcases Slot.find_cases id (List.pairwise_map.mpr ascending) with
    ⟨_, other, _, whole, same, found⟩ | ⟨_, _, whole, below, above, found⟩
  · obtain ⟨before, rest, split, rfl, tail⟩ := List.map_eq_append_iff.mp whole
    obtain ⟨⟨_, set⟩, after, rfl, rfl, rfl⟩ := List.map_eq_cons_iff.mp tail
    obtain rfl := Std.LawfulEqOrd.eq_of_compare same
    rw [split, List.pairwise_append] at ascending
    exact .inl ⟨before, set, after, congrArg ofEntries split,
      fun entry member => ascending.2.2 entry member _ List.mem_cons_self,
      found.trans (congrArg Slot.taken (List.length_map _))⟩
  · obtain ⟨before, after, split, rfl, rfl⟩ := List.map_eq_append_iff.mp whole
    simp only [List.mem_map, forall_exists_index, and_imp, forall_apply_eq_imp_iff₂] at below above
    exact .inr ⟨before, after, congrArg ofEntries split, below, above,
      found.trans (congrArg Slot.free (List.length_map _))⟩

/-- The search in the column of documents finds what stands in the entries. -/
theorem offsets?_eq (id : DocId) : columns.offsets? id = OrderedMap.look id columns.entries := by
  rcases sound.find_cases id with ⟨before, set, after, split, below, found⟩ |
    ⟨before, after, split, below, above, found⟩
  · rw [offsets?, found, split, entries_ofEntries, OrderedMap.look_append below]
    simp [ofEntries, OrderedMap.look]
  · rw [offsets?, found, split, entries_ofEntries, OrderedMap.look_append below]
    cases after with
    | nil => rfl
    | cons entry rest =>
        have less := above entry List.mem_cons_self
        simp [OrderedMap.look, less]

/-- A place that is opened is where a document has its entry, or gets it. -/
theorem openPlace_cases (id : DocId) :
    ∃ before set after, columns.openPlace id =
        (before.length, ofEntries (before ++ (id, set) :: after)) ∧
      set = (columns.offsets? id).getD .empty ∧
      ∀ value, OrderedMap.put id value columns.entries = before ++ (id, value) :: after := by
  rw [sound.offsets?_eq]
  rcases sound.find_cases id with ⟨before, set, after, split, below, found⟩ |
    ⟨before, after, split, below, above, found⟩
  · refine ⟨before, set, after, by rw [openPlace, found, split], ?_, fun value => ?_⟩
    · rw [split, entries_ofEntries, OrderedMap.look_append below]
      simp [OrderedMap.look]
    · rw [split, entries_ofEntries, OrderedMap.put_append below]
      simp [OrderedMap.put]
  · refine ⟨before, .empty, after, ?_, ?_, fun value => ?_⟩
    · rw [openPlace, found, split]
      simp only [ofEntries, List.map_append, List.map_cons]
      rw [insertIdx_of_length_eq (List.length_map _), insertIdx_of_length_eq (List.length_map _)]
    · rw [split, entries_ofEntries, OrderedMap.look_append below]
      cases after with
      | nil => rfl
      | cons entry rest => simp [OrderedMap.look, above entry List.mem_cons_self]
    · rw [split, entries_ofEntries, OrderedMap.put_append below]
      cases after with
      | nil => rfl
      | cons entry rest => simp [OrderedMap.put, above entry List.mem_cons_self]

/-- An offset is put into the entry of its document, which is opened where there is none. -/
theorem add_eq (id : DocId) (offset : UInt64) :
    columns.add id offset = (!(columns.offsets? id).any (·.contains offset),
      ofEntries (OrderedMap.put id (((columns.offsets? id).getD .empty).insert offset)
        columns.entries)) := by
  obtain ⟨before, set, after, opened, held, put⟩ := sound.openPlace_cases id
  have flag : (columns.offsets? id).any (·.contains offset) = set.contains offset := by
    rw [held]
    cases columns.offsets? id <;> rfl
  rw [add, opened, put, ← held, flag]
  simp [ofEntries]

theorem add (id : DocId) (offset : UInt64) : (columns.add id offset).2.IsSound := by
  rw [sound.add_eq]
  exact isSound_ofEntries (OrderedMap.pairwise_put _ _ sound.pairwise_entries)

theorem retain (keep : DocId → Bool) : (columns.retain keep).2.IsSound :=
  isSound_ofEntries (OrderedMap.pairwise_filter _ sound.pairwise_entries)

end IsSound
end Columns

/-- The offsets of one word in each document that contains it. -/
structure Posting where
  columns : Columns
  sound : columns.IsSound

namespace Posting

theorem ext_columns {first second : Posting} (same : first.columns = second.columns) :
    first = second := by
  cases first; cases second; simp_all

instance : DecidableEq Posting := fun first second =>
  if same : first.columns = second.columns then isTrue (ext_columns same)
  else isFalse fun equal => same (equal ▸ rfl)

def empty : Posting := ⟨.empty, .nil, rfl⟩

/-- The offsets as a map from the documents. -/
def places (posting : Posting) : OrderedMap DocId Offsets :=
  ⟨posting.columns.entries, posting.sound.pairwise_entries⟩

def documents (posting : Posting) : List DocId := posting.columns.documents

def offsets? (posting : Posting) (id : DocId) : Option Offsets := posting.columns.offsets? id

def contains (posting : Posting) (id : DocId) : Bool := (posting.offsets? id).isSome

/-- The number of documents that contain the word. -/
def frequency (posting : Posting) : Nat := posting.documents.length

def isEmpty (posting : Posting) : Bool := posting.documents.isEmpty

/-- The word stands in a document at an offset. -/
def holds (posting : Posting) (id : DocId) (offset : UInt64) : Bool :=
  (posting.offsets? id).any (·.contains offset)

def add (posting : Posting) (id : DocId) (offset : UInt64) : Posting :=
  ⟨(posting.columns.add id offset).2, posting.sound.add id offset⟩

/-- The places in the documents that a test accepts. -/
def retain (posting : Posting) (keep : DocId → Bool) : Posting :=
  ⟨(posting.columns.retain keep).2, posting.sound.retain keep⟩

/-- The list of documents, then the offsets in each of them. -/
def write (posting : Posting) : Bytes :=
  Concordance.write posting.columns.documents ++ Concordance.write posting.columns.offsets

/-- Each element comes before the next one. -/
def isAscending : List DocId → Bool
  | [] => true
  | [_] => true
  | first :: second :: rest => first < second && isAscending (second :: rest)

theorem pairwise_of_isAscending {documents : List DocId}
    (ascending : isAscending documents = true) : documents.Pairwise (· < ·) := by
  induction documents with
  | nil => exact .nil
  | cons head rest ih =>
      cases rest with
      | nil => exact List.pairwise_singleton ..
      | cons second others =>
          simp only [isAscending, Bool.and_eq_true, decide_eq_true_eq] at ascending
          have later := ih ascending.2
          refine List.pairwise_cons.mpr ⟨fun other member => ?_, later⟩
          rcases List.mem_cons.mp member with rfl | beyond
          · exact ascending.1
          · exact UInt64.lt_trans ascending.1 ((List.pairwise_cons.mp later).1 other beyond)

def read : Reader Posting := do
  let documents : List DocId ← Binary.read
  let offsets : List Offsets ← Binary.read
  if even : documents.length = offsets.length then
    if ascending : isAscending documents then
      return ⟨⟨documents, offsets⟩,
        (pairwise_of_isAscending ascending).imp Std.compare_eq_lt.mpr, even.symm⟩
    else throw (.corrupted .unsortedPostings)
  else throw (.corrupted (.unevenPostings documents.length offsets.length))

instance : Binary Posting := ⟨write, read⟩

end Posting
end Concordance
