import Concordance.Proofs.Posting

/-! What the columns of a word hold after any changes. -/
namespace Concordance.Columns

/-- A change of the columns. -/
inductive Edit where
  | add (id : DocId) (offset : UInt64)
  | retain (keep : DocId → Bool)

def Edit.apply (columns : Columns) : Edit → Columns
  | .add id offset => (columns.add id offset).2
  | .retain keep => (columns.retain keep).2

/-- Columns after changes of empty ones. -/
def run (edits : List Edit) : Columns := edits.foldl Edit.apply empty

/-- An offset was recorded for a document that was not dropped later. -/
def IsRecorded (edits : List Edit) (id : DocId) (offset : UInt64) : Prop :=
  ∃ before after, edits = before ++ .add id offset :: after ∧
    ∀ keep, .retain keep ∈ after → keep id = true

theorem not_isRecorded_nil (id : DocId) (offset : UInt64) : ¬IsRecorded [] id offset := by
  rintro ⟨before, after, split, -⟩
  simp at split

theorem isRecorded_concat_add (edits : List Edit) (id other : DocId) (offset distance : UInt64) :
    IsRecorded (edits ++ [.add id offset]) other distance ↔
      (other = id ∧ distance = offset) ∨ IsRecorded edits other distance := by
  constructor
  · rintro ⟨before, after, split, kept⟩
    rcases List.eq_nil_or_concat' after with rfl | ⟨earlier, last, rfl⟩
    · have same := (List.append_inj' split rfl).2
      simp only [List.cons.injEq, Edit.add.injEq, and_true] at same
      exact .inl ⟨same.1.symm, same.2.symm⟩
    · rw [← List.cons_append, ← List.append_assoc] at split
      exact .inr ⟨before, earlier, (List.append_inj' split rfl).1,
        fun keep member => kept keep (List.mem_append_left _ member)⟩
  · rintro (⟨rfl, rfl⟩ | ⟨before, after, rfl, kept⟩)
    · exact ⟨edits, [], rfl, fun keep member => by cases member⟩
    · refine ⟨before, after ++ [.add id offset], by simp, fun keep member => ?_⟩
      exact kept keep (by simpa using member)

theorem isRecorded_concat_retain (edits : List Edit) (keep : DocId → Bool) (id : DocId)
    (offset : UInt64) :
    IsRecorded (edits ++ [.retain keep]) id offset ↔ keep id = true ∧ IsRecorded edits id offset := by
  constructor
  · rintro ⟨before, after, split, kept⟩
    rcases List.eq_nil_or_concat' after with rfl | ⟨earlier, last, rfl⟩
    · have same := (List.append_inj' split rfl).2
      simp at same
    · rw [← List.cons_append, ← List.append_assoc] at split
      obtain ⟨rfl, same⟩ := List.append_inj' split rfl
      obtain rfl := List.cons.inj same |>.1
      exact ⟨kept keep (by simp), before, earlier, rfl,
        fun other member => kept other (List.mem_append_left _ member)⟩
  · rintro ⟨accepted, before, after, rfl, kept⟩
    refine ⟨before, after ++ [.retain keep], by simp, fun other member => ?_⟩
    rcases List.mem_append.mp member with earlier | last
    · exact kept other earlier
    · simp only [List.mem_singleton, Edit.retain.injEq] at last
      exact last ▸ accepted

section Steps

variable {columns : Columns} (sound : columns.IsSound)
include sound

/-- Adding an offset changes the offsets of its own document only. -/
theorem IsSound.offsets?_add (id other : DocId) (offset : UInt64) :
    (columns.add id offset).2.offsets? other =
      if other = id then some (((columns.offsets? id).getD .empty).insert offset)
      else columns.offsets? other :=
  Posting.offsets?_add ⟨columns, sound⟩ id other offset

/-- What is retained keeps its offsets, and everything else loses them. -/
theorem IsSound.offsets?_retain (keep : DocId → Bool) (id : DocId) :
    (columns.retain keep).2.offsets? id = if keep id then columns.offsets? id else none :=
  Posting.offsets?_retain ⟨columns, sound⟩ keep id

theorem IsSound.mem_documents (id : DocId) :
    id ∈ columns.documents ↔ (columns.offsets? id).isSome = true :=
  @Posting.mem_documents ⟨columns, sound⟩ id

/-- Every set stands beside a document. -/
theorem IsSound.exists_offsets?_eq {set : Offsets} (member : set ∈ columns.offsets) :
    ∃ id, columns.offsets? id = some set := by
  have places := Posting.values_places ⟨columns, sound⟩
  rw [← show _ = columns.offsets from places] at member
  obtain ⟨⟨id, _⟩, entry, rfl⟩ := List.mem_map.mp member
  exact ⟨id, (Posting.get?_places _ id).symm.trans (OrderedMap.get?_of_mem entry)⟩

/-- An offset that is there already is recorded once. -/
theorem IsSound.add_of_recorded {id : DocId} {offset : UInt64} {set : Offsets}
    (found : columns.offsets? id = some set) (member : offset ∈ set.toList) :
    (columns.add id offset).2 = columns := by
  have again : set.insert offset = set :=
    OrderedSet.ext_mem fun other => by
      rw [OrderedSet.mem_insert]
      exact or_iff_right_of_imp fun same => same ▸ member
  have same : Posting.add ⟨columns, sound⟩ id offset = ⟨columns, sound⟩ := by
    apply Posting.ext_offsets?
    intro other
    show (columns.add id offset).2.offsets? other = columns.offsets? other
    rw [sound.offsets?_add, found, Option.getD_some, again]
    split
    next equal => rw [equal, found]
    next => rfl
  exact congrArg Posting.columns same

end Steps

/-- The columns hold what was recorded and no empty sets. -/
structure IsExact (edits : List Edit) (columns : Columns) : Prop where
  sound : columns.IsSound
  filled : ∀ id set, columns.offsets? id = some set → ∃ offset, offset ∈ set.toList
  recorded : ∀ id offset,
    (∃ set, columns.offsets? id = some set ∧ offset ∈ set.toList) ↔ IsRecorded edits id offset

theorem isExact_empty : IsExact [] empty where
  sound := ⟨.nil, rfl⟩
  filled id set found := by cases found
  recorded id offset := by
    constructor
    · rintro ⟨set, found, -⟩
      cases found
    · exact fun recorded => absurd recorded (not_isRecorded_nil id offset)

/-- One change keeps the columns exact. -/
theorem IsExact.step {edits : List Edit} {columns : Columns} (exact : IsExact edits columns)
    (edit : Edit) : IsExact (edits ++ [edit]) (edit.apply columns) := by
  obtain ⟨sound, filled, recorded⟩ := exact
  cases edit with
  | add id offset =>
      refine ⟨sound.add id offset, fun other set found => ?_, fun other distance => ?_⟩
      · rw [Edit.apply, sound.offsets?_add] at found
        split at found
        next =>
          cases found
          exact ⟨offset, (OrderedSet.mem_insert ..).mpr (.inl rfl)⟩
        next => exact filled other set found
      · rw [isRecorded_concat_add, ← recorded, Edit.apply, sound.offsets?_add]
        split
        next same =>
          subst same
          cases columns.offsets? other <;> simp [OrderedSet.mem_insert]
        next different => simp [different]
  | retain keep =>
      refine ⟨sound.retain keep, fun other set found => ?_, fun other distance => ?_⟩
      · rw [Edit.apply, sound.offsets?_retain] at found
        split at found
        next => exact filled other set found
        next => cases found
      · rw [isRecorded_concat_retain, ← recorded, Edit.apply, sound.offsets?_retain]
        cases keep other <;> simp

/-- After any edits the columns hold exactly what is recorded. -/
theorem isExact_run (edits : List Edit) : IsExact edits (run edits) := by
  induction edits using List.reverseRecOn with
  | nil => exact isExact_empty
  | append_singleton edits edit ih =>
      rw [run, List.foldl_concat]
      exact ih.step edit

namespace IsExact

variable {edits : List Edit} {columns : Columns} (exact : IsExact edits columns)
include exact

/-- A document is in the columns where an offset is recorded for it. -/
theorem isSome_iff (id : DocId) :
    (columns.offsets? id).isSome = true ↔ ∃ offset, IsRecorded edits id offset := by
  rw [Option.isSome_iff_exists]
  constructor
  · rintro ⟨set, found⟩
    obtain ⟨offset, member⟩ := exact.filled id set found
    exact ⟨offset, (exact.recorded id offset).mp ⟨set, found, member⟩⟩
  · rintro ⟨offset, recorded⟩
    obtain ⟨set, found, -⟩ := (exact.recorded id offset).mpr recorded
    exact ⟨set, found⟩

/-- The offsets of a document are those that are recorded for it. -/
theorem mem_iff {id : DocId} {set : Offsets} (found : columns.offsets? id = some set)
    (offset : UInt64) : offset ∈ set.toList ↔ IsRecorded edits id offset := by
  rw [← exact.recorded, found]
  simp

/-- The answer to an offset tells whether it was recorded before. -/
theorem add_eq_false_iff (id : DocId) (offset : UInt64) :
    (columns.add id offset).1 = false ↔ IsRecorded edits id offset := by
  rw [exact.sound.add_eq, Bool.not_eq_false', Option.any_eq_true, ← exact.recorded]
  simp only [OrderedSet.contains_iff]

/-- Adding what is recorded already changes nothing. -/
theorem add_of_isRecorded {id : DocId} {offset : UInt64} (recorded : IsRecorded edits id offset) :
    (columns.add id offset).2 = columns := by
  obtain ⟨set, found, member⟩ := (exact.recorded id offset).mpr recorded
  exact exact.sound.add_of_recorded found member

end IsExact

/-- The rejected documents are counted. -/
theorem IsSound.retain_fst {columns : Columns} (sound : columns.IsSound) (keep : DocId → Bool) :
    (columns.retain keep).1 = (columns.documents.filter fun id => !keep id).length := by
  have kept := congrArg List.length (Posting.documents_retain ⟨columns, sound⟩ keep)
  have whole := List.length_eq_length_filter_add (l := columns.documents) keep
  have counted : (columns.retain keep).1 =
      columns.documents.length - (columns.retain keep).2.documents.length :=
    congrArg _ (List.length_map _).symm
  change (columns.retain keep).2.documents.length = (columns.documents.filter keep).length at kept
  omega

/-- After any changes the documents are in order without a repetition, each with a set of offsets
beside it, which are those that were recorded for it since it was last dropped. A place that is
recorded already is told by the answer and changes nothing, and exactly the rejected documents are
dropped and counted. -/
theorem exact_of_run (edits : List Edit) :
    (run edits).documents.Pairwise (· < ·) ∧
    (run edits).offsets.length = (run edits).documents.length ∧
    (∀ set ∈ (run edits).offsets, set.toList ≠ []) ∧
    (∀ id, ((run edits).offsets? id = none ↔ ∀ offset, ¬IsRecorded edits id offset) ∧
      (id ∈ (run edits).documents ↔ ∃ offset, IsRecorded edits id offset) ∧
      ∀ set, (run edits).offsets? id = some set →
        ∀ offset, offset ∈ set.toList ↔ IsRecorded edits id offset) ∧
    (∀ id offset, (((run edits).add id offset).1 = false ↔ IsRecorded edits id offset) ∧
      (IsRecorded edits id offset → ((run edits).add id offset).2 = run edits)) ∧
    ∀ keep, ((run edits).retain keep).2.documents = (run edits).documents.filter keep ∧
      (∀ id, ((run edits).retain keep).2.offsets? id =
        if keep id then (run edits).offsets? id else none) ∧
      ((run edits).retain keep).1 = ((run edits).documents.filter fun id => !keep id).length := by
  have exact := isExact_run edits
  have sound := exact.sound
  refine ⟨sound.ascending.imp Std.compare_eq_lt.mp, sound.aligned, ?_, fun id => ⟨?_, ?_, ?_⟩, ?_, ?_⟩
  · intro set member
    obtain ⟨id, found⟩ := sound.exists_offsets?_eq member
    obtain ⟨offset, inside⟩ := exact.filled id set found
    exact List.ne_nil_of_mem inside
  · rw [← not_exists, ← exact.isSome_iff, Option.not_isSome_iff_eq_none]
  · exact (sound.mem_documents id).trans (exact.isSome_iff id)
  · exact fun set found => exact.mem_iff found
  · exact fun id offset => ⟨exact.add_eq_false_iff id offset, exact.add_of_isRecorded⟩
  · exact fun keep => ⟨Posting.documents_retain ⟨run edits, sound⟩ keep,
      sound.offsets?_retain keep, sound.retain_fst keep⟩

/-- Offsets that come after a document was dropped are its only ones. -/
example : (run [.add 5 0, .add 2 10, .retain (· == 2), .add 5 7, .add 2 10]) =
    ⟨[2, 5], [.ofList [10], .ofList [7]]⟩ := by decide

end Concordance.Columns
