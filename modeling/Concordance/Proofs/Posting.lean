import Concordance.Posting
import Concordance.Proofs.Codec

namespace Concordance.Posting

theorem get?_places (posting : Posting) (id : DocId) :
    posting.places.get? id = posting.offsets? id :=
  (posting.sound.offsets?_eq id).symm

@[simp] theorem keys_places (posting : Posting) : posting.places.keys = posting.documents :=
  congrArg Columns.documents posting.sound.ofEntries_entries

@[simp] theorem values_places (posting : Posting) :
    posting.places.values = posting.columns.offsets :=
  congrArg Columns.offsets posting.sound.ofEntries_entries

/-- Adding an offset changes the places of its own document only. -/
theorem places_add (posting : Posting) (id : DocId) (offset : UInt64) :
    (posting.add id offset).places =
      posting.places.insert id (((posting.offsets? id).getD .empty).insert offset) := by
  apply OrderedMap.ext
  show (posting.columns.add id offset).2.entries = _
  rw [posting.sound.add_eq]
  exact Columns.entries_ofEntries _

/-- The places that are left are those of documents that are kept. -/
theorem places_retain (posting : Posting) (keep : DocId → Bool) :
    (posting.retain keep).places = posting.places.filter fun id _ => keep id :=
  OrderedMap.ext (Columns.entries_ofEntries _)

/-- Postings that record the same offsets for every document are the same posting. -/
theorem ext_offsets? {first second : Posting}
    (same : ∀ id, first.offsets? id = second.offsets? id) : first = second := by
  have places : first.places = second.places := by
    apply OrderedMap.ext_get?
    simpa only [get?_places] using same
  apply ext_columns
  rw [← first.sound.ofEntries_entries, ← second.sound.ofEntries_entries]
  exact congrArg (fun map => Columns.ofEntries map.entries) places

/-- The documents of a posting are those with offsets. -/
theorem mem_documents {posting : Posting} {id : DocId} :
    id ∈ posting.documents ↔ (posting.offsets? id).isSome = true := by
  rw [← get?_places, ← keys_places]
  exact OrderedMap.contains_iff.symm

/-- An added place changes the offsets of its own document only. -/
theorem offsets?_add (posting : Posting) (id other : DocId) (offset : UInt64) :
    (posting.add id offset).offsets? other =
      if other = id then some (((posting.offsets? id).getD .empty).insert offset)
      else posting.offsets? other := by
  rw [← get?_places, places_add, OrderedMap.get?_insert, get?_places]
  simp only [Std.LawfulEqOrd.compare_eq_iff_eq]

theorem offsets?_retain (posting : Posting) (keep : DocId → Bool) (id : DocId) :
    (posting.retain keep).offsets? id = if keep id then posting.offsets? id else none := by
  rw [← get?_places, places_retain, OrderedMap.get?_filter, get?_places]
  cases posting.offsets? id with
  | none => simp
  | some offsets => exact Option.filter_some

theorem documents_retain (posting : Posting) (keep : DocId → Bool) :
    (posting.retain keep).documents = posting.documents.filter keep := by
  rw [← keys_places, places_retain, ← keys_places, OrderedMap.keys, OrderedMap.keys,
    List.filter_map]
  rfl

/-- Every document of a posting is listed once. -/
theorem nodup_documents (posting : Posting) : posting.documents.Nodup := by
  rw [← keys_places]
  exact posting.places.nodup_keys

/-- A posting is empty where no document has offsets. -/
theorem isEmpty_iff {posting : Posting} :
    posting.isEmpty = true ↔ ∀ id, posting.offsets? id = none := by
  rw [isEmpty, List.isEmpty_iff, List.eq_nil_iff_forall_not_mem]
  simp only [mem_documents, Option.not_isSome_iff_eq_none]

/-- The documents of a posting are accepted by the reader. -/
theorem isAscending_of_pairwise {documents : List DocId}
    (ascending : documents.Pairwise fun first second => compare first second = .lt) :
    isAscending documents = true := by
  induction documents with
  | nil => rfl
  | cons head rest ih =>
      rw [List.pairwise_cons] at ascending
      have sorted := ih ascending.2
      cases rest with
      | nil => rfl
      | cons second others =>
          have less := Std.compare_eq_lt.mp (ascending.1 second List.mem_cons_self)
          simp only [isAscending, sorted, Bool.and_true, decide_eq_true_eq]
          exact less

/-- A posting is read back from its documents and their offsets. -/
theorem reads (posting : Posting) (fits : posting.write.length < UInt64.size) :
    Codec.Reads read posting.write posting := by
  unfold write at fits ⊢
  rw [List.length_append] at fits
  apply (LawfulBinary.reads posting.columns.documents (by omega)).bind
  rw [← List.append_nil (Concordance.write posting.columns.offsets)]
  apply (LawfulBinary.reads posting.columns.offsets (by omega)).bind
  rw [dif_pos posting.sound.aligned.symm, dif_pos (isAscending_of_pairwise posting.sound.ascending)]
  exact Codec.Reads.pure posting

instance : LawfulBinary Posting where
  write_ne_nil _ := Codec.writeLength_ne_nil _ _
  reads := reads

end Concordance.Posting
