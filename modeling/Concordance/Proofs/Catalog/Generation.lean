import Concordance.Proofs.Catalog.Calls

/-! What the generation tells of a catalog. -/
namespace Concordance

/-- A document without what readers have added to it. -/
def Document.bare (document : Document) : Document :=
  { document with comments := .empty, ratings := .empty }

/-- What readers add to a document changes nothing else of it. -/
theorem Remark.bare_apply (document : Document) (remark : Remark) :
    (remark.apply document).bare = document.bare := by
  cases remark <;> rfl

/-- Snapshots with the same bytes have the same next number. -/
theorem Snapshot.nextId_of_write_eq {first second : Snapshot} (same : first.write = second.write) :
    first.nextId = second.nextId := by
  unfold write at same
  rw [List.append_assoc, List.append_assoc] at same
  have read := Codec.reads_word first.nextId
    (Concordance.write first.terms ++ Concordance.write first.documents)
  have again := Codec.reads_word second.nextId
    (Concordance.write second.terms ++ Concordance.write second.documents)
  exact (EStateM.Result.ok.inj (read.symm.trans ((congrArg _ same).trans again))).1

namespace Catalog

open Retrieval (searchText)

namespace Call

def takesNumber : Call → Bool
  | allocate => true
  | _ => false

/-- Whatever the call changes of the snapshot is counted. -/
def isCounted : Call → Bool
  | allocate | annotate .. => false
  | _ => true

end Call

/-- Two catalogs with the same words, and with the same documents apart from what readers have
added. -/
structure SameContent (first second : Catalog) : Prop where
  terms : first.terms = second.terms
  documents : ∀ id,
    (first.document? id).map Document.bare = (second.document? id).map Document.bare

variable {now : Catalog}

theorem SameContent.refl (catalog : Catalog) : SameContent catalog catalog := ⟨rfl, fun _ => rfl⟩

/-- Having the same content is transitive. -/
theorem SameContent.trans {first second third : Catalog} (left : SameContent first second)
    (right : SameContent second third) : SameContent first third :=
  ⟨left.terms.trans right.terms, fun id => (left.documents id).trans (right.documents id)⟩

/-- What readers add to a document is no part of the content. -/
theorem sameContent_annotated (filed : now.InPlace) (id : DocId) (remark : Remark) :
    SameContent (now.annotated id remark) now := by
  unfold annotated
  split
  next document found =>
    refine ⟨rfl, fun other => ?_⟩
    have here : (remark.apply document).id = id :=
      (remark.id_apply document).trans (filed id document found)
    show ((now.documents.insert _ _).get? other).map _ = _
    rw [here, OrderedMap.get?_insert]
    split
    next same =>
      rw [Std.LawfulEqOrd.eq_of_compare same, found, Option.map_some, Option.map_some,
        remark.bare_apply]
    next => rfl
  next => exact .refl now

/-- What no call has counted has left the content as it was. -/
theorem Call.sameContent_apply (filed : now.InPlace) {call : Call}
    (none : call.changes now = 0) : SameContent (call.apply now) now := by
  rcases cases_of_changes_eq_zero none with same | rfl | ⟨id, remark, rfl⟩ | rfl | ⟨usage, rfl⟩
  · rw [same]
    exact .refl now
  · exact ⟨rfl, fun _ => rfl⟩
  · exact sameContent_annotated filed id remark
  · exact ⟨rfl, fun _ => rfl⟩
  · exact ⟨rfl, fun _ => rfl⟩

/-- Calls without changes leave the content as it is. -/
theorem sameContent_after (filed : now.InPlace) (calls : List Call)
    (none : now.changesOf calls = 0) : SameContent (now.after calls) now := by
  induction calls generalizing now with
  | nil => exact .refl now
  | cons call rest ih =>
      obtain ⟨first, others⟩ := Nat.add_eq_zero_iff.mp none
      exact (ih (inPlace_after filed [call]) others).trans (call.sameContent_apply filed first)

theorem nextId_annotated (now : Catalog) (id : DocId) (remark : Remark) :
    (now.annotated id remark).nextId = now.nextId := by
  unfold annotated
  split <;> rfl

/-- A call without changes leaves the counter as it is, unless it takes a number. -/
theorem Call.nextId_apply {call : Call} (none : call.changes now = 0) :
    (call.apply now).nextId = now.nextId + .ofNat (if call.takesNumber then 1 else 0) := by
  by_cases taken : call = .allocate
  · rw [taken]
    rfl
  · have quiet : call.takesNumber = false := by
      cases call with
      | allocate => exact absurd rfl taken
      | _ => rfl
    rw [quiet, if_neg Bool.false_ne_true]
    refine Eq.trans ?_ (UInt64.add_zero _).symm
    rcases cases_of_changes_eq_zero none with same | same | ⟨id, remark, rfl⟩ | rfl | ⟨usage, rfl⟩
    · rw [same]
    · exact absurd same taken
    · exact nextId_annotated now id remark
    · rfl
    · rfl

/-- Where no call is counted the next number has gone up by one for each number that was taken. -/
theorem nextId_after (calls : List Call) (none : now.changesOf calls = 0) :
    (now.after calls).nextId = now.nextId + .ofNat (calls.countP Call.takesNumber) := by
  induction calls generalizing now with
  | nil => exact (UInt64.add_zero _).symm
  | cons call rest ih =>
      obtain ⟨first, others⟩ := Nat.add_eq_zero_iff.mp none
      rw [after_cons, ih others, call.nextId_apply first, List.countP_cons, UInt64.ofNat_add,
        UInt64.add_assoc, UInt64.add_comm (.ofNat (List.countP _ rest))]

/-- Where all that calls change is counted and nothing was, the snapshot is as it was. -/
theorem snapshot_after (calls : List Call) (all : ∀ call ∈ calls, call.isCounted = true)
    (none : now.changesOf calls = 0) : (now.after calls).snapshot = now.snapshot := by
  induction calls generalizing now with
  | nil => rfl
  | cons call rest ih =>
      obtain ⟨first, others⟩ := Nat.add_eq_zero_iff.mp none
      rw [List.forall_mem_cons] at all
      rw [after_cons, ih all.2 others]
      rcases Call.cases_of_changes_eq_zero first with
        same | rfl | ⟨id, remark, rfl⟩ | rfl | ⟨usage, rfl⟩
      · rw [same]
      · exact absurd all.1 Bool.false_ne_true
      · exact absurd all.1 Bool.false_ne_true
      · rfl
      · rfl

/-- Taking a number changes the bytes of a catalog, and its generation stays. -/
theorem write_allocate_ne (now : Catalog) :
    now.allocate.2.snapshot.write ≠ now.snapshot.write ∧
      now.allocate.2.generation = now.generation := by
  refine ⟨fun same => ?_, rfl⟩
  have next : now.nextId + 1 = now.nextId := Snapshot.nextId_of_write_eq same
  have counted := congrArg UInt64.toNat next
  rw [UInt64.toNat_add, UInt64.toNat_one] at counted
  omega

/-- The vocabulary stays that of the words, whatever is called. -/
theorem knowsWords_after (known : now.KnowsWords) (calls : List Call) :
    (now.after calls).KnowsWords := by
  obtain ⟨notices, run⟩ := exists_run_after now calls
  exact knowsWords_of_run run known

/-- Two moments with the same snapshot cannot be told apart, as long as the changes can be counted. -/
theorem alike_after {first : Catalog} (begun : IsFirst first) {before calls : List Call}
    (few : first.changesOf (before ++ calls) < UInt64.size)
    (same : ((first.after before).after calls).snapshot = (first.after before).snapshot) :
    ((first.after before).after calls).Alike (first.after before) := by
  have filed := inPlace_of_consistent (consistent_of_isFirst begun)
  have known := knowsMeanWithin_of_isFirst begun
  have terms : ((first.after before).after calls).terms = (first.after before).terms :=
    congrArg Snapshot.terms same
  have documents : ((first.after before).after calls).documents = (first.after before).documents :=
    congrArg Snapshot.documents same
  have mean : ∀ {calls}, first.changesOf calls < UInt64.size →
      (first.after calls).meanWordCount = (first.after calls).computeMean :=
    fun few => meanWordCount_after known filed (isCountable_of_lt few)
  refine ⟨terms, ?_, congrArg (·.written.documents) same, congrArg Snapshot.nextId same, ?_⟩
  · have begun := knowsWords_after (knowsWords_of_isFirst begun) before
    rw [begun.vocabulary_eq, (knowsWords_after begun calls).vocabulary_eq, terms]
  · rw [← after_append, mean few, after_append, computeMean_of_documents_eq documents, mean]
    rw [changesOf_append] at few
    omega

/-- The generation of a catalog tells what has been done to it. As long as it does not come round it
is the number of changes. Calls whose changes are all counted raise it where they change the bytes.
Between two moments of one generation the words and the documents stay, but for what readers have
added, and the next number goes up with every number that is taken; the snapshot and what is found
in it are the same where all changes are counted. Taking a number changes the bytes all the same. -/
theorem generation_of_calls {first : Catalog} (begun : IsFirst first) (before calls : List Call)
    (countable : first.generation.toNat + first.changesOf (before ++ calls) < UInt64.size) :
    let now := first.after before
    let next := now.after calls
    next.generation.toNat = now.generation.toNat + now.changesOf calls ∧
      ((∀ call ∈ calls, call.isCounted = true) → next.snapshot.write ≠ now.snapshot.write →
        now.generation < next.generation) ∧
      (next.generation = now.generation →
        SameContent next now ∧
          next.nextId = now.nextId + .ofNat (calls.countP Call.takesNumber) ∧
          ((∀ call ∈ calls, call.isCounted = true) → next.snapshot = now.snapshot ∧
            ∀ settings disk text, searchText settings next disk text =
              searchText settings now disk text)) ∧
      now.allocate.2.snapshot.write ≠ now.snapshot.write ∧
        now.allocate.2.generation = now.generation := by
  intro now next
  have counted := first.changesOf_append before calls
  change first.changesOf (before ++ calls) = _ + now.changesOf calls at counted
  have reached : now.generation.toNat = first.generation.toNat + first.changesOf before :=
    toNat_generation_after (by omega)
  have raised : next.generation.toNat = now.generation.toNat + now.changesOf calls :=
    toNat_generation_after (by omega)
  have filed := inPlace_after (inPlace_of_consistent (consistent_of_isFirst begun)) before
  refine ⟨raised, fun all changed => ?_, fun same => ?_, write_allocate_ne now⟩
  · rw [UInt64.lt_iff_toNat_lt, raised]
    have some : now.changesOf calls ≠ 0 := fun none =>
      changed (congrArg Snapshot.write (snapshot_after calls all none))
    omega
  · have none : now.changesOf calls = 0 := by
      rw [same] at raised
      omega
    refine ⟨sameContent_after filed calls none, nextId_after calls none, fun all => ?_⟩
    have unchanged := snapshot_after calls all none
    have alike := alike_after begun (by omega) unchanged
    exact ⟨unchanged, alike.searchText_eq_of_documents_eq (congrArg Snapshot.documents unchanged)⟩

/-- A word is added under a number that was taken, which is counted; then the next number is taken,
which is not. -/
theorem generation_of_calls_allocated :
    let first := Catalog.empty ⟨"/"⟩ .empty
    let calls : List Call := [.addPlace "hi" 1 0, .tidyAll, .addDocument 1 notePath
      (note.document 1).facts .empty]
    let now := first.after [.allocate]
    IsFirst first ∧ first.generation.toNat + first.changesOf ([.allocate] ++ calls) < UInt64.size ∧
      (∀ call ∈ calls, call.isCounted = true) ∧
      (now.after calls).snapshot.write ≠ now.snapshot.write ∧
      now.generation < (now.after calls).generation ∧
      (now.after [.allocate]).nextId = now.nextId + 1 := by
  intro first calls now
  have begun : IsFirst first := .inl ⟨_, _, rfl⟩
  have countable : first.generation.toNat + first.changesOf ([.allocate] ++ calls) < UInt64.size := by
    decide +kernel
  have all : ∀ call ∈ calls, call.isCounted = true := by
    unfold calls
    simp only [List.forall_mem_cons, List.not_mem_nil, false_imp_iff, implies_true, and_true]
    exact ⟨rfl, rfl, rfl⟩
  have changed : (now.after calls).snapshot.write ≠ now.snapshot.write := by decide +kernel
  refine ⟨begun, countable, all, changed, ?_, ?_⟩
  · exact (generation_of_calls begun [.allocate] calls countable).2.1 all changed
  · exact ((generation_of_calls begun [.allocate] [.allocate] (by decide +kernel)).2.2.1 rfl).2.1

/-- The bytes and the greatest number change where a number is taken, and the generation does not. -/
theorem unraised_of_allocate :
    (¬∀ (first : Catalog) (calls : List Call) (call : Call), IsFirst first →
      (call.apply (first.after calls)).snapshot.write ≠ (first.after calls).snapshot.write →
      (first.after calls).generation < (call.apply (first.after calls)).generation) ∧
    ¬∀ (first : Catalog) (before calls : List Call), IsFirst first →
      ((first.after before).after calls).generation = (first.after before).generation →
      ((first.after before).after calls).greatestId = (first.after before).greatestId := by
  have begun : IsFirst (.empty ⟨"/"⟩ .empty) := .inl ⟨_, _, rfl⟩
  refine ⟨fun all => ?_, fun all => ?_⟩
  · have raised := all _ [] .allocate begun (write_allocate_ne _).1
    exact absurd raised (by decide)
  · exact absurd (all _ [] [.allocate] begun rfl) (by decide)

end Catalog
end Concordance
