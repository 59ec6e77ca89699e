import Concordance.Proofs.Catalog.RoundTrip

/-! All that can be done to a catalog, in any order. -/
namespace Concordance

/-- What happens to the counter: a number is taken, or the counter of a disk is put back. -/
inductive Notice where
  | taken (id : DocId)
  | restored (nextId : DocId)
deriving DecidableEq

namespace Catalog

/-- One call of a catalog with what it does to the counter. -/
inductive Operation : Catalog → List Notice → Catalog → Prop where
  | allocate (now : Catalog) : Operation now [.taken now.allocate.1] now.allocate.2
  | addDocument (now : Catalog) (id : DocId) (path : Path) (facts : DocumentFacts)
      (metadata : Metadata) : Operation now [] (now.addDocument (.new id path facts metadata))
  | comment {now : Catalog} {id : DocId} {document : Document}
      (found : now.document? id = some document) (user : String) (comment : Comment) :
      Operation now [] (now.annotate (document.comment user comment))
  | uncomment {now : Catalog} {id : DocId} {document : Document}
      (found : now.document? id = some document) (user : String) :
      Operation now [] (now.annotate (document.uncomment user))
  | rate {now : Catalog} {id : DocId} {document : Document}
      (found : now.document? id = some document) (user : String) (score : Number) :
      Operation now [] (now.annotate (document.rate user score))
  | removeDocument (now : Catalog) (id : DocId) : Operation now [] (now.removeDocument id)
  | addPlace (now : Catalog) (word : String) (id : DocId) (offset : UInt64) :
      Operation now [] (now.addPlace word id offset)
  | tidy (now : Catalog) (word : String) : Operation now [] (now.tidy word).2
  | tidyAll (now : Catalog) : Operation now [] now.tidyAll.2
  | clear (now : Catalog) : Operation now [] now.clear
  | keepMean (now : Catalog) : Operation now [] now.keepMean
  | log (now : Catalog) (usage : UsageLog) : Operation now [] { now with usage := usage }
  | reload {now next : Catalog} {disk : Disk} (loaded : reload disk now = .ok () next) :
      Operation now [.restored next.nextId] next

/-- Operations one after another, with all that they did to the counter. -/
inductive Run (first : Catalog) : List Notice → Catalog → Prop where
  | start : Run first [] first
  | step {notices more : List Notice} {now next : Catalog} (run : Run first notices now)
      (operation : Operation now more next) : Run first (notices ++ more) next

variable {first now next last : Catalog} {notices more : List Notice}

/-- One operation is a run. -/
theorem Run.single (operation : Operation now notices next) : Run now notices next :=
  Run.start.step operation

/-- Two runs one after another are a run with the notices of both. -/
theorem Run.trans (run : Run first notices now) (rest : Run now more last) :
    Run first (notices ++ more) last := by
  induction rest with
  | start => rwa [List.append_nil]
  | step _ operation ih =>
      rw [← List.append_assoc]
      exact ih.step operation

/-- An operation is a change, or it leaves the words as they are. -/
theorem Operation.change_or_same (operation : Operation now notices next) :
    Change now next ∨ next.terms = now.terms ∧ next.vocabulary = now.vocabulary := by
  cases operation with
  | allocate => exact .inr ⟨rfl, rfl⟩
  | addDocument => exact .inr ⟨rfl, rfl⟩
  | comment found user comment => exact .inl (.comment found user comment)
  | uncomment found user => exact .inl (.uncomment found user)
  | rate found user score => exact .inl (.rate found user score)
  | removeDocument id => exact .inl (.removeDocument now id)
  | addPlace word id offset => exact .inl (.addPlace now word id offset)
  | tidy word => exact .inl (.tidy now word)
  | tidyAll => exact .inl (.tidyAll now)
  | clear => exact .inl (.clear now)
  | keepMean => exact .inl (.keepMean now)
  | log usage => exact .inl (.log now usage)
  | reload loaded => exact .inl (.reload loaded)

/-- Over a run the vocabulary stays that of the words. -/
theorem knowsWords_of_run (run : Run first notices last) (known : first.KnowsWords) :
    last.KnowsWords := by
  induction run with
  | start => exact known
  | step _ operation ih =>
      rcases operation.change_or_same with change | ⟨terms, vocabulary⟩
      · exact knowsWords_of_change change ih
      · exact ⟨vocabulary ▸ ih.canonical, fun word => by rw [terms, vocabulary, ih.contains]⟩

/-- Every document is filed under its own number. -/
def InPlace (catalog : Catalog) : Prop :=
  ∀ id document, catalog.document? id = some document → document.id = id

theorem InPlace.of_mem (filed : now.InPlace) :
    ∀ entry ∈ now.documents.entries, entry.2.id = entry.1 :=
  fun entry member => filed entry.1 entry.2 (OrderedMap.get?_of_mem member)

/-- In a consistent catalog every document is filed under its own number. -/
theorem inPlace_of_consistent (consistent : now.snapshot.Consistent) : now.InPlace :=
  fun _ _ found => (consistent.of_get? found).1

/-- A document that is put in under its own number leaves the others where they are filed. -/
theorem InPlace.insert (filed : now.InPlace) {document : Document}
    (documents : next.documents = now.documents.insert document.id document) : next.InPlace := by
  intro id held found
  unfold document? at found
  rw [documents, OrderedMap.get?_insert] at found
  split at found
  next same =>
    cases found
    exact (Std.LawfulEqOrd.eq_of_compare same).symm
  next => exact filed id held found

/-- A catalog with the documents of another files them as the other does. -/
theorem InPlace.of_sameDocuments (filed : now.InPlace) (same : SameDocuments next now) :
    next.InPlace := by
  intro id document found
  unfold document? at found
  rw [same.documents] at found
  exact filed id document found

/-- No operation files a document under a number that is not its own. -/
theorem inPlace_of_operation (operation : Operation now notices next) (filed : now.InPlace) :
    next.InPlace := by
  cases operation with
  | allocate => exact filed
  | addDocument => exact filed.insert rfl
  | comment => exact filed.insert rfl
  | uncomment => exact filed.insert rfl
  | rate => exact filed.insert rfl
  | removeDocument id =>
      exact fun other document found => filed other document (document?_of_removeDocument found)
  | addPlace word id offset => exact filed.of_sameDocuments (sameDocuments_addPlace ..)
  | tidy word => exact filed.of_sameDocuments (sameDocuments_tidy ..)
  | tidyAll => exact filed.of_sameDocuments (sameDocuments_tidyWords ..)
  | clear => exact fun id document found => nomatch found
  | keepMean => exact filed
  | log => exact filed
  | reload loaded =>
      obtain ⟨snapshot, read, rfl⟩ := install_of_reload loaded
      obtain ⟨bytes, whole⟩ := ofBytes_of_readSnapshot read
      exact fun id document found => ((Snapshot.consistent_of_ofBytes whole).of_get? found).1

/-- Over a run every document stays filed under its own number. -/
theorem inPlace_of_run (run : Run first notices last) (filed : first.InPlace) : last.InPlace := by
  induction run with
  | start => exact filed
  | step _ operation ih => exact inPlace_of_operation operation ih

/-- Adding the words of a file is a run of operations. -/
theorem run_addWords (now : Catalog) (id : DocId) (words : List Extract.Word) :
    Run now [] (now.addWords id words) := by
  induction words generalizing now with
  | nil => exact .start
  | cons word rest ih => exact (Run.single (.addPlace now ..)).trans (ih _)

/-- Registering a file takes one number. -/
theorem run_register (now : Catalog) (item : Indexable) :
    Run now [.taken now.nextId] (now.register item).2 :=
  ((Run.single (.allocate now)).trans (run_addWords ..)).step (.addDocument ..)

/-- Registering files takes the numbers that are given to them. -/
theorem run_registerAll (now : Catalog) (items : List Indexable) :
    Run now ((now.registerAll items).1.map (.taken ·.2)) (now.registerAll items).2 := by
  induction items generalizing now with
  | nil => exact .start
  | cons item rest ih => exact (run_register now item).trans (ih _)

end Catalog
end Concordance
