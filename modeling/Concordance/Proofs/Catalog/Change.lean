import Concordance.Proofs.Catalog.Faithful
import Concordance.Proofs.Catalog.Words

/-! The changes of a catalog, one by one, and what all of them keep. -/
namespace Concordance

namespace Snapshot

/-- Documents that are filed under their own numbers, told by what is found at each number. -/
theorem consistent_of_get? {snapshot : Snapshot} (counts : snapshot.nextId ≠ 0)
    (each : ∀ id document, snapshot.documents.get? id = some document →
      document.id = id ∧ id < snapshot.nextId) : snapshot.Consistent where
  filed entry member := (each entry.1 entry.2 (OrderedMap.get?_of_mem member)).1
  counts := counts
  taken := by
    intro id member
    obtain ⟨entry, held, rfl⟩ := List.mem_map.mp member
    exact (each entry.1 entry.2 (OrderedMap.get?_of_mem held)).2

/-- A document that is found is filed under its own number, and the number has been taken. -/
theorem Consistent.of_get? {snapshot : Snapshot} (consistent : snapshot.Consistent) {id : DocId}
    {document : Document} (found : snapshot.documents.get? id = some document) :
    document.id = id ∧ id < snapshot.nextId := by
  have member := OrderedMap.get?_eq_some_iff.mp found
  exact ⟨consistent.filed _ member, consistent.taken id (List.mem_map_of_mem member)⟩

/-- A snapshot stays consistent when it loses documents. -/
theorem Consistent.restrict {snapshot other : Snapshot} (consistent : snapshot.Consistent)
    (counter : other.nextId = snapshot.nextId)
    (documents : ∀ id document, other.documents.get? id = some document →
      snapshot.documents.get? id = some document) : other.Consistent :=
  consistent_of_get? (counter ▸ consistent.counts) fun id document found =>
    counter ▸ consistent.of_get? (documents id document found)

end Snapshot

namespace Catalog

/-- A file is registered under a number that is taken with it. -/
theorem consistent_register {catalog : Catalog} (consistent : catalog.snapshot.Consistent)
    (item : Indexable) (room : catalog.nextId.toNat + 1 < UInt64.size) :
    (catalog.register item).2.snapshot.Consistent := by
  have nextId : (catalog.register item).2.snapshot.nextId = catalog.nextId + 1 :=
    nextId_register catalog item
  have documents : ∀ id, (catalog.register item).2.snapshot.documents.get? id =
      if id = catalog.nextId then some (item.document id) else catalog.document? id :=
    document?_register catalog item
  refine Snapshot.consistent_of_get? ?_ ?_
  · rw [nextId]
    exact succ_ne_zero room
  · intro id document found
    rw [nextId]
    rw [documents] at found
    by_cases same : id = catalog.nextId
    · rw [if_pos same] at found
      cases found
      exact ⟨rfl, lt_succ room (.inl same)⟩
    · rw [if_neg same] at found
      obtain ⟨filed, taken⟩ := consistent.of_get? found
      exact ⟨filed, lt_succ room (.inr taken)⟩

/-- Registering files keeps a catalog consistent as long as the counter stays in range. -/
theorem consistent_registerAll {catalog : Catalog} (consistent : catalog.snapshot.Consistent)
    (items : List Indexable) (room : catalog.nextId.toNat + items.length < UInt64.size) :
    (catalog.registerAll items).2.snapshot.Consistent := by
  induction items generalizing catalog with
  | nil => exact consistent
  | cons item rest ih =>
      rw [List.length_cons] at room
      exact ih (consistent_register consistent item (by omega)) (room_register item room)

/-- One thing that is done to a catalog. Numbers are taken before the counter comes round, documents
are added under numbers that have been taken, and the content of any disk may be loaded. -/
inductive Change : Catalog → Catalog → Prop where
  | allocate {now : Catalog} (room : now.nextId.toNat + 1 < UInt64.size) :
      Change now now.allocate.2
  | addDocument {now : Catalog} {id : DocId} (taken : id < now.nextId) (path : Path)
      (facts : DocumentFacts) (metadata : Metadata) :
      Change now (now.addDocument (.new id path facts metadata))
  | comment {now : Catalog} {id : DocId} {document : Document}
      (found : now.document? id = some document) (user : String) (comment : Comment) :
      Change now (now.annotate (document.comment user comment))
  | uncomment {now : Catalog} {id : DocId} {document : Document}
      (found : now.document? id = some document) (user : String) :
      Change now (now.annotate (document.uncomment user))
  | rate {now : Catalog} {id : DocId} {document : Document}
      (found : now.document? id = some document) (user : String) (score : Number) :
      Change now (now.annotate (document.rate user score))
  | removeDocument (now : Catalog) (id : DocId) : Change now (now.removeDocument id)
  | addPlace (now : Catalog) (word : String) (id : DocId) (offset : UInt64) :
      Change now (now.addPlace word id offset)
  | tidy (now : Catalog) (word : String) : Change now (now.tidy word).2
  | tidyAll (now : Catalog) : Change now now.tidyAll.2
  | clear (now : Catalog) : Change now now.clear
  | keepMean (now : Catalog) : Change now now.keepMean
  | log (now : Catalog) (usage : UsageLog) : Change now { now with usage := usage }
  | reload {now next : Catalog} {disk : Disk} (loaded : reload disk now = .ok () next) :
      Change now next

/-- A change that does not bring the counter of changes round. -/
def SteadyChange (now next : Catalog) : Prop :=
  Change now next ∧ now.generation ≤ next.generation

/-- Replacing what readers have added to a document keeps all documents where they are filed. -/
theorem consistent_annotate {now : Catalog} (consistent : now.snapshot.Consistent) {id : DocId}
    {document changed : Document} (found : now.document? id = some document)
    (same : changed.id = document.id) : (now.annotate changed).snapshot.Consistent := by
  have here := consistent.of_get? found
  refine Snapshot.consistent_of_get? consistent.counts fun other held stored => ?_
  have looked : (now.documents.insert changed.id changed).get? other = some held := stored
  rw [OrderedMap.get?_insert] at looked
  split at looked
  next equal =>
    have named := Std.LawfulEqOrd.eq_of_compare equal
    cases looked
    refine ⟨named.symm, ?_⟩
    rw [named, same, here.1]
    exact here.2
  next => exact consistent.of_get? looked

/-- A catalog with the documents and the counter of a consistent one is consistent. -/
theorem SameDocuments.consistent {first second : Catalog} (same : SameDocuments first second)
    (consistent : second.snapshot.Consistent) : first.snapshot.Consistent :=
  consistent.restrict same.nextId fun id document found => by
    have documents : first.snapshot.documents = second.snapshot.documents := same.documents
    rwa [documents] at found

/-- Every change keeps all documents filed under their own numbers, which have been taken. -/
theorem consistent_of_change {now next : Catalog} (change : Change now next)
    (consistent : now.snapshot.Consistent) : next.snapshot.Consistent := by
  cases change with
  | allocate room =>
      refine Snapshot.consistent_of_get? (succ_ne_zero room) fun id document found => ?_
      obtain ⟨filed, taken⟩ := consistent.of_get? found
      exact ⟨filed, lt_succ room (.inr taken)⟩
  | @addDocument id taken path facts metadata =>
      refine Snapshot.consistent_of_get? consistent.counts fun other document found => ?_
      have looked : (now.documents.insert id (.new id path facts metadata)).get? other =
          some document := found
      rw [OrderedMap.get?_insert] at looked
      split at looked
      next equal =>
        rw [Std.LawfulEqOrd.eq_of_compare equal]
        cases looked
        exact ⟨rfl, taken⟩
      next => exact consistent.of_get? looked
  | comment found user comment => exact consistent_annotate consistent found rfl
  | uncomment found user => exact consistent_annotate consistent found rfl
  | rate found user score => exact consistent_annotate consistent found rfl
  | removeDocument id =>
      exact consistent.restrict (nextId_removeDocument now id) fun other document found =>
        document?_of_removeDocument found
  | addPlace word id offset =>
      exact (sameDocuments_addPlace now word id offset).consistent consistent
  | tidy word => exact (sameDocuments_tidy now word).consistent consistent
  | tidyAll => exact (sameDocuments_tidyWords now _).consistent consistent
  | clear => exact consistent.restrict rfl fun id document found => nomatch found
  | keepMean => exact consistent
  | log usage => exact consistent
  | reload loaded =>
      obtain ⟨snapshot, read, rfl⟩ := install_of_reload loaded
      obtain ⟨bytes, whole⟩ := ofBytes_of_readSnapshot read
      exact Snapshot.consistent_of_ofBytes whole

/-- Every change keeps the vocabulary that of the words. -/
theorem knowsWords_of_change {now next : Catalog} (change : Change now next)
    (known : now.KnowsWords) : next.KnowsWords := by
  cases change with
  | allocate => exact ⟨known.canonical, known.contains⟩
  | addDocument => exact ⟨known.canonical, known.contains⟩
  | comment => exact ⟨known.canonical, known.contains⟩
  | uncomment => exact ⟨known.canonical, known.contains⟩
  | rate => exact ⟨known.canonical, known.contains⟩
  | removeDocument id =>
      unfold removeDocument
      split <;> exact ⟨known.canonical, known.contains⟩
  | addPlace word id offset => exact knowsWords_addPlace known word id offset
  | tidy word => exact knowsWords_tidy known word
  | tidyAll => exact knowsWords_tidyWords known _
  | clear => exact ⟨Vocabulary.isCanonical_empty, fun word => Vocabulary.contains_empty word.toList⟩
  | keepMean => exact ⟨known.canonical, known.contains⟩
  | log => exact ⟨known.canonical, known.contains⟩
  | reload loaded =>
      obtain ⟨snapshot, -, rfl⟩ := install_of_reload loaded
      exact knowsWords_install now snapshot

/-- A mean that is kept was computed before now, and it is the mean of now where nothing has changed
since. -/
def KnowsMean (catalog : Catalog) : Prop :=
  ∀ generation mean, catalog.keptMean = some (generation, mean) →
    generation ≤ catalog.generation ∧
      (generation = catalog.generation → mean = catalog.computeMean)

/-- A catalog that remembers no stale mean returns the mean of its documents. -/
theorem KnowsMean.meanWordCount_eq {catalog : Catalog} (known : catalog.KnowsMean) :
    catalog.meanWordCount = catalog.computeMean := by
  unfold meanWordCount
  cases kept : catalog.keptMean with
  | none => rfl
  | some entry =>
      obtain ⟨generation, mean⟩ := entry
      show (if generation = catalog.generation then mean else catalog.computeMean) = _
      by_cases current : generation = catalog.generation
      · rw [if_pos current]
        exact (known generation mean kept).2 current
      · rw [if_neg current]

/-- A kept mean stays good where the documents have as many words as before. -/
theorem KnowsMean.of_computeMean_eq {now next : Catalog} (known : now.KnowsMean)
    (kept : next.keptMean = now.keptMean) (same : next.computeMean = now.computeMean)
    (later : now.generation ≤ next.generation) : next.KnowsMean := by
  intro generation mean held
  rw [kept] at held
  obtain ⟨before, good⟩ := known generation mean held
  refine ⟨UInt64.le_trans before later, fun current => ?_⟩
  rw [same]
  exact good (UInt64.le_antisymm before (current ▸ later))

/-- After a change that is counted a kept mean is one of before. -/
theorem KnowsMean.of_touched {now next : Catalog} (known : now.KnowsMean)
    (kept : next.keptMean = now.keptMean) (touched : next.generation = now.generation + 1)
    (later : now.generation ≤ next.generation) : next.KnowsMean := by
  intro generation mean held
  rw [kept] at held
  have before := (known generation mean held).1
  refine ⟨UInt64.le_trans before later, fun current => ?_⟩
  have same : now.generation = now.generation + 1 := by
    rw [← touched]
    exact UInt64.le_antisymm later (current ▸ before)
  have counted := congrArg UInt64.toNat same
  rw [UInt64.toNat_add, UInt64.toNat_one] at counted
  omega

/-- The numbers of words of the live documents, in the order of the numbers of these. -/
def wordCounts (catalog : Catalog) : List UInt64 :=
  catalog.live.toList.filterMap fun id => (catalog.document? id).map (·.facts.wordCount)

/-- The sum of counts divided by how many there are, and 0 where there are none. -/
def meanOf (counts : List UInt64) : Float :=
  if counts = [] then 0.0
  else (counts.map UInt64.toFloat).foldl (· + ·) (-0.0) / Float.ofNat counts.length

/-- The counts of words that the mean is taken of are those of the documents. -/
theorem wordCounts_eq (catalog : Catalog) :
    catalog.wordCounts = catalog.documents.values.map (·.facts.wordCount) := by
  show (catalog.documents.entries.map Prod.fst).filterMap _ = (catalog.documents.entries.map _).map _
  rw [List.filterMap_map, List.map_map, ← List.filterMap_eq_map]
  refine List.filterMap_congr fun entry member => ?_
  show (catalog.documents.get? entry.1).map _ = _
  rw [OrderedMap.get?_of_mem member]
  rfl

/-- What is computed is the mean of the word counts of the live documents. -/
theorem computeMean_eq (catalog : Catalog) : catalog.computeMean = meanOf catalog.wordCounts := by
  rw [wordCounts_eq]
  unfold computeMean meanOf
  cases catalog.documents.values with
  | nil => rfl
  | cons document rest =>
      have filled : (document :: rest).map (·.facts.wordCount) ≠ [] := List.cons_ne_nil _ _
      rw [if_neg filled, List.map_map, List.length_map]
      rfl

/-- Catalogs with the same documents have the same mean. -/
theorem computeMean_of_documents_eq {now next : Catalog} (same : next.documents = now.documents) :
    next.computeMean = now.computeMean := by
  unfold computeMean
  rw [same]

/-- The mean depends on the numbers of words alone. -/
theorem computeMean_congr {now next : Catalog}
    (same : next.documents.values.map (·.facts.wordCount) =
      now.documents.values.map (·.facts.wordCount)) : next.computeMean = now.computeMean := by
  rw [computeMean_eq, computeMean_eq, wordCounts_eq, wordCounts_eq, same]

/-- What readers add to a document leaves the mean as it is. -/
theorem computeMean_annotate {now : Catalog} {document changed : Document}
    (found : now.document? changed.id = some document) (same : changed.facts = document.facts) :
    (now.annotate changed).computeMean = now.computeMean := by
  apply computeMean_congr
  have kept := OrderedMap.map_put_of_look_eq_some
    (fun document : Document => document.facts.wordCount) found
    (congrArg DocumentFacts.wordCount same)
  show (((OrderedMap.put changed.id changed now.documents.entries).map Prod.snd).map _) =
    (now.documents.entries.map Prod.snd).map _
  rw [List.map_map, List.map_map]
  exact kept

theorem keptMean_addPlace (now : Catalog) (word : String) (id : DocId) (offset : UInt64) :
    (now.addPlace word id offset).keptMean = now.keptMean := by
  unfold addPlace
  split <;> rfl

theorem keptMean_tidy (now : Catalog) (word : String) :
    (now.tidy word).2.keptMean = now.keptMean := by
  unfold tidy
  split
  next => rfl
  next =>
    split
    next => rfl
    next =>
      simp only
      split <;> rfl

/-- Tidying does not touch the mean that is remembered. -/
theorem keptMean_tidyWords (now : Catalog) (words : List String) :
    (now.tidyWords words).2.keptMean = now.keptMean := by
  induction words generalizing now with
  | nil => rfl
  | cons word rest ih => exact (ih _).trans (keptMean_tidy now word)

/-- Every steady change keeps a mean good. -/
theorem knowsMean_of_change {now next : Catalog} (change : SteadyChange now next)
    (consistent : now.snapshot.Consistent) (known : now.KnowsMean) : next.KnowsMean := by
  obtain ⟨change, later⟩ := change
  cases change with
  | allocate => exact known.of_computeMean_eq rfl rfl later
  | addDocument => exact known.of_touched rfl rfl later
  | @comment id document found user comment =>
      rw [← (consistent.of_get? found).1] at found
      exact known.of_computeMean_eq rfl (computeMean_annotate found rfl) later
  | @uncomment id document found user =>
      rw [← (consistent.of_get? found).1] at found
      exact known.of_computeMean_eq rfl (computeMean_annotate found rfl) later
  | @rate id document found user score =>
      rw [← (consistent.of_get? found).1] at found
      exact known.of_computeMean_eq rfl (computeMean_annotate found rfl) later
  | removeDocument id =>
      unfold removeDocument at later ⊢
      by_cases live : now.isLive id = true
      · rw [if_pos live] at later ⊢
        exact known.of_touched rfl rfl later
      · rw [if_neg live]
        exact known
  | addPlace word id offset =>
      exact known.of_computeMean_eq (keptMean_addPlace now word id offset)
        (computeMean_of_documents_eq (sameDocuments_addPlace now word id offset).documents) later
  | tidy word =>
      exact known.of_computeMean_eq (keptMean_tidy now word)
        (computeMean_of_documents_eq (sameDocuments_tidy now word).documents) later
  | tidyAll =>
      exact known.of_computeMean_eq (keptMean_tidyWords now _)
        (computeMean_of_documents_eq (sameDocuments_tidyWords now _).documents) later
  | clear => exact known.of_touched rfl rfl later
  | keepMean =>
      intro generation mean kept
      have pair : (now.generation, now.meanWordCount) = (generation, mean) := Option.some.inj kept
      cases pair
      exact ⟨UInt64.le_refl _, fun _ => known.meanWordCount_eq⟩
  | log => exact known
  | reload loaded =>
      obtain ⟨snapshot, -, rfl⟩ := install_of_reload loaded
      exact known.of_touched rfl rfl later

end Catalog
end Concordance
