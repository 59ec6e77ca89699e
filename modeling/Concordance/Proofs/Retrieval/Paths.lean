import Concordance.Proofs.Gist
import Concordance.Proofs.Retrieval.Stage

/-! Which documents words and conditions select, told by the gists of the documents alone. -/
namespace Concordance.Retrieval

open Query

/-- The words and the conditions choose the documents of a gist. -/
def passes (words : Option (Formula String)) (conditions : Option (Formula Condition))
    (gist : Gist) : Bool :=
  (words.all fun formula => chooses (fun word => (gist.places word).isSome) formula) &&
    conditions.all fun formula => formula.evaluate fun condition => condition.holds gist.metadata

/-- The paths of the documents that words choose and conditions keep, told by their steps. -/
def selectedPaths (catalog : Catalog) (words : Option (Formula String))
    (conditions : Option (Formula Condition)) : Option (List (List Path.Part)) := do
  let chosen ← Stage.choose catalog words
  let kept := chosen.filter fun id =>
    conditions.all fun formula => Stage.meets catalog formula id
  return kept.toList.filterMap fun id =>
    (catalog.document? id).map fun document => document.path.parts

/-- The paths that are selected are those of the gists that pass. -/
theorem selectedPaths_eq {catalog : Catalog} (words : Option (Formula String))
    (conditions : Option (Formula Condition)) (unwrapped : catalog.nextId ≠ 0)
    (numbered : ∀ id, catalog.isLive id = true → 1 ≤ id ∧ id ≤ catalog.greatestId) :
    selectedPaths catalog words conditions =
      some ((catalog.gists.filter (passes words conditions)).map Gist.parts) := by
  unfold selectedPaths Catalog.gists
  rw [choose_eq unwrapped]
  show some ((List.filter _ (chosen catalog words).toList).filterMap _) = _
  congr 1
  rw [toList_chosen unwrapped numbered, List.filter_filter, List.filterMap_filter,
    List.filter_filterMap, List.map_filterMap]
  apply List.filterMap_congr
  intro id member
  obtain ⟨document, found⟩ := Option.isSome_iff_exists.mp (mem_live.mp member)
  have stored : catalog.document? id = some document := found
  have known : hasWord catalog id = fun word => (catalog.places word id).isSome :=
    funext fun word => hasWord_eq_isSome catalog id word
  unfold Catalog.gist? passes Stage.meets
  rw [stored, known]
  simp only [Option.any_some, Option.map_some, Bool.and_comm]
  split <;> simp_all [Option.filter]

/-- Catalogs whose documents have the same gists select the same paths. -/
theorem perm_selectedPaths {first second : Catalog} (same : first.gists.Perm second.gists)
    (unwrapped : first.nextId ≠ 0 ∧ second.nextId ≠ 0)
    (numbered : ∀ id, first.isLive id = true → 1 ≤ id ∧ id ≤ first.greatestId)
    (counted : ∀ id, second.isLive id = true → 1 ≤ id ∧ id ≤ second.greatestId)
    (words : Option (Formula String)) (conditions : Option (Formula Condition)) :
    ∃ paths others, selectedPaths first words conditions = some paths ∧
      selectedPaths second words conditions = some others ∧ paths.Perm others :=
  ⟨_, _, selectedPaths_eq words conditions unwrapped.1 numbered,
    selectedPaths_eq words conditions unwrapped.2 counted, (same.filter _).map _⟩

end Concordance.Retrieval
