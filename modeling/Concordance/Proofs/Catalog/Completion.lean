import Concordance.Proofs.Catalog.Operation

/-! Words that start in a given way. -/
namespace Concordance.Catalog

variable {catalog first last : Catalog} {notices : List Notice}

/-- The words stand in ascending order. -/
theorem pairwise_terms (catalog : Catalog) :
    (catalog.terms.keys.map String.toList).Pairwise (· < ·) := by
  rw [OrderedMap.keys, List.map_map, List.pairwise_map]
  apply catalog.terms.ascending.imp
  intro one other before
  exact String.lt_iff.mp (compareOfLessAndEq_eq_lt.mp before)

/-- The order of the words is that of their bytes. -/
theorem pairwise_bytes (catalog : Catalog) :
    (catalog.terms.keys.map Utf8.bytes).Pairwise (· < ·) := by
  have ascending := catalog.pairwise_terms
  rw [List.pairwise_map] at ascending ⊢
  apply ascending.imp
  intro one other before
  exact Utf8.encode_lt_encode before

/-- The vocabulary lists the words that have places, in their order. -/
theorem KnowsWords.words_eq (known : catalog.KnowsWords) :
    catalog.vocabulary.words = catalog.terms.keys.map String.toList := by
  apply Vocabulary.words_eq known.canonical.toIsSpelt catalog.pairwise_terms
  intro word
  have spelt : word = (String.ofList word).toList := String.toList_ofList.symm
  rw [spelt, known.contains, OrderedMap.contains_iff,
    List.mem_map_of_injective fun _ _ => String.toList_inj.mp]

/-- The vocabulary counts as many words as have places. -/
theorem KnowsWords.size_eq (known : catalog.KnowsWords) :
    catalog.vocabulary.size = catalog.terms.size := by
  rw [known.canonical.counted, known.words_eq, List.length_map, OrderedMap.keys, List.length_map]
  rfl

/-- The words whose bytes start with those of a text. -/
def startingWith (catalog : Catalog) (start : String) : List String :=
  catalog.terms.keys.filter fun word => (Utf8.bytes start).isPrefixOf (Utf8.bytes word)

/-- The words of the vocabulary that start in a way are those with places that do. -/
theorem KnowsWords.filter_words_eq (known : catalog.KnowsWords) (start : String) :
    catalog.vocabulary.words.filter (start.toList.isPrefixOf ·) =
      (catalog.startingWith start).map String.toList := by
  have same : (start.toList.isPrefixOf ·) ∘ String.toList =
      fun word => (Utf8.bytes start).isPrefixOf (Utf8.bytes word) :=
    funext fun word => (Utf8.isPrefixOf_encode start.toList word.toList).symm
  rw [known.words_eq, List.filter_map, same, startingWith]

/-- A start is completed by the first words that start so. Where there is none, or none is wanted,
the start stands for itself. -/
theorem KnowsWords.complete_eq_take (known : catalog.KnowsWords) (start : String) (limit : Nat) :
    catalog.complete start limit =
      if catalog.startingWith start = [] ∨ limit = 0 then [start]
      else (catalog.startingWith start).take limit := by
  have back : ((catalog.startingWith start).map String.toList).map String.ofList =
      catalog.startingWith start := by
    simp [Function.comp_def]
  rw [complete, Vocabulary.complete_eq known.canonical.toIsSpelt, known.filter_words_eq,
    apply_ite (List.map String.ofList), List.map_take, back]
  simp only [List.map_eq_nil_iff, List.map_cons, List.map_nil, String.ofList_toList]

/-- Whatever has been done to a catalog, the vocabulary holds and counts just the words that have
places, and completes every start by the first of these words that start so. -/
theorem complete_of_run (begun : IsFirst first) (run : Run first notices last) :
    last.vocabulary.words = last.terms.keys.map String.toList ∧
      (∀ word : String, last.vocabulary.contains word.toList = last.terms.contains word) ∧
      last.vocabulary.size = last.terms.size ∧
      (last.terms.keys.map Utf8.bytes).Pairwise (· < ·) ∧
      ∀ start limit, last.complete start limit =
        if last.startingWith start = [] ∨ limit = 0 then [start]
        else (last.startingWith start).take limit := by
  have known : last.KnowsWords := knowsWords_of_run run (knowsWords_of_isFirst begun)
  exact ⟨known.words_eq, known.contains, known.size_eq, last.pairwise_bytes,
    known.complete_eq_take⟩

/-- A word without documents is tidied away, and then it is no longer offered. -/
theorem complete_of_run_tidied :
    let first := Catalog.empty ⟨"/"⟩ .empty
    let last := (((first.addPlace "hide" 2 0).addPlace "hi" 1 0).addPlace "ho" 3 0).tidy "ho" |>.2
    IsFirst first ∧ Run first [] last ∧ last.vocabulary.size = 2 ∧
      last.complete "h" 1 = ["hi"] ∧ last.complete "h" 5 = ["hi", "hide"] ∧
      last.complete "ho" 5 = ["ho"] ∧ last.complete "h" 0 = ["h"] := by
  intro first last
  have begun : IsFirst first := .inl ⟨_, _, rfl⟩
  have run : Run first [] last :=
    (((Run.single (.addPlace first "hide" 2 0)).step (.addPlace _ "hi" 1 0)).step
      (.addPlace _ "ho" 3 0)).step (.tidy _ "ho")
  obtain ⟨-, -, counted, -, completed⟩ := complete_of_run begun run
  have both : last.startingWith "h" = ["hi", "hide"] := by decide +kernel
  have gone : last.startingWith "ho" = [] := by decide +kernel
  refine ⟨begun, run, counted, ?_, ?_, ?_, ?_⟩ <;> rw [completed]
  · rw [both]
    rfl
  · rw [both]
    rfl
  · rw [gone]
    rfl
  · rw [both]
    rfl

end Concordance.Catalog
