import Concordance.Proofs.Catalog.Places
import Concordance.Catalog.Snapshot
import Concordance.Proofs.Vocabulary

/-! The vocabulary of a catalog is that of its words. -/
namespace Concordance

namespace Vocabulary

/-- The vocabulary of a list of words. -/
def ofWords (words : List String) : Vocabulary :=
  words.foldl (fun vocabulary word => vocabulary.insert word.toList) .empty

/-- The vocabulary that is built of words is canonical. -/
theorem isCanonical_ofWords (words : List String) : (ofWords words).IsCanonical := by
  have all : ∀ (words : List String) (vocabulary : Vocabulary), vocabulary.IsCanonical →
      (words.foldl (fun vocabulary word => vocabulary.insert word.toList)
        vocabulary).IsCanonical := by
    intro words
    induction words with
    | nil => exact fun _ canonical => canonical
    | cons word rest ih =>
        exact fun vocabulary canonical => ih _ (isCanonical_insert canonical word.toList)
  exact all words empty isCanonical_empty

/-- The vocabulary that is built of words has these words and no others. -/
theorem contains_ofWords (words : List String) (word : String) :
    (ofWords words).contains word.toList = decide (word ∈ words) := by
  have all : ∀ (words : List String) (vocabulary : Vocabulary), vocabulary.IsCanonical →
      (words.foldl (fun vocabulary word => vocabulary.insert word.toList) vocabulary).contains
        word.toList = (vocabulary.contains word.toList || decide (word ∈ words)) := by
    intro words
    induction words with
    | nil => simp
    | cons first rest ih =>
        intro vocabulary canonical
        rw [List.foldl_cons, ih _ (isCanonical_insert canonical first.toList),
          contains_insert canonical.forest]
        simp [Bool.or_assoc, String.toList_inj]
  rw [ofWords, all words empty isCanonical_empty, contains_empty, Bool.false_or]

end Vocabulary

namespace Catalog

/-- The vocabulary holds the words that have places, and no others. -/
structure KnowsWords (catalog : Catalog) : Prop where
  canonical : catalog.vocabulary.IsCanonical
  contains : ∀ word : String,
    catalog.vocabulary.contains word.toList = catalog.terms.contains word

/-- The vocabulary is the one that is built from the words. -/
theorem KnowsWords.vocabulary_eq {catalog : Catalog} (known : catalog.KnowsWords) :
    catalog.vocabulary = .ofWords catalog.terms.keys := by
  apply Vocabulary.eq_of_contains known.canonical (Vocabulary.isCanonical_ofWords _)
  intro word
  have spelt : word = (String.ofList word).toList := (String.toList_ofList).symm
  rw [spelt, known.contains, Vocabulary.contains_ofWords, Bool.eq_iff_iff, decide_eq_true_iff]
  exact OrderedMap.contains_iff

/-- An empty catalog has the vocabulary of its words. -/
theorem knowsWords_empty (directory : Path) (usage : UsageLog) :
    (empty directory usage).KnowsWords where
  canonical := Vocabulary.isCanonical_empty
  contains word := Vocabulary.contains_empty word.toList

/-- Installing a snapshot builds the vocabulary of its words. -/
theorem knowsWords_install (catalog : Catalog) (snapshot : Snapshot) :
    (catalog.install snapshot).KnowsWords where
  canonical := Vocabulary.isCanonical_ofWords snapshot.terms.keys
  contains word := by
    show (Vocabulary.ofWords snapshot.terms.keys).contains word.toList =
      snapshot.terms.contains word
    rw [Vocabulary.contains_ofWords, Bool.eq_iff_iff, decide_eq_true_iff]
    exact OrderedMap.contains_iff.symm

/-- Adding a place keeps the vocabulary that of the words. -/
theorem knowsWords_addPlace {catalog : Catalog} (known : catalog.KnowsWords) (word : String)
    (id : DocId) (offset : UInt64) : (catalog.addPlace word id offset).KnowsWords := by
  unfold addPlace
  split
  next posting found =>
    refine ⟨known.canonical, fun other => ?_⟩
    have there : catalog.terms.contains word = true := Option.isSome_of_eq_some found
    show catalog.vocabulary.contains other.toList = (catalog.terms.insert word _).contains other
    rw [OrderedMap.contains_insert, known.contains]
    by_cases same : other = word
    · simp [same, there]
    · simp [same]
  next missing =>
    refine ⟨Vocabulary.isCanonical_insert known.canonical word.toList, fun other => ?_⟩
    show (catalog.vocabulary.insert word.toList).contains other.toList =
      (catalog.terms.insert word _).contains other
    rw [OrderedMap.contains_insert, Vocabulary.contains_insert known.canonical.forest,
      known.contains]
    congr 1
    exact decide_eq_decide.mpr String.toList_inj

/-- Tidying a word keeps the vocabulary that of the words. -/
theorem knowsWords_tidy {catalog : Catalog} (known : catalog.KnowsWords) (word : String) :
    (catalog.tidy word).2.KnowsWords := by
  cases found : catalog.posting? word with
  | none =>
      unfold tidy
      rw [found]
      exact known
  | some posting =>
      have there : catalog.terms.contains word = true := Option.isSome_of_eq_some found
      unfold tidy
      simp only [found]
      split
      next => exact known
      next =>
        split
        next =>
          refine ⟨Vocabulary.isCanonical_erase known.canonical word.toList, fun other => ?_⟩
          show (catalog.vocabulary.erase word.toList).contains other.toList =
            (catalog.terms.erase word).contains other
          rw [OrderedMap.contains_erase, Vocabulary.contains_erase known.canonical.forest,
            known.contains]
          congr 1
          exact decide_eq_decide.mpr (not_congr String.toList_inj)
        next =>
          refine ⟨known.canonical, fun other => ?_⟩
          show catalog.vocabulary.contains other.toList =
            (catalog.terms.insert word _).contains other
          rw [OrderedMap.contains_insert, known.contains]
          by_cases same : other = word
          · simp [same, there]
          · simp [same]

/-- Tidying words keeps the vocabulary that of the words. -/
theorem knowsWords_tidyWords {catalog : Catalog} (known : catalog.KnowsWords)
    (words : List String) : (catalog.tidyWords words).2.KnowsWords := by
  induction words generalizing catalog with
  | nil => exact known
  | cons word rest ih => exact ih (knowsWords_tidy known word)

end Catalog
end Concordance
