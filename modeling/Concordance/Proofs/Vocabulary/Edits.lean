import Concordance.Proofs.Vocabulary
import Concordance.Proofs.Vocabulary.Marking
import Mathlib.Data.Finset.Card

namespace Concordance

/-- The ways to the trees of a forest. -/
def Forest.ways : Forest → List (List UInt8)
  | none => []
  | tree byte _ below beside => [byte] :: below.ways.map (byte :: ·) ++ beside.ways

/-- Every tree of a canonical forest stands on the way to a word. -/
theorem Forest.exists_holds_of_mem_ways {forest : Forest} (canonical : forest.IsCanonical)
    {way : List UInt8} (member : way ∈ forest.ways) :
    way ≠ [] ∧ ∃ rest, forest.holds (way ++ rest) = true := by
  induction forest generalizing way with
  | none => cases member
  | tree byte isWord below beside ihBelow ihBeside =>
      obtain ⟨leads, inside, sorted, after⟩ := canonical
      rw [ways, List.mem_append, List.mem_cons, List.mem_map] at member
      rcases member with (rfl | ⟨under, there, rfl⟩) | beyond
      · exact ⟨List.cons_ne_nil _ _, exists_holds_tree ⟨leads, inside, sorted, after⟩⟩
      · obtain ⟨filled, rest, found⟩ := ihBelow inside there
        refine ⟨List.cons_ne_nil _ _, rest, ?_⟩
        rw [List.cons_append, holds_tree, if_pos rfl, if_neg (by simp [filled])]
        exact found
      · obtain ⟨filled, rest, found⟩ := ihBeside sorted beyond
        refine ⟨filled, rest, ?_⟩
        obtain ⟨first, more, rfl⟩ := List.exists_cons_of_ne_nil filled
        rw [List.cons_append] at found ⊢
        have apart : first ≠ byte := by
          rintro rfl
          rw [holds_of_isAfter sorted after] at found
          cases found
        rwa [holds_tree, if_neg apart]

namespace Vocabulary

variable {vocabulary : Vocabulary}

theorem contains_eq_root (vocabulary : Vocabulary) (word : List Char) :
    vocabulary.contains word = vocabulary.root.holds (Utf8.encode word) := by
  rw [contains_eq_holds]
  cases Utf8.encode word <;> rfl

/-- A word that is missing goes in at the root. -/
theorem insert_eq_root (vocabulary : Vocabulary) (word : List Char) :
    vocabulary.insert word =
      if vocabulary.contains word then vocabulary
      else ⟨(vocabulary.root.insert (Utf8.encode word)).isWord,
        (vocabulary.root.insert (Utf8.encode word)).below, vocabulary.size + 1⟩ := by
  rw [insert]
  congr 1
  by_cases blank : word = []
  · simp [blank, Utf8.encode, Node.insert, root, Forest.insert]
  · have filled : Utf8.encode word ≠ [] := mt Utf8.encode_eq_nil.mp blank
    simp [blank, filled, Node.insert, root]

/-- A word that is there is taken out at the root. -/
theorem erase_eq_root (vocabulary : Vocabulary) (word : List Char) :
    vocabulary.erase word =
      if vocabulary.contains word then
        ⟨(vocabulary.root.erase (Utf8.encode word)).isWord,
          (vocabulary.root.erase (Utf8.encode word)).below, vocabulary.size - 1⟩
      else vocabulary := by
  rw [erase]
  congr 1
  by_cases blank : word = []
  · simp [blank, Utf8.encode, Node.erase, root, Forest.erase]
  · have filled : Utf8.encode word ≠ [] := mt Utf8.encode_eq_nil.mp blank
    simp [blank, filled, Node.erase, root]

/-- The single pass adds a word and tells whether it was missing. -/
theorem add_eq (canonical : vocabulary.forest.IsCanonical) (word : List Char) :
    vocabulary.add word = (!vocabulary.contains word, vocabulary.insert word) := by
  have inside : vocabulary.root.below.IsCanonical := canonical
  rw [add, Node.mark_eq _ inside, insert_eq_root, contains_eq_root]
  by_cases known : vocabulary.root.holds (Utf8.encode word) = true
  · rw [known, Node.insert_of_holds inside known]
    rfl
  · simp [known]

/-- The single pass removes a word and tells whether it was there. -/
theorem remove_eq (canonical : vocabulary.forest.IsCanonical) (word : List Char) :
    vocabulary.remove word = (vocabulary.contains word, vocabulary.erase word) := by
  have inside : vocabulary.root.below.IsCanonical := canonical
  rw [remove, Node.unmark_eq _ inside, erase_eq_root, contains_eq_root]
  by_cases known : vocabulary.root.holds (Utf8.encode word) = true
  · simp [known]
  · rw [Bool.not_eq_true] at known
    rw [known, Node.erase_of_not_holds inside known]
    rfl

/-- What may happen to a vocabulary. -/
inductive Edit where
  | insert (word : List Char)
  | remove (word : List Char)
  | clear

def Edit.apply : Edit → Vocabulary → Vocabulary
  | insert word, vocabulary => (vocabulary.add word).2
  | remove word, vocabulary => (vocabulary.remove word).2
  | clear, _ => empty

/-- The vocabulary after edits of the empty one. -/
def run (edits : List Edit) : Vocabulary :=
  edits.foldl (fun vocabulary edit => edit.apply vocabulary) empty

/-- The words that an edit leaves. -/
def Edit.left : Edit → Finset (List Char) → Finset (List Char)
  | insert word, words => Insert.insert word words
  | remove word, words => words.erase word
  | clear, _ => ∅

/-- The words that are left after edits. -/
def wordsAfter (edits : List Edit) : Finset (List Char) :=
  edits.foldl (fun words edit => edit.left words) ∅

/-- The vocabulary is canonical and contains just these words. -/
structure Keeps (vocabulary : Vocabulary) (words : Finset (List Char)) : Prop
    extends IsCanonical vocabulary where
  contains : ∀ word, vocabulary.contains word = decide (word ∈ words)

namespace Keeps

variable {words : Finset (List Char)}

theorem empty : Vocabulary.empty.Keeps ∅ := ⟨isCanonical_empty, fun word => by
  rw [contains_empty]
  rfl⟩

/-- Adding a word keeps the vocabulary in line with a set that gets it as well. -/
theorem add (keeps : vocabulary.Keeps words) (word : List Char) :
    (vocabulary.add word).2.Keeps (Insert.insert word words) := by
  rw [add_eq keeps.forest]
  refine ⟨isCanonical_insert keeps.toIsCanonical word, fun other => ?_⟩
  rw [contains_insert keeps.forest, keeps.contains]
  simp [Bool.or_comm]

/-- Removing a word keeps the vocabulary in line with a set that loses it as well. -/
theorem remove (keeps : vocabulary.Keeps words) (word : List Char) :
    (vocabulary.remove word).2.Keeps (words.erase word) := by
  rw [remove_eq keeps.forest]
  refine ⟨isCanonical_erase keeps.toIsCanonical word, fun other => ?_⟩
  rw [contains_erase keeps.forest, keeps.contains]
  simp [Bool.and_comm]

/-- An edit leaves the vocabulary of the words that it leaves. -/
theorem apply (keeps : vocabulary.Keeps words) (edit : Edit) :
    (edit.apply vocabulary).Keeps (edit.left words) := by
  cases edit with
  | insert word => exact keeps.add word
  | remove word => exact keeps.remove word
  | clear => exact empty

/-- Edits leave the vocabulary of the words that they leave. -/
theorem run (edits : List Edit) : (run edits).Keeps (wordsAfter edits) := by
  have all : ∀ (edits : List Edit) {vocabulary : Vocabulary} {words : Finset (List Char)},
      vocabulary.Keeps words →
      (edits.foldl (fun vocabulary edit => edit.apply vocabulary) vocabulary).Keeps
        (edits.foldl (fun words edit => edit.left words) words) := by
    intro edits
    induction edits with
    | nil => exact id
    | cons edit rest ih => exact fun keeps => ih (keeps.apply edit)
  exact all edits empty

/-- Only one vocabulary keeps given words. -/
theorem unique {first second : Vocabulary} (left : first.Keeps words) (right : second.Keeps words) :
    first = second :=
  eq_of_contains left.toIsCanonical right.toIsCanonical fun word => by
    rw [left.contains, right.contains]

/-- The words of the vocabulary are those of the set. -/
theorem mem_words (keeps : vocabulary.Keeps words) (word : List Char) :
    word ∈ vocabulary.words ↔ word ∈ words := by
  rw [Vocabulary.mem_words keeps.toIsSpelt, keeps.contains, decide_eq_true_iff]

/-- The vocabulary counts the words of the set. -/
theorem size_eq (keeps : vocabulary.Keeps words) : vocabulary.size = words.card := by
  have same : vocabulary.words.toFinset = words := by
    ext word
    rw [List.mem_toFinset, keeps.mem_words]
  rw [keeps.counted, ← List.toFinset_card_of_nodup (nodup_words keeps.toIsSpelt), same]

/-- Every tree stands on the way to a word that is kept. -/
theorem exists_word (keeps : vocabulary.Keeps words) {way : List UInt8}
    (member : way ∈ vocabulary.forest.ways) : ∃ word ∈ words, way <+: Utf8.encode word := by
  obtain ⟨filled, rest, found⟩ := Forest.exists_holds_of_mem_ways keeps.forest member
  obtain ⟨byte, more, rfl⟩ := List.exists_cons_of_ne_nil filled
  have held : vocabulary.holds (byte :: more ++ rest) = true := found
  obtain ⟨word, same⟩ := keeps.spelt _ held
  refine ⟨word, ?_, rest, same⟩
  rw [same, ← contains_eq_holds, keeps.contains] at held
  exact of_decide_eq_true held

end Keeps

/-- Words that are inserted one after another are the words that are left. -/
theorem wordsAfter_insert (words : List (List Char)) :
    wordsAfter (words.map .insert) = words.toFinset := by
  have all : ∀ (words : List (List Char)) (before : Finset (List Char)),
      (words.map Edit.insert).foldl (fun words edit => edit.left words) before =
        before ∪ words.toFinset := by
    intro words
    induction words with
    | nil => exact fun before => (Finset.union_empty before).symm
    | cons word rest ih =>
        intro before
        rw [List.map_cons, List.foldl_cons, ih, Edit.left, List.toFinset_cons,
          Finset.insert_union, Finset.union_insert]
  exact (all words ∅).trans (Finset.empty_union _)

/-- What is seen of a vocabulary of given words, and how it is built. -/
structure IsTreeOf (vocabulary : Vocabulary) (words : Finset (List Char)) : Prop where
  contains : ∀ word, vocabulary.contains word = decide (word ∈ words)
  added : ∀ word, (vocabulary.add word).1 = decide (Insert.insert word words ≠ words)
  removed : ∀ word, (vocabulary.remove word).1 = decide (words.erase word ≠ words)
  size : vocabulary.size = words.card
  /-- Every node other than the root lies on the path of a word. -/
  ways : ∀ way ∈ vocabulary.forest.ways, ∃ word ∈ words, way <+: Utf8.encode word
  /-- The same words build the same tree in any order. -/
  built : ∀ others : List (List Char), others.toFinset = words →
    run (others.map .insert) = vocabulary
  /-- A new word that comes and goes leaves the tree as it was. -/
  restored : ∀ word ∉ words, ((vocabulary.add word).2.remove word).2 = vocabulary

/-- Whatever edits were made, the vocabulary is the tree of the words that are left. -/
theorem isTreeOf_run (edits : List Edit) : (run edits).IsTreeOf (wordsAfter edits) := by
  have keeps := Keeps.run edits
  generalize run edits = vocabulary at keeps ⊢
  generalize wordsAfter edits = words at keeps ⊢
  constructor
  case contains => exact keeps.contains
  case added =>
    intro word
    rw [add_eq keeps.forest, keeps.contains]
    simp [Finset.insert_eq_self]
  case removed =>
    intro word
    rw [remove_eq keeps.forest, keeps.contains]
    simp [Finset.erase_eq_self]
  case size => exact keeps.size_eq
  case ways => exact fun _ member => keeps.exists_word member
  case built =>
    intro others same
    have other := Keeps.run (others.map .insert)
    rw [wordsAfter_insert, same] at other
    exact other.unique keeps
  case restored =>
    intro word fresh
    have back := (keeps.add word).remove word
    rw [Finset.erase_insert fresh] at back
    exact back.unique keeps

example : run [.insert ['c', 'a', 'r', 't'], .insert ['c'], .remove ['c', 'a', 'r', 't']] =
    run [.insert ['c']] := by
  decide

end Vocabulary
end Concordance
