import Concordance.Proofs.Vocabulary.Listing

namespace Concordance

theorem Forest.text?_encode (text : List Char) : Forest.text? (Utf8.encode text) = some text := by
  rw [text?, Utf8.decode, Utf8.decodeFrom_encode]
  rfl

/-- Texts are read back from their bytes, one by one. -/
theorem Forest.filterMap_text? (texts : List (List Char)) :
    (texts.map Utf8.encode).filterMap text? = texts := by
  have all : Forest.text? ∘ Utf8.encode = some := funext text?_encode
  rw [List.filterMap_map, all, List.filterMap_some]

namespace Vocabulary

variable {vocabulary : Vocabulary}

/-- The words as bytes. -/
def paths (vocabulary : Vocabulary) : List (List UInt8) :=
  (if vocabulary.hasEmpty then [[]] else []) ++ vocabulary.forest.words

/-- The words in ascending order of their bytes. -/
def words (vocabulary : Vocabulary) : List (List Char) := vocabulary.paths.filterMap Forest.text?

/-- A word as bytes is in the vocabulary. -/
def holds (vocabulary : Vocabulary) : List UInt8 → Bool
  | [] => vocabulary.hasEmpty
  | byte :: rest => vocabulary.forest.holds (byte :: rest)

/-- A vocabulary contains a word where its forest holds the bytes of the word. -/
theorem contains_eq_holds (vocabulary : Vocabulary) (word : List Char) :
    vocabulary.contains word = vocabulary.holds (Utf8.encode word) := by
  unfold contains find?
  cases path : Utf8.encode word with
  | nil => rfl
  | cons byte rest =>
      rw [if_neg (by simp)]
      show _ = (Forest.find? (byte :: rest) vocabulary.forest).any Prod.fst
      cases Forest.find? (byte :: rest) vocabulary.forest <;> rfl

/-- The paths of a canonical vocabulary are those that it holds. -/
theorem mem_paths (canonical : vocabulary.forest.IsCanonical) {path : List UInt8} :
    path ∈ vocabulary.paths ↔ vocabulary.holds path = true := by
  rw [paths, List.mem_append]
  cases path with
  | nil =>
      have absent : [] ∉ vocabulary.forest.words := fun member =>
        Forest.ne_nil_of_mem_words member rfl
      rw [holds]
      cases vocabulary.hasEmpty <;> simp [absent]
  | cons byte rest =>
      rw [holds, ← Forest.mem_words canonical]
      cases vocabulary.hasEmpty <;> simp

/-- The paths of a canonical vocabulary stand in ascending order. -/
theorem pairwise_paths (canonical : vocabulary.forest.IsCanonical) :
    vocabulary.paths.Pairwise (· < ·) := by
  rw [paths, List.pairwise_append]
  refine ⟨?_, Forest.pairwise_words canonical, ?_⟩
  · cases vocabulary.hasEmpty <;> simp
  · intro first here second member
    obtain ⟨byte, rest, rfl⟩ := List.exists_cons_of_ne_nil (Forest.ne_nil_of_mem_words member)
    cases blank : vocabulary.hasEmpty with
    | true =>
        rw [blank] at here
        rw [List.mem_singleton.mp here]
        exact List.Lex.nil
    | false =>
        rw [blank] at here
        cases here

/-- The forest of the vocabulary is canonical, and all its words are texts. -/
structure IsSpelt (vocabulary : Vocabulary) : Prop where
  forest : vocabulary.forest.IsCanonical
  spelt : ∀ path, vocabulary.holds path = true → ∃ text, path = Utf8.encode text

/-- Nothing is left out when the words are read as texts. -/
theorem IsSpelt.paths_eq (spelt : vocabulary.IsSpelt) :
    vocabulary.paths = vocabulary.words.map Utf8.encode := by
  have all : ∀ paths : List (List UInt8), (∀ path ∈ paths, ∃ text, path = Utf8.encode text) →
      paths = (paths.filterMap Forest.text?).map Utf8.encode := by
    intro paths texts
    induction paths with
    | nil => rfl
    | cons path rest ih =>
        obtain ⟨text, rfl⟩ := texts path List.mem_cons_self
        have more := ih fun other member => texts other (List.mem_cons_of_mem _ member)
        rw [List.filterMap_cons_some (Forest.text?_encode text), List.map_cons, ← more]
  exact all _ fun path member => spelt.spelt path ((mem_paths spelt.forest).mp member)

/-- The words that are listed are those that the vocabulary contains. -/
theorem mem_words (spelt : vocabulary.IsSpelt) {word : List Char} :
    word ∈ vocabulary.words ↔ vocabulary.contains word = true := by
  rw [contains_eq_holds, ← mem_paths spelt.forest, spelt.paths_eq, List.mem_map]
  simp [Utf8.encode_inj]

/-- The words stand in ascending order of their bytes. -/
theorem pairwise_words (spelt : vocabulary.IsSpelt) :
    vocabulary.words.Pairwise (· < ·) := by
  have ascending := pairwise_paths spelt.forest
  rw [spelt.paths_eq, List.pairwise_map] at ascending
  exact ascending.imp Utf8.encode_lt_encode_iff.mp

/-- Every word is listed once. -/
theorem nodup_words (spelt : vocabulary.IsSpelt) : vocabulary.words.Nodup :=
  (pairwise_words spelt).imp ne_of_lt

/-- A list of words in ascending order is that of the vocabulary that contains just these. -/
theorem words_eq (spelt : vocabulary.IsSpelt) {others : List (List Char)}
    (ascending : others.Pairwise (· < ·))
    (same : ∀ word, word ∈ others ↔ vocabulary.contains word = true) :
    vocabulary.words = others := by
  have perm : vocabulary.words.Perm others := by
    rw [List.perm_ext_iff_of_nodup (nodup_words spelt) (ascending.imp ne_of_lt)]
    exact fun word => (mem_words spelt).trans (same word).symm
  exact perm.eq_of_pairwise (fun _ _ _ _ less more => absurd more (lt_asymm less))
    (pairwise_words spelt) ascending

/-- The words are spelt as they should be, and they have been counted. -/
structure IsCanonical (vocabulary : Vocabulary) : Prop extends IsSpelt vocabulary where
  counted : vocabulary.size = vocabulary.words.length

/-- The empty vocabulary is canonical. -/
theorem isCanonical_empty : empty.IsCanonical where
  forest := True.intro
  spelt path held := by cases path <;> cases held
  counted := rfl

theorem contains_empty (word : List Char) : empty.contains word = false := by
  rw [contains_eq_holds]
  cases Utf8.encode word <;> rfl

/-- Canonical vocabularies of the same words are the same vocabulary. -/
theorem eq_of_contains {first second : Vocabulary} (left : first.IsCanonical)
    (right : second.IsCanonical) (same : ∀ word, first.contains word = second.contains word) :
    first = second := by
  have holds (path : List UInt8) : first.holds path = second.holds path := by
    rw [Bool.eq_iff_iff]
    constructor <;> intro held
    · obtain ⟨text, rfl⟩ := left.spelt path held
      rwa [← contains_eq_holds, ← same, contains_eq_holds]
    · obtain ⟨text, rfl⟩ := right.spelt path held
      rwa [← contains_eq_holds, same, contains_eq_holds]
  have blank : first.hasEmpty = second.hasEmpty := holds []
  have forests : first.forest = second.forest := by
    apply Forest.eq_of_holds left.forest right.forest
    intro path
    cases path with
    | nil => rw [Forest.holds_nil, Forest.holds_nil]
    | cons byte rest => exact holds (byte :: rest)
  have sizes : first.size = second.size := by
    rw [left.counted, right.counted, words, words, paths, paths, blank, forests]
  cases first
  cases second
  rw [Vocabulary.mk.injEq]
  exact ⟨blank, forests, sizes⟩

theorem isCanonical_forest_insert (canonical : vocabulary.forest.IsCanonical) (word : List Char) :
    (vocabulary.insert word).forest.IsCanonical := by
  unfold insert
  split
  next => exact canonical
  next =>
    simp only
    split
    next => exact canonical
    next => exact Forest.isCanonical_insert _ canonical

/-- Inserting a word adds its bytes to what is held, and nothing else. -/
theorem holds_insert (canonical : vocabulary.forest.IsCanonical) (word : List Char)
    (path : List UInt8) : (vocabulary.insert word).holds path =
      (vocabulary.holds path || decide (path = Utf8.encode word)) := by
  unfold insert
  by_cases known : vocabulary.contains word = true
  · rw [if_pos known]
    rw [contains_eq_holds] at known
    by_cases same : path = Utf8.encode word
    · simp [same, known]
    · simp [same]
  · rw [if_neg known]
    by_cases blank : word = []
    · rw [if_pos (by simpa using blank), blank]
      cases path <;> simp [holds, Utf8.encode]
    · have filled : Utf8.encode word ≠ [] := mt Utf8.encode_eq_nil.mp blank
      rw [if_neg (by simpa using blank)]
      cases path with
      | nil => simp [holds, Ne.symm filled]
      | cons byte rest => exact Forest.holds_insert filled canonical _

/-- Inserting a word adds it and no other. -/
theorem contains_insert (canonical : vocabulary.forest.IsCanonical) (word other : List Char) :
    (vocabulary.insert word).contains other =
      (vocabulary.contains other || decide (other = word)) := by
  rw [contains_eq_holds, contains_eq_holds, holds_insert canonical,
    decide_eq_decide.mpr Utf8.encode_inj]

/-- Inserting a word keeps every path that of a word. -/
theorem isSpelt_insert (spelt : vocabulary.IsSpelt) (word : List Char) :
    (vocabulary.insert word).IsSpelt := by
  refine ⟨isCanonical_forest_insert spelt.forest word, fun path held => ?_⟩
  rw [holds_insert spelt.forest, Bool.or_eq_true, decide_eq_true_iff] at held
  rcases held with before | same
  · exact spelt.spelt path before
  · exact ⟨word, same⟩

/-- Inserting a word keeps a vocabulary canonical. -/
theorem isCanonical_insert (canonical : vocabulary.IsCanonical) (word : List Char) :
    (vocabulary.insert word).IsCanonical := by
  have spelt := isSpelt_insert canonical.toIsSpelt word
  refine ⟨spelt, ?_⟩
  by_cases known : vocabulary.contains word = true
  · have same : vocabulary.insert word = vocabulary := if_pos known
    rw [same]
    exact canonical.counted
  · have grown : (vocabulary.insert word).size = vocabulary.size + 1 := by
      unfold insert
      rw [if_neg known]
      simp only
      split <;> rfl
    have fresh : word ∉ vocabulary.words := mt (mem_words canonical.toIsSpelt).mp known
    have perm : (vocabulary.insert word).words.Perm (word :: vocabulary.words) := by
      rw [List.perm_ext_iff_of_nodup (nodup_words spelt)
        (List.nodup_cons.mpr ⟨fresh, nodup_words canonical.toIsSpelt⟩)]
      intro other
      rw [mem_words spelt, contains_insert canonical.forest, List.mem_cons,
        mem_words canonical.toIsSpelt]
      simp [or_comm]
    rw [grown, perm.length_eq, List.length_cons, canonical.counted]

theorem isCanonical_forest_erase (canonical : vocabulary.forest.IsCanonical) (word : List Char) :
    (vocabulary.erase word).forest.IsCanonical := by
  unfold erase
  split
  next =>
    simp only
    split
    next => exact canonical
    next => exact Forest.isCanonical_erase _ canonical
  next => exact canonical

/-- Erasing a word takes its bytes from what is held, and nothing else. -/
theorem holds_erase (canonical : vocabulary.forest.IsCanonical) (word : List Char)
    (path : List UInt8) : (vocabulary.erase word).holds path =
      (vocabulary.holds path && decide (path ≠ Utf8.encode word)) := by
  unfold erase
  by_cases known : vocabulary.contains word = true
  · rw [if_pos known]
    by_cases blank : word = []
    · rw [if_pos (by simpa using blank), blank]
      cases path <;> simp [holds, Utf8.encode]
    · have filled : Utf8.encode word ≠ [] := mt Utf8.encode_eq_nil.mp blank
      rw [if_neg (by simpa using blank)]
      cases path with
      | nil => simp [holds, Ne.symm filled]
      | cons byte rest => exact Forest.holds_erase _ canonical _
  · rw [if_neg known]
    rw [contains_eq_holds] at known
    by_cases same : path = Utf8.encode word
    · simp [same, known]
    · simp [same]

/-- Erasing a word takes it away and no other. -/
theorem contains_erase (canonical : vocabulary.forest.IsCanonical) (word other : List Char) :
    (vocabulary.erase word).contains other =
      (vocabulary.contains other && decide (other ≠ word)) := by
  rw [contains_eq_holds, contains_eq_holds, holds_erase canonical,
    decide_eq_decide.mpr (not_congr Utf8.encode_inj)]

/-- Erasing a word keeps every path that of a word. -/
theorem isSpelt_erase (spelt : vocabulary.IsSpelt) (word : List Char) :
    (vocabulary.erase word).IsSpelt := by
  refine ⟨isCanonical_forest_erase spelt.forest word, fun path held => spelt.spelt path ?_⟩
  rw [holds_erase spelt.forest, Bool.and_eq_true] at held
  exact held.1

/-- Erasing a word keeps a vocabulary canonical. -/
theorem isCanonical_erase (canonical : vocabulary.IsCanonical) (word : List Char) :
    (vocabulary.erase word).IsCanonical := by
  have spelt := isSpelt_erase canonical.toIsSpelt word
  refine ⟨spelt, ?_⟩
  by_cases known : vocabulary.contains word = true
  · have shrunk : (vocabulary.erase word).size = vocabulary.size - 1 := by
      unfold erase
      rw [if_pos known]
      simp only
      split <;> rfl
    have gone : word ∉ (vocabulary.erase word).words := by
      rw [mem_words spelt, contains_erase canonical.forest]
      simp
    have perm : vocabulary.words.Perm (word :: (vocabulary.erase word).words) := by
      rw [List.perm_ext_iff_of_nodup (nodup_words canonical.toIsSpelt)
        (List.nodup_cons.mpr ⟨gone, nodup_words spelt⟩)]
      intro other
      rw [mem_words canonical.toIsSpelt, List.mem_cons, mem_words spelt,
        contains_erase canonical.forest]
      by_cases same : other = word
      · simp [same, known]
      · simp [same]
    rw [shrunk, canonical.counted, perm.length_eq, List.length_cons, Nat.add_sub_cancel]
  · have same : vocabulary.erase word = vocabulary := if_neg known
    rw [same]
    exact canonical.counted

/-- The paths that start in a given way are those behind what the start leads to. -/
theorem filter_paths (canonical : vocabulary.forest.IsCanonical) (start : List UInt8) :
    vocabulary.paths.filter (start.isPrefixOf ·) =
      Forest.wordsBehind start (vocabulary.find? start) := by
  cases start with
  | nil => simp [find?, Forest.wordsBehind, paths]
  | cons byte rest =>
      have filled : byte :: rest ≠ [] := List.cons_ne_nil byte rest
      have blank : (if vocabulary.hasEmpty then [[]] else []).filter
          ((byte :: rest).isPrefixOf ·) = [] := by
        cases vocabulary.hasEmpty <;> simp
      rw [paths, List.filter_append, blank, List.nil_append, Forest.filter_words canonical filled]
      rfl

/-- The words that start in a given way are the texts behind what the start leads to. -/
theorem filter_words (spelt : vocabulary.IsSpelt) (start : List Char) :
    vocabulary.words.filter (start.isPrefixOf ·) =
      (Forest.wordsBehind (Utf8.encode start)
        (vocabulary.find? (Utf8.encode start))).filterMap Forest.text? := by
  have same : ((Utf8.encode start).isPrefixOf ·) ∘ Utf8.encode = (start.isPrefixOf ·) :=
    funext (Utf8.isPrefixOf_encode start)
  rw [← filter_paths spelt.forest, spelt.paths_eq, List.filter_map, same, Forest.filterMap_text?]

/-- The completions of a start are the first words that start so, and the start itself where there
is none or none is wanted. -/
theorem complete_eq (spelt : vocabulary.IsSpelt) (start : List Char) (limit : Nat) :
    vocabulary.complete start limit =
      if vocabulary.words.filter (start.isPrefixOf ·) = [] ∨ limit = 0 then [start]
      else (vocabulary.words.filter (start.isPrefixOf ·)).take limit := by
  have listed := filter_words spelt start
  generalize vocabulary.words.filter (start.isPrefixOf ·) = hits at listed ⊢
  unfold complete
  cases found : vocabulary.find? (Utf8.encode start) with
  | none =>
      rw [found] at listed
      exact (if_pos (.inl listed)).symm
  | some here =>
      obtain ⟨isWord, below⟩ := here
      have first : (if 0 < limit ∧ isWord then [start] else []) =
          ((if isWord then [Utf8.encode start] else []).filterMap Forest.text?).take limit := by
        cases limit <;> cases isWord <;> simp [Forest.text?_encode]
      have room : (((if isWord then [Utf8.encode start] else []).filterMap
          Forest.text?).take limit).length ≤ limit := List.length_take_le _ _
      have walked := Forest.collect_eq (Utf8.encode start) below room
      rw [found, Forest.wordsBehind] at listed
      rw [Forest.take_append_of_take, ← first, ← List.filterMap_append, ← listed] at walked
      simp only [walked]
      -- What is collected has been cut to the limit, and nothing of it stands for itself.
      cases hits <;> cases limit <;> simp

end Vocabulary
end Concordance
