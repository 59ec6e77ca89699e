import Concordance.Proofs.Vocabulary.Forest

/-! The words of a forest as a list. -/
namespace Concordance.Forest

/-- The words of a forest in ascending order. -/
def words : Forest → List (List UInt8)
  | none => []
  | tree byte isWord below beside =>
      (if isWord then [[byte]] else []) ++ below.words.map (byte :: ·) ++ beside.words

theorem ne_nil_of_mem_words {forest : Forest} {word : List UInt8} (member : word ∈ forest.words) :
    word ≠ [] := by
  induction forest with
  | none => cases member
  | tree byte isWord below beside _ ih =>
      simp only [words, List.mem_append, List.mem_map] at member
      rcases member with (here | ⟨rest, -, rfl⟩) | later
      · cases isWord <;> simp_all
      · exact List.cons_ne_nil _ _
      · exact ih later

/-- The words that are listed are those that the forest holds. -/
theorem mem_words {forest : Forest} (canonical : forest.IsCanonical) {word : List UInt8} :
    word ∈ forest.words ↔ forest.holds word = true := by
  induction forest generalizing word with
  | none => simp [words]
  | tree byte isWord below beside ihBelow ihBeside =>
      obtain ⟨-, inside, sorted, after⟩ := canonical
      cases word with
      | nil =>
          rw [holds_nil]
          exact iff_of_false (fun member => ne_nil_of_mem_words member rfl) Bool.false_ne_true
      | cons c rest =>
          have under : byte :: rest ∈ below.words.map (byte :: ·) ↔ below.holds rest = true := by
            rw [List.mem_map_of_injective (List.cons_injective), ihBelow inside]
          rw [holds_tree, words, List.mem_append, List.mem_append, ihBeside sorted]
          by_cases same : c = byte
          · -- Words beside the tree start with later bytes.
            rw [if_pos same, same, holds_of_isAfter sorted after, under]
            by_cases short : rest = []
            · cases isWord <;> simp [short]
            · cases isWord <;> simp [short]
          · rw [if_neg same]
            cases isWord <;> simp [same, Ne.symm same]

/-- Every word starts with a byte of the forest. -/
theorem lt_of_mem_words {first : UInt8} {forest : Forest} (canonical : forest.IsCanonical)
    (after : forest.IsAfter first) {word : List UInt8} (member : word ∈ forest.words)
    (rest : List UInt8) : first :: rest < word := by
  induction forest with
  | none => cases member
  | tree byte isWord below beside _ ih =>
      obtain ⟨-, -, sorted, later⟩ := canonical
      simp only [words, List.mem_append, List.mem_map] at member
      rcases member with (here | ⟨more, -, rfl⟩) | beyond
      · cases isWord with
        | true =>
            rw [List.mem_singleton.mp here]
            exact List.Lex.rel after
        | false => cases here
      · exact List.Lex.rel after
      · exact ih sorted (later.trans after) beyond

/-- The words stand in ascending order. -/
theorem pairwise_words {forest : Forest} (canonical : forest.IsCanonical) :
    forest.words.Pairwise (· < ·) := by
  induction forest with
  | none => exact .nil
  | tree byte isWord below beside ihBelow ihBeside =>
      obtain ⟨-, inside, sorted, after⟩ := canonical
      have under : (below.words.map (byte :: ·)).Pairwise (· < ·) :=
        List.pairwise_map.mpr ((ihBelow inside).imp List.Lex.cons)
      have single : (if isWord then [[byte]] else []).Pairwise (· < ·) := by
        cases isWord <;> simp
      rw [words, List.pairwise_append, List.pairwise_append]
      refine ⟨⟨single, under, ?_⟩, ihBeside sorted, ?_⟩
      · intro first here second member
        obtain ⟨rest, held, rfl⟩ := List.mem_map.mp member
        obtain ⟨c, more, rfl⟩ := List.exists_cons_of_ne_nil (ne_nil_of_mem_words held)
        cases isWord with
        | true =>
            rw [List.mem_singleton.mp here]
            exact List.Lex.cons List.Lex.nil
        | false => cases here
      · intro first member second beyond
        have starts : ∃ rest, first = byte :: rest := by
          rcases List.mem_append.mp member with here | held
          · cases isWord with
            | true => exact ⟨[], List.mem_singleton.mp here⟩
            | false => cases here
          · obtain ⟨rest, -, rfl⟩ := List.mem_map.mp held
            exact ⟨rest, rfl⟩
        obtain ⟨rest, rfl⟩ := starts
        exact lt_of_mem_words sorted after beyond rest

/-- The words of what a start leads to. -/
def wordsBehind (start : List UInt8) : Option (Bool × Forest) → List (List UInt8)
  | some (isWord, below) => (if isWord then [start] else []) ++ below.words.map (start ++ ·)
  | Option.none => []

theorem filter_words_of_isAfter {byte : UInt8} {forest : Forest} (canonical : forest.IsCanonical)
    (after : forest.IsAfter byte) (rest : List UInt8) :
    forest.words.filter ((byte :: rest).isPrefixOf ·) = [] := by
  rw [List.filter_eq_nil_iff]
  intro word member starts
  obtain ⟨more, rfl⟩ := List.isPrefixOf_iff_prefix.mp starts
  have held := (mem_words canonical).mp member
  rw [List.cons_append, holds_of_isAfter canonical after] at held
  cases held

/-- The words that start in a given way are those behind the tree that the start leads to. -/
theorem filter_words {forest : Forest} (canonical : forest.IsCanonical) {start : List UInt8}
    (filled : start ≠ []) :
    forest.words.filter (start.isPrefixOf ·) = wordsBehind start (forest.find? start) := by
  induction forest generalizing start with
  | none =>
      obtain ⟨byte, rest, rfl⟩ := List.exists_cons_of_ne_nil filled
      rfl
  | tree other isWord below beside ihBelow ihBeside =>
      obtain ⟨byte, rest, rfl⟩ := List.exists_cons_of_ne_nil filled
      obtain ⟨-, inside, sorted, after⟩ := canonical
      have single : (if isWord then [[other]] else []).filter ((byte :: rest).isPrefixOf ·) =
          if isWord ∧ byte = other ∧ rest = [] then [[other]] else [] := by
        cases isWord <;> cases rest <;> simp [List.filter_cons]
      have under : (below.words.map (other :: ·)).filter ((byte :: rest).isPrefixOf ·) =
          if byte = other then (below.words.filter (rest.isPrefixOf ·)).map (other :: ·)
          else [] := by
        by_cases same : byte = other <;> simp [List.filter_map, Function.comp_def, same]
      rw [words, List.filter_append, List.filter_append, single, under, find?]
      by_cases same : byte = other
      · subst same
        rw [filter_words_of_isAfter sorted after, List.append_nil, if_pos rfl, if_pos rfl]
        cases rest with
        | nil => cases isWord <;> simp [wordsBehind]
        | cons next more =>
            rw [ihBelow inside (List.cons_ne_nil next more)]
            cases find? (next :: more) below with
            | none => simp [wordsBehind]
            | some found =>
                obtain ⟨ends, behind⟩ := found
                cases ends <;> simp [wordsBehind]
      · rw [if_neg same, if_neg same, ihBeside sorted filled]
        simp [same]

/-- A list that is cut, extended and cut again may as well be cut once. -/
theorem take_append_of_take {α : Type} (limit : Nat) (first second : List α) :
    (first.take limit ++ second).take limit = (first ++ second).take limit := by
  have room : limit - min limit first.length = limit - first.length := by omega
  rw [List.take_append, List.take_append, List.take_take, Nat.min_self, List.length_take, room]

/-- The walk that stops in time finds the first words behind a path. -/
theorem collect_eq {limit : Nat} (path : List UInt8) (forest : Forest) {found : List (List Char)}
    (room : found.length ≤ limit) :
    collect limit path forest found =
      (found ++ (forest.words.map (path ++ ·)).filterMap text?).take limit := by
  induction forest generalizing path found with
  | none => simp [collect, words, List.take_of_length_le room]
  | tree byte isWord below beside ihBelow ihBeside =>
      rw [collect]
      by_cases enough : limit ≤ found.length
      · have full : found.length = limit := Nat.le_antisymm room enough
        rw [if_pos enough, ← full, List.take_left]
      · rw [if_neg enough]
        obtain ⟨here, single, added, listed⟩ : ∃ here : List (List Char), here.length ≤ 1 ∧
            (if isWord then found ++ (text? (path ++ [byte])).toList else found) = found ++ here ∧
            ((if isWord then [[byte]] else []).map (path ++ ·)).filterMap text? = here := by
          cases isWord <;> cases text : text? (path ++ [byte]) <;> simp [text]
        have fits : (found ++ here).length ≤ limit := by
          rw [List.length_append]
          omega
        have inside := ihBelow (path ++ [byte]) fits
        have within : (collect limit (path ++ [byte]) below (found ++ here)).length ≤ limit := by
          rw [inside]
          exact List.length_take_le _ _
        simp only [added]
        rw [ihBeside path within, inside, take_append_of_take, words]
        simp [← listed, Function.comp_def]

end Concordance.Forest
