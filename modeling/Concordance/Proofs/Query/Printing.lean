import Concordance.Proofs.Calendar
import Concordance.Proofs.Query.Acceptance
import Concordance.Proofs.Query.Writing

/-! What is written of a query reads back as the query. -/
namespace Concordance.Query

namespace Writes

variable {first second : String} {spelt others : List Symbol}

/-- A text is a word of the grammar. -/
theorem keyword (text : String) (bare : isBareWord text.toList = true) :
    Writes text.toList [.word text] := by
  have writes := word bare
  rwa [String.ofList_toList] at writes

/-- Two texts with a blank between them are cut into the symbols of both. -/
theorem text_space (head : Writes first.toList spelt) (tail : Writes second.toList others) :
    Writes (first ++ " " ++ second).toList (spelt ++ others) := by
  simpa using head.space tail

/-- A text in round brackets is cut into its symbols in brackets. -/
theorem text_round (inner : Writes first.toList spelt) :
    Writes ("(" ++ first ++ ")").toList (.sign .openRound :: (spelt ++ [.sign .closeRound])) := by
  simpa using inner.round

/-- Texts with blanks between them. -/
theorem intercalate_space {pieces : List (String × List Symbol)} (filled : pieces ≠ [])
    (each : ∀ piece ∈ pieces, Writes piece.1.toList piece.2) :
    Writes (" ".intercalate (pieces.map Prod.fst)).toList (pieces.flatMap Prod.snd) := by
  induction pieces with
  | nil => exact absurd rfl filled
  | cons piece pieces ih =>
      obtain ⟨head, tail⟩ := List.forall_mem_cons.1 each
      cases pieces with
      | nil => simpa using head
      | cons next pieces =>
          have later := ih (List.cons_ne_nil _ _) tail
          rw [List.map_cons, List.map_cons, String.intercalate_cons_cons, List.flatMap_cons]
          exact head.text_space later

end Writes

namespace Phrase

variable {α β : Type} {leafSpelling : α → List Symbol} {leafMeaning : α → β}

/-- A negation, a group or a leaf as a part of a chain. -/
def part (joint : Joint) (phrase : Phrase α .negated) : Phrase α joint.below :=
  match joint with
  | .or => .last phrase
  | .and => phrase

@[simp] theorem spelling_part (joint : Joint) (phrase : Phrase α .negated) :
    (part joint phrase).spelling leafSpelling = phrase.spelling leafSpelling := by
  cases joint <;> rfl

/-- A part that is bracketed where it has to be means what it meant. -/
@[simp] theorem meaning_part (joint : Joint) (phrase : Phrase α .negated) :
    (part joint phrase).meaning leafMeaning = phrase.meaning leafMeaning := by
  cases joint <;> rfl

end Phrase

namespace Formula

open Phrase

variable {α β : Type} {leafText : α → String} {leafSpelling : β → List Symbol}
  {leafMeaning : β → α}

/-- Parts that are more than one are meant as one node. -/
theorem meaning_of_parts {joint : Joint} {chain : Phrase β (.chain joint)}
    {list : List (Formula α)} (means : chain.parts leafMeaning = list) (long : 2 ≤ list.length) :
    chain.meaning leafMeaning = joint.node list := by
  rw [chain.meaning_eq_group, means]
  match list, long with
  | _ :: _ :: _, _ => rfl

/-- What is written of a leaf is a phrase of it. -/
def IsReadable (leafText : α → String) (leafSpelling : β → List Symbol) (leafMeaning : β → α)
    (leaf : α) : Prop :=
  ∃ phrase, leafMeaning phrase = leaf ∧ Writes (leafText leaf).toList (leafSpelling phrase)

mutual

/-- The text of a formula is cut into a phrase of the formula. -/
theorem exists_phrase : ∀ formula : Formula α, formula.IsGrouped →
    (∀ leaf ∈ formula.leaves, IsReadable leafText leafSpelling leafMeaning leaf) →
    ∃ phrase : Phrase β .negated, phrase.meaning leafMeaning = formula ∧
      Writes (formula.render leafText).toList (phrase.spelling leafSpelling)
  | leaf l, _, readable => by
      obtain ⟨phrase, means, writes⟩ := readable l (by simp [leaves])
      exact ⟨.leaf phrase, by rw [meaning, means], writes⟩
  | negation inner, grouped, readable => by
      obtain ⟨phrase, means, writes⟩ := exists_phrase inner grouped
        (by simpa [leaves] using readable)
      refine ⟨.not phrase, by rw [meaning, means], ?_⟩
      exact (Writes.keyword "NOT" (by decide)).text_space writes
  | conjunction parts, grouped, readable => by
      obtain ⟨chain, means, writes⟩ := exists_chain .and parts
        (List.ne_nil_of_length_pos (by have := grouped.1; omega)) grouped.2 readable
      have word : " " ++ Joint.and.word ++ " " = " AND " := by decide
      rw [word] at writes
      exact ⟨.group (.last chain), meaning_of_parts means grouped.1, writes.text_round⟩
  | disjunction parts, grouped, readable => by
      obtain ⟨chain, means, writes⟩ := exists_chain .or parts
        (List.ne_nil_of_length_pos (by have := grouped.1; omega)) grouped.2 readable
      have word : " " ++ Joint.or.word ++ " " = " OR " := by decide
      rw [word] at writes
      exact ⟨.group chain, meaning_of_parts means grouped.1, writes.text_round⟩

/-- The text of a chain is cut into a phrase of the chain. -/
theorem exists_chain (joint : Joint) : ∀ parts : List (Formula α), parts ≠ [] →
    AreGrouped parts →
    (∀ leaf ∈ leavesOf parts, IsReadable leafText leafSpelling leafMeaning leaf) →
    ∃ chain : Phrase β (.chain joint), chain.parts leafMeaning = parts ∧
      Writes (renderParts leafText (" " ++ joint.word ++ " ") parts).toList
        (chain.spelling leafSpelling)
  | [], filled, _, _ => absurd rfl filled
  | [only], _, grouped, readable => by
      obtain ⟨phrase, means, writes⟩ :=
        exists_phrase only grouped.1 (by simpa [leavesOf] using readable)
      exact ⟨.last (part joint phrase), by simp [parts, means],
        by simpa [spelling, renderParts] using writes⟩
  | first :: next :: rest, _, grouped, readable => by
      rw [leavesOf, List.forall_mem_append] at readable
      obtain ⟨phrase, means, writes⟩ := exists_phrase first grouped.1 readable.1
      obtain ⟨chain, tails, others⟩ := exists_chain joint (next :: rest) (List.cons_ne_nil _ _)
        grouped.2 readable.2
      refine ⟨.joined (part joint phrase) chain, by simp [parts, means, tails], ?_⟩
      have words : Writes joint.word.toList [.word joint.word] :=
        .keyword _ (by cases joint <;> decide)
      simpa [spelling, renderParts, String.append_assoc]
        using writes.text_space (words.text_space others)

end

end Formula

namespace QueryPhrase

/-- The text of words is cut into a phrase of the words. -/
theorem exists_words {words : Option (Formula String)}
    (grouped : ∀ formula ∈ words, formula.IsGrouped) :
    ∃ phrase : Option (FormulaPhrase (List Char)), phrase.map (·.meaning wordMeaning) = words ∧
      ∀ formula ∈ words, Writes (formula.render quoteLiteral).toList (spellWords phrase) := by
  cases words with
  | none => exact ⟨none, rfl, by simp⟩
  | some formula =>
      have readable (leaf : String) :
          Formula.IsReadable quoteLiteral wordSpelling wordMeaning leaf := by
        refine ⟨quoteWith apostrophe leaf.toList, ?_, ?_⟩
        · rw [wordMeaning, unquote_quoteWith (by decide), String.ofList_toList]
        · rw [quoteLiteral, String.toList_ofList]
          exact .literal leaf.toList
      obtain ⟨phrase, means, writes⟩ :=
        formula.exists_phrase (grouped formula rfl) fun leaf _ => readable leaf
      refine ⟨some (.last (.last phrase)), congrArg some means, ?_⟩
      rintro _ ⟨⟩
      exact writes

/-- The text of conditions is cut into a phrase of the conditions. -/
theorem exists_having {having : Option (Formula Condition)}
    (grouped : ∀ formula ∈ having, formula.IsGrouped)
    (readable : ∀ formula ∈ having, ∀ condition ∈ formula.leaves, Formula.IsReadable Condition.text
      ConditionPhrase.spelling ConditionPhrase.meaning condition) :
    ∃ phrase : Option (FormulaPhrase ConditionPhrase),
      phrase.map (·.meaning ConditionPhrase.meaning) = having ∧
      ∀ formula ∈ having,
        Writes ("HAVING " ++ formula.render Condition.text).toList (spellHaving phrase) := by
  cases having with
  | none => exact ⟨none, rfl, by simp⟩
  | some formula =>
      obtain ⟨phrase, means, writes⟩ :=
        formula.exists_phrase (grouped formula rfl) (readable formula rfl)
      refine ⟨some (.last (.last phrase)), congrArg some means, ?_⟩
      rintro _ ⟨⟩
      exact (Writes.keyword "HAVING" (by decide)).text_space writes

/-- The text of a limit is cut into a phrase of the limit. -/
theorem exists_limit {limit : Option Nat} (fits : ∀ count ∈ limit, count < UInt64.size) :
    ∃ phrase : Option LimitPhrase, phrase.map LimitPhrase.count = limit ∧
      ∀ count ∈ limit, Writes ("LIMIT " ++ String.ofList (Number.decimalDigits count)).toList
        (spellLimit phrase) := by
  cases limit with
  | none => exact ⟨none, rfl, by simp⟩
  | some count =>
      have digits : ∀ c ∈ Number.decimalDigits count, c.isDigit = true :=
        fun c => Number.isDigit_of_mem_decimalDigits
      have value := Number.readDigits_decimalDigits count
      refine ⟨some ⟨Number.decimalDigits count, by simpa using digits, ?_⟩, congrArg some value, ?_⟩
      · rw [value]
        exact fits count rfl
      · rintro _ ⟨⟩
        have number : Writes (String.ofList (Number.decimalDigits count)).toList
            [.number (Number.decimalDigits count)] := by
          rw [String.toList_ofList]
          exact .digits digits Nat.toDigits_ne_nil
        exact (Writes.keyword "LIMIT" (by decide)).text_space number

/-- What is written of a query is a phrase of it. -/
theorem exists_query {query : Query} (asks : query.words.isSome ∨ query.having.isSome)
    (grouped : query.IsGrouped)
    (readable : ∀ formula ∈ query.having, ∀ condition ∈ formula.leaves, Formula.IsReadable
      Condition.text ConditionPhrase.spelling ConditionPhrase.meaning condition)
    (fits : ∀ count ∈ query.limit, count < UInt64.size) :
    ∃ phrase : QueryPhrase, phrase.Asks ∧ phrase.meaning = query ∧
      Spells query.text.toList phrase.spelling := by
  obtain ⟨words, having, limit⟩ := query
  obtain ⟨first, wordsMean, worded⟩ := exists_words grouped.1
  obtain ⟨second, havingMeans, conditioned⟩ := exists_having grouped.2 readable
  obtain ⟨third, limitMeans, limited⟩ := exists_limit fits
  dsimp only at wordsMean havingMeans limitMeans worded conditioned limited
  refine ⟨⟨first, second, third, false⟩, ?_, ?_, ?_⟩
  · simpa [← wordsMean, ← havingMeans, Asks] using asks
  · rw [← wordsMean, ← havingMeans, ← limitMeans]
    rfl
  -- The clauses that are there, each with what it spells.
  let clauses : List (Option (String × List Symbol)) :=
    [words.map fun formula => (formula.render quoteLiteral, spellWords first),
      having.map fun formula => ("HAVING " ++ formula.render Condition.text, spellHaving second),
      limit.map fun count =>
        ("LIMIT " ++ String.ofList (Number.decimalDigits count), spellLimit third)]
  have whole : Writes (" ".intercalate ((clauses.filterMap id).map Prod.fst)).toList
      ((clauses.filterMap id).flatMap Prod.snd) := by
    refine Writes.intercalate_space ?_ ?_
    · cases words <;> cases having <;> simp_all [clauses]
    · cases words <;> cases having <;> cases limit <;> simp_all [clauses]
  have text : Query.text ⟨words, having, limit⟩ =
      " ".intercalate ((clauses.filterMap id).map Prod.fst) := by
    cases words <;> cases having <;> cases limit <;> rfl
  have spelt : (clauses.filterMap id).flatMap Prod.snd =
      spellWords first ++ (spellHaving second ++ spellLimit third) := by
    cases words <;> cases having <;> cases limit <;>
      simp_all [clauses, spellWords, spellHaving, spellLimit]
  rw [text]
  rw [spelt] at whole
  simpa [spelling, spellEnd] using whole.spells

end QueryPhrase

/-- A query reads back from its text when its conditions do. -/
theorem parse_text {query : Query} (asks : query.words.isSome ∨ query.having.isSome)
    (grouped : query.IsGrouped)
    (readable : ∀ formula ∈ query.having, ∀ condition ∈ formula.leaves, Formula.IsReadable
      Condition.text ConditionPhrase.spelling ConditionPhrase.meaning condition)
    (fits : ∀ count ∈ query.limit, count < UInt64.size) :
    parse query.text 0 0 = .parsed query := by
  obtain ⟨phrase, asked, means, spells⟩ := QueryPhrase.exists_query asks grouped readable fits
  exact parse_eq_parsed.2 ⟨phrase, asked, ⟨fun _ _ => .inl rfl, fun _ _ => .inl rfl⟩,
    significant_of_cuts (spells none), means⟩

/-- Every query of words alone reads back from its text, whatever the words are. -/
theorem parse_text_of_words {query : Query} {words : Formula String}
    (asks : query.words = some words) (bare : query.having = none) (grouped : words.IsGrouped)
    (fits : ∀ count ∈ query.limit, count < UInt64.size) : parse query.text 0 0 = .parsed query := by
  refine parse_text (by simp [asks]) ⟨?_, ?_⟩ (by simp [bare]) fits
  · simpa [asks] using grouped
  · simp [bare]

/-- A query of words with quotes, an escape and an empty word in them reads back. -/
theorem parse_text_of_words_quoted :
    let words : Formula String := .disjunction
      [.negation (.conjunction [.leaf "it's", .leaf "a\\b\nc"]), .leaf ""]
    let query : Query := ⟨some words, none, some 3⟩
    (words.IsGrouped ∧ ∀ count ∈ query.limit, count < UInt64.size) ∧
      parse query.text 0 0 = .parsed query := by
  intro words query
  have grouped : words.IsGrouped := by simp [words, Formula.IsGrouped, Formula.AreGrouped]
  have fits : ∀ count ∈ query.limit, count < UInt64.size := by simp [query, UInt64.size]
  exact ⟨⟨grouped, fits⟩, parse_text_of_words rfl rfl grouped fits⟩

end Concordance.Query
