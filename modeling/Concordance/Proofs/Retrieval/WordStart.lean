import Concordance.Proofs.Query.Limits
import Concordance.Proofs.Query.Start
import Concordance.Proofs.Retrieval.Stage
import Concordance.Retrieval.Search

/-! Which queries are searched for. -/
namespace Concordance.Retrieval

variable {settings : Settings} {catalog : Catalog} {disk : Disk} {clock : Clock}

/-- A text without blanks that starts with a keyword or with a comment. -/
def HasKeyword (text : List Char) : Prop :=
  (∀ c ∈ text, Text.isBlank c = false) ∧
    ("NOT".toList <+: text ∨ "HAVING".toList <+: text ∨ ['/', '*'] <+: text)

instance (text : List Char) : Decidable (HasKeyword text) :=
  -- Only the characters of the text are tried, not all there are.
  @instDecidableAnd _ _ (List.decidableBAll _ text) inferInstance

/-- The queries that pass for the start of a word are those that start with a keyword or with a
comment and have no blanks. -/
theorem isWordStart_iff_hasKeyword {text : List Char} {sizeLimit depthLimit : Nat} {query : Query}
    (parsed : Query.parse (String.ofList text) sizeLimit depthLimit = .parsed query) :
    isWordStart text = true ↔ HasKeyword text := by
  unfold isWordStart HasKeyword
  rw [Bool.and_eq_true, Bool.not_eq_true', Bool.not_eq_true', List.any_eq_false]
  simp only [Bool.not_eq_true]
  constructor
  · rintro ⟨unbroken, head⟩
    refine ⟨unbroken, ?_⟩
    rcases Query.begins_of_parse parsed unbroken with (⟨rest, rfl⟩ | ⟨rest, rfl⟩ | word | word) | word
    · exact absurd head (by simp [Query.apostrophe])
    · exact absurd head (by simp)
    · exact .inl word
    · exact .inr (.inl word)
    · exact .inr (.inr word)
  · rintro ⟨unbroken, starts⟩
    refine ⟨unbroken, ?_⟩
    rcases starts with ⟨rest, rfl⟩ | ⟨rest, rfl⟩ | ⟨rest, rfl⟩ <;> simp

/-- What is remembered of a search has no part in its answer. -/
theorem fst_search (text : String) : (search settings catalog disk clock text).map Prod.fst =
    searchText settings catalog disk text := by
  unfold search
  cases searchText settings catalog disk text <;> rfl

/-- A query is answered as one unless it starts with a keyword or a comment and has no blanks. -/
theorem searchText_of_parse {text : String} {query : Query}
    (parsed : Query.parse (String.ofList (Text.trim text.toList)) settings.search.maxQuerySize
      settings.search.maxParserDepth = .parsed query) :
    searchText settings catalog disk text =
      if HasKeyword (Text.trim text.toList) then
        searchStart settings catalog disk (String.ofList (Text.trim text.toList))
      else searchQuery settings catalog disk query := by
  have filled : (Text.trim text.toList).isEmpty = false := by
    rw [← Bool.not_eq_true, List.isEmpty_iff]
    intro nothing
    rw [nothing] at parsed
    simpa using Query.begins_of_parse parsed (by simp)
  unfold searchText
  simp only [filled, Bool.false_eq_true, if_false, isWordStart_iff_hasKeyword parsed, parsed]

/-- A word that the catalog does not know finds no documents. -/
theorem answer_of_unknown {scoring : ScoringSettings} {word : String}
    (unwrapped : catalog.nextId ≠ 0) (unknown : catalog.posting? word = none) (limit : Nat) :
    answer scoring catalog (stagesOfWord word limit) = .ok .empty := by
  have none : chosen catalog (some (.leaf word)) = .empty := by
    apply OrderedSet.ext
    apply List.filter_eq_nil_iff.mpr
    intro id _
    rw [selected_leaf catalog (counted_greatestId unwrapped), unknown, IdSet.contains_empty]
    exact Bool.false_ne_true
  have chosen : (Stage.terms (some (.leaf word))).run scoring catalog (.chosen .empty) =
      .ok (.chosen .empty) := by rw [run_terms unwrapped, none]
  have kept : (Stage.having .none).run scoring catalog (.chosen .empty) =
      .ok (.chosen .empty) := rfl
  have ranked : (Stage.score [(word, 1)]).run scoring catalog (.chosen .empty) =
      .ok (.ranked .empty) := rfl
  have cut : (Stage.limit (some limit)).run scoring catalog (.ranked .empty) =
      .ok (.ranked .empty) :=
    congrArg (fun ranking => Except.ok (Selection.ranked ranking)) (OrderedSet.ext List.take_nil)
  unfold answer stagesOfWord
  rw [runStages_of_ok chosen, runStages_of_ok kept, runStages_of_ok ranked, runStages_of_ok cut]
  rfl

/-- A start that no word of the catalog has finds no documents. -/
theorem searchStart_of_unknown {start : String} (unwrapped : catalog.nextId ≠ 0)
    (alone : catalog.complete start settings.search.fuzzyCandidates = [start])
    (unknown : catalog.posting? start = none) :
    searchStart settings catalog disk start = .ok [] := by
  unfold searchStart
  rw [alone, findWords, answer_of_unknown unwrapped unknown]
  show Except.ok (([].mergeSort isBetter).filterMap _) = _
  rw [List.mergeSort_nil]
  rfl

/-- A text that is read as a query is searched for as that query, unless it has no blanks and starts
with a keyword or with a comment. Such a text is searched for as the start of a word. -/
theorem search_of_parse {text : String} {query : Query}
    (parsed : Query.parse (String.ofList (Text.trim text.toList)) settings.search.maxQuerySize
      settings.search.maxParserDepth = .parsed query) :
    (¬HasKeyword (Text.trim text.toList) →
      (search settings catalog disk clock text).map Prod.fst =
        searchQuery settings catalog disk query) ∧
    (HasKeyword (Text.trim text.toList) →
      (search settings catalog disk clock text).map Prod.fst =
        searchStart settings catalog disk (String.ofList (Text.trim text.toList))) := by
  rw [fst_search, searchText_of_parse parsed]
  exact ⟨fun plain => if_neg plain, fun mistaken => if_pos mistaken⟩

/-- A query needs no blank behind its keyword. -/
theorem parse_joined : Query.parse "NOT'bye'" Settings.standard.search.maxQuerySize
    Settings.standard.search.maxParserDepth = .parsed ⟨some (.negation (.leaf "bye")), none, none⟩ :=
  Query.parse_eq_parsed_of_within (by decide +kernel) (by decide +kernel) (by decide +kernel)

/-- In a catalog of one file a query is answered, and one that starts with a keyword is not. -/
theorem search_of_parse_keyword :
    let settings := Settings.standard
    let catalog := ((Catalog.empty ⟨"/"⟩ .empty).register note).2
    let query : Query := ⟨some (.negation (.leaf "bye")), none, none⟩
    Query.parse "NOT 'bye'" settings.search.maxQuerySize settings.search.maxParserDepth =
        .parsed query ∧
      Query.parse "NOT'bye'" settings.search.maxQuerySize settings.search.maxParserDepth =
        .parsed query ∧
      ∀ disk clock,
        (search settings catalog disk clock " NOT 'bye' ").map Prod.fst =
          searchQuery settings catalog disk query ∧
        (search settings catalog disk clock " NOT'bye' ").map Prod.fst =
          searchStart settings catalog disk "NOT'bye'" := by
  intro settings catalog query
  have apart : Query.parse "NOT 'bye'" settings.search.maxQuerySize
      settings.search.maxParserDepth = .parsed query :=
    Query.parse_eq_parsed_of_within (by decide +kernel) (by decide +kernel) (by decide +kernel)
  refine ⟨apart, parse_joined, fun disk clock => ⟨?_, ?_⟩⟩
  · have trimmed : String.ofList (Text.trim " NOT 'bye' ".toList) = "NOT 'bye'" := by decide +kernel
    exact (search_of_parse (trimmed ▸ apart)).1 (by decide +kernel)
  · have trimmed : String.ofList (Text.trim " NOT'bye' ".toList) = "NOT'bye'" := by decide +kernel
    rw [← trimmed]
    exact (search_of_parse (trimmed ▸ parse_joined)).2 (by decide +kernel)

/-- A query that no document fails is given no documents where it passes for the start of a word. -/
theorem unanswered_of_joined : ¬∀ (settings : Settings) (catalog : Catalog) (disk : Disk)
    (clock : Clock) (text : String) (query : Query),
    Query.parse (String.ofList (Text.trim text.toList)) settings.search.maxQuerySize
      settings.search.maxParserDepth = .parsed query →
    (search settings catalog disk clock text).map Prod.fst =
      searchQuery settings catalog disk query := by
  intro all
  let settings := Settings.standard
  let catalog := ((Catalog.empty ⟨"/"⟩ .empty).register note).2
  let query : Query := ⟨some (.negation (.leaf "bye")), none, none⟩
  have start : String.ofList (Text.trim "NOT'bye'".toList) = "NOT'bye'" := by decide +kernel
  have parsed : Query.parse (String.ofList (Text.trim "NOT'bye'".toList))
      settings.search.maxQuerySize settings.search.maxParserDepth = .parsed query :=
    start.symm ▸ parse_joined
  have unanswered : searchText settings catalog noteDisk "NOT'bye'" = .ok [] := by
    rw [searchText_of_parse parsed, if_pos (by decide +kernel), start]
    exact searchStart_of_unknown (by decide +kernel) (by decide +kernel) (by decide +kernel)
  have numbered : ∀ id, catalog.isLive id = true → 1 ≤ id ∧ id ≤ catalog.greatestId := by
    intro id live
    have only : catalog.documents.keys = [1] := by decide +kernel
    have member := OrderedMap.contains_iff.mp live
    rw [only, List.mem_singleton] at member
    rw [member]
    decide +kernel
  have selected : catalog.live.toList.filter (qualifies catalog query) = [1] := by decide +kernel
  have ranked : execute settings.scoring catalog query = .ok (.ofList
      ([(1 : DocId)].map (entryOf settings.scoring catalog query))) :=
    selected ▸ execute_eq (by decide +kernel) numbered (Query.isGrouped_of_parse parsed)
  have answered (hits : List Hit) (found : searchQuery settings catalog noteDisk query = .ok hits) :
      hits ≠ [] := by
    have filed : catalog.document? 1 = some (note.document 1) := by
      rw [Catalog.document?_register]
      rfl
    unfold searchQuery at found
    rw [ranked] at found
    obtain rfl := Except.ok.inj found
    show ([entryOf settings.scoring catalog query 1].filterMap fun entry =>
      hit? settings catalog noteDisk query.terms entry.score entry.id) ≠ []
    simp only [List.filterMap_cons, List.filterMap_nil, hit?, entryOf, filed, Option.map_some]
    exact List.cons_ne_nil _ _
  have same := all settings catalog noteDisk ⟨0, 0, .world⟩ "NOT'bye'" query parsed
  rw [fst_search, unanswered] at same
  exact answered [] same.symm rfl

end Concordance.Retrieval
