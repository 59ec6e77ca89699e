import Concordance.Proofs.Catalog.Snapshot
import Concordance.Proofs.Retrieval.Stage
import Concordance.Retrieval.Search

/-! What the answer to a search depends on, and nothing else of a catalog. -/
namespace Concordance

/-- Two catalogs that no search can tell apart but by what is lost of a path when it is written. -/
structure Catalog.Alike (first second : Catalog) : Prop where
  terms : first.terms = second.terms
  vocabulary : first.vocabulary = second.vocabulary
  documents : first.snapshot.written.documents = second.snapshot.written.documents
  nextId : first.nextId = second.nextId
  mean : first.meanWordCount = second.meanWordCount

namespace Retrieval

/-- What a highlight shows without the text around its word. -/
def Highlight.outline (highlight : Highlight) : String × UInt64 × Nat :=
  (highlight.term, highlight.offset, highlight.length)

/-- What a hit shows without the texts around its words, and of its path the text. -/
def Hit.outline (hit : Hit) : DocId × Path × Float × List (String × UInt64 × Nat) :=
  (hit.id, hit.path.written, hit.score, hit.highlights.map Highlight.outline)

theorem outlines_eq {settings : SearchSettings} {first second : Catalog} {disk : Disk}
    {words : List String} {document other : Document}
    (same : placesOf first words document.id = placesOf second words other.id) :
    (highlightsOf settings first disk words document).map Highlight.outline =
      (highlightsOf settings second disk words other).map Highlight.outline := by
  unfold highlightsOf
  rw [same]
  split
  next => rfl
  next => rw [List.map_map, List.map_map]; rfl

end Retrieval

namespace Catalog.Alike

open Retrieval

variable {first second : Catalog}

/-- Alike catalogs have the same postings. -/
theorem posting?_eq (alike : first.Alike second) : first.posting? = second.posting? := by
  funext word
  unfold posting?
  rw [alike.terms]

mutual

theorem select_eq (alike : first.Alike second) (greatest : Nat) :
    ∀ formula : Query.Formula String,
    select first greatest formula = select second greatest formula
  | .leaf word => by rw [select, select, alike.posting?_eq]
  | .negation inner => by rw [select, select, select_eq alike greatest inner]
  | .conjunction [] => by rw [select, select]
  | .conjunction (part :: rest) => by
      rw [select, select, select_eq alike greatest part]
      congr 1
      funext set
      exact selectAll_eq alike greatest rest set
  | .disjunction [] => by rw [select, select]
  | .disjunction (part :: rest) => by
      rw [select, select, select_eq alike greatest part]
      congr 1
      funext set
      exact selectAny_eq alike greatest rest set

theorem selectAll_eq (alike : first.Alike second) (greatest : Nat) :
    ∀ (parts : List (Query.Formula String)) (set : IdSet),
    selectAll first greatest set parts = selectAll second greatest set parts
  | [], _ => by rw [selectAll, selectAll]
  | part :: rest, _ => by
      rw [selectAll, selectAll, select_eq alike greatest part]
      congr 1
      funext other
      exact selectAll_eq alike greatest rest _

theorem selectAny_eq (alike : first.Alike second) (greatest : Nat) :
    ∀ (parts : List (Query.Formula String)) (set : IdSet),
    selectAny first greatest set parts = selectAny second greatest set parts
  | [], _ => by rw [selectAny, selectAny]
  | part :: rest, _ => by
      rw [selectAny, selectAny, select_eq alike greatest part]
      congr 1
      funext other
      exact selectAny_eq alike greatest rest _

end

variable (alike : first.Alike second)

include alike

/-- Documents of alike catalogs are the same once they are written. -/
theorem document?_eq (id : DocId) :
    (first.document? id).map Document.written = (second.document? id).map Document.written := by
  show (first.snapshot.documents.get? id).map _ = (second.snapshot.documents.get? id).map _
  rw [← Snapshot.get?_written, alike.documents, Snapshot.get?_written]

/-- The documents of one number agree on all that their writing keeps. -/
theorem map_eq {α : Type} (view : Document → α) (keeps : ∀ document, view document.written = view document)
    (id : DocId) : (first.document? id).map view = (second.document? id).map view := by
  have written : view = view ∘ Document.written := (funext keeps).symm
  rw [written, ← Option.map_map, ← Option.map_map, alike.document?_eq]

/-- Alike catalogs have the same live documents. -/
theorem live_eq : first.live = second.live := by
  unfold live
  apply OrderedSet.ext
  show first.snapshot.documents.keys = second.snapshot.documents.keys
  rw [← Snapshot.keys_written, alike.documents, Snapshot.keys_written]

/-- Alike catalogs have the same greatest number. -/
theorem greatestId_eq : first.greatestId = second.greatestId := by
  unfold greatestId
  rw [alike.nextId]

/-- Alike catalogs complete words alike. -/
theorem complete_eq : first.complete = second.complete := by
  funext start limit
  unfold complete
  rw [alike.vocabulary]

/-- Alike catalogs weigh words alike. -/
theorem weigh_eq (settings : ScoringSettings) (terms : List QueryTerm) :
    weigh settings first terms = weigh settings second terms := by
  unfold weigh
  rw [alike.posting?_eq, alike.greatestId_eq]

/-- Alike catalogs score documents alike. -/
theorem scoreWith_eq (settings : ScoringSettings) (terms : List WeightedTerm) (id : DocId) :
    scoreWith settings first terms id = scoreWith settings second terms id := by
  unfold scoreWith
  rw [alike.mean]
  exact alike.map_eq _ (fun _ => rfl) id

/-- Alike catalogs rank documents alike. -/
theorem rank_eq (settings : ScoringSettings) (terms : List QueryTerm) (ids : List DocId) :
    rank settings first terms ids = rank settings second terms ids := by
  unfold rank
  simp only [alike.weigh_eq, alike.scoreWith_eq]

/-- In alike catalogs words choose the same documents. -/
theorem choose_eq (words : Option (Query.Formula String)) :
    Stage.choose first words = Stage.choose second words := by
  unfold Stage.choose
  cases words with
  | none => exact congrArg some alike.live_eq
  | some words =>
      simp only
      rw [alike.select_eq, alike.live_eq, alike.greatestId_eq]

/-- In alike catalogs the same documents meet conditions. -/
theorem meets_eq (conditions : Query.Formula Query.Condition) :
    Stage.meets first conditions = Stage.meets second conditions := by
  funext id
  have metadata := alike.map_eq Document.metadata Document.metadata_written id
  have shown (catalog : Catalog) : Stage.meets catalog conditions id =
      ((catalog.document? id).map Document.metadata).any fun metadata =>
        conditions.evaluate fun condition => condition.holds metadata := by
    rw [Option.any_map]
    rfl
  rw [shown, shown, metadata]

/-- Every stage does the same in alike catalogs. -/
theorem run_eq (settings : ScoringSettings) (stage : Stage) (selection : Selection) :
    stage.run settings first selection = stage.run settings second selection := by
  unfold Stage.run
  simp only [alike.choose_eq, alike.meets_eq, alike.rank_eq]

/-- Stages give the same answer in alike catalogs. -/
theorem answer_eq (settings : ScoringSettings) (stages : List Stage) :
    answer settings first stages = answer settings second stages := by
  have all : ∀ (stages : List Stage) (selection : Selection),
      runStages settings first stages selection = runStages settings second stages selection := by
    intro stages
    induction stages with
    | nil => exact fun _ => rfl
    | cons stage rest ih =>
        intro selection
        unfold runStages
        rw [alike.run_eq]
        congr 1
        funext next
        exact ih next
  unfold answer
  rw [all]

/-- Words stand at the same places in documents of alike catalogs. -/
theorem placesOf_eq (words : List String) (id : DocId) :
    placesOf first words id = placesOf second words id := by
  unfold placesOf
  rw [alike.posting?_eq]

/-- Queries have the same ranking in alike catalogs. -/
theorem execute_eq (settings : ScoringSettings) (query : Query) :
    execute settings first query = execute settings second query := alike.answer_eq settings _

/-- Words find the same in alike catalogs. -/
theorem findWords_eq (settings : Settings) (words : List String) (findings : Findings) :
    findWords settings first words findings = findWords settings second words findings := by
  induction words generalizing findings with
  | nil => rfl
  | cons word rest ih =>
      unfold findWords
      rw [alike.answer_eq]
      congr 1
      funext ranking
      exact ih _

/-- Searches of any text show the same where the hits of each document show the same. -/
theorem searchText_eq {α : Type} {view : Hit → α} {settings : Settings} {disk : Disk}
    (same : ∀ words score id, (hit? settings first disk words score id).map view =
      (hit? settings second disk words score id).map view) (text : String) :
    (searchText settings first disk text).map (List.map view) =
      (searchText settings second disk text).map (List.map view) := by
  have query (query : Query) : (searchQuery settings first disk query).map (List.map view) =
      (searchQuery settings second disk query).map (List.map view) := by
    unfold searchQuery
    rw [alike.execute_eq]
    cases execute settings.scoring second query with
    | error abort => rfl
    | ok ranking =>
        simp only [bind, Except.bind, pure, Except.pure, Except.map, List.map_filterMap, same]
  have start (start : String) : (searchStart settings first disk start).map (List.map view) =
      (searchStart settings second disk start).map (List.map view) := by
    unfold searchStart
    rw [alike.complete_eq, alike.findWords_eq]
    cases findWords settings second _ .empty with
    | error abort => rfl
    | ok findings =>
        simp only [bind, Except.bind, pure, Except.pure, Except.map, List.map_filterMap, same]
  unfold searchText
  simp only
  split
  next => rfl
  next =>
    split
    next => exact start _
    next =>
      split
      next found parsed => exact query found
      next => rfl

/-- Searches show the same hits but for what is lost of a path when it is written, and for the texts
that are read from the files of these paths. -/
theorem outline_eq (settings : Settings) (disk : Disk) (text : String) :
    (searchText settings first disk text).map (List.map Hit.outline) =
      (searchText settings second disk text).map (List.map Hit.outline) := by
  refine alike.searchText_eq (fun words score id => ?_) text
  let view (catalog : Catalog) (document : Document) := (id, document.path.written,
    unscale settings.scoring score,
    (highlightsOf settings.search catalog disk words document).map Highlight.outline)
  have same : view first = view second := by
    funext document
    show (_, _, _, _) = (_, _, _, _)
    rw [outlines_eq (alike.placesOf_eq words document.id)]
  have keeps (document : Document) : view second document.written = view second document := by
    have places : placesOf second words document.written.id = placesOf second words document.id :=
      rfl
    show (_, document.path.written.written, _, _) = (_, _, _, _)
    rw [Path.written_written, outlines_eq places]
  have shown (catalog : Catalog) : (hit? settings catalog disk words score id).map Hit.outline =
      (catalog.document? id).map (view catalog) := Option.map_map ..
  rw [shown, shown, same, alike.map_eq (view second) keeps id]

/-- Searches give the same hits where the documents are the same. -/
theorem searchText_eq_of_documents_eq (same : first.documents = second.documents)
    (settings : Settings) (disk : Disk) (text : String) :
    searchText settings first disk text = searchText settings second disk text := by
  have hits (words : List String) (score : Int) (id : DocId) :
      hit? settings first disk words score id = hit? settings second disk words score id := by
    have highlights : highlightsOf settings.search first disk words =
        highlightsOf settings.search second disk words := by
      funext document
      unfold highlightsOf
      rw [alike.placesOf_eq]
    unfold hit? document?
    rw [same, highlights]
  have whole : (searchText settings first disk text).map (List.map id) =
      (searchText settings second disk text).map (List.map id) :=
    alike.searchText_eq (fun words score id => by rw [hits]) text
  simpa using whole

end Catalog.Alike

namespace Retrieval

/-- A sequence does not crash where neither of its parts does. -/
theorem bind_ne_crash {α β : Type} {first : Except Abort α} {next : α → Except Abort β}
    (head : first ≠ .error .crash) (rest : ∀ value, next value ≠ .error .crash) :
    first >>= next ≠ .error .crash := by
  cases first with
  | ok value => exact rest value
  | error abort => exact fun crashed => head (congrArg Except.error (Except.error.inj crashed))

variable {catalog : Catalog} (unwrapped : catalog.nextId ≠ 0)

include unwrapped

/-- No stage crashes as long as the counter has not come back to 0. -/
theorem run_ne_crash (settings : ScoringSettings) (stage : Stage) (selection : Selection) :
    stage.run settings catalog selection ≠ .error .crash := by
  cases stage with
  | terms words => rw [run_terms unwrapped]; exact nofun
  | having conditions => cases conditions <;> cases selection <;> exact nofun
  | score words => cases selection <;> exact nofun
  | limit count => cases count <;> cases selection <;> exact nofun

/-- No stages crash as long as the counter has not come back to 0. -/
theorem answer_ne_crash (settings : ScoringSettings) (stages : List Stage) :
    answer settings catalog stages ≠ .error .crash := by
  have all : ∀ (stages : List Stage) (selection : Selection),
      runStages settings catalog stages selection ≠ .error .crash := by
    intro stages
    induction stages with
    | nil => exact fun _ => nofun
    | cons stage rest ih =>
        exact fun selection => bind_ne_crash (run_ne_crash unwrapped settings stage selection) ih
  exact bind_ne_crash (all stages _) fun _ => nofun

/-- Looking for words does not crash as long as the counter has not come back to 0. -/
theorem findWords_ne_crash (settings : Settings) (words : List String) (findings : Findings) :
    findWords settings catalog words findings ≠ .error .crash := by
  induction words generalizing findings with
  | nil => exact nofun
  | cons word rest ih => exact bind_ne_crash (answer_ne_crash unwrapped _ _) fun _ => ih _

/-- As long as the counter has not come back to 0, no search ends the program. -/
theorem searchText_ne_crash (settings : Settings) (disk : Disk) (text : String) :
    searchText settings catalog disk text ≠ .error .crash := by
  unfold searchText
  simp only
  split
  next => exact nofun
  next =>
    split
    next => exact bind_ne_crash (findWords_ne_crash unwrapped settings _ _) fun _ => nofun
    next =>
      split
      next => exact bind_ne_crash (answer_ne_crash unwrapped _ _) fun _ => nofun
      next => exact nofun

end Retrieval

end Concordance
