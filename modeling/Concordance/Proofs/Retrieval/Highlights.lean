import Concordance.Proofs.Catalog.Provenance
import Concordance.Proofs.Catalog.Registration
import Concordance.Proofs.Retrieval.Stage
import Concordance.Retrieval.Search

/-! Highlights are the first places in a document where words of the query stand. -/
namespace Concordance

namespace Query

/-- Going through a list keeps what was seen, each element once, and adds what is new. -/
theorem distinct_spec {α : Type} [DecidableEq α] (elements seen : List α) (once : seen.Nodup) :
    (elements.foldl (fun seen element => if element ∈ seen then seen else seen ++ [element])
      seen).Nodup ∧ ∀ element, element ∈ elements.foldl (fun seen element =>
        if element ∈ seen then seen else seen ++ [element]) seen ↔
          element ∈ seen ∨ element ∈ elements := by
  induction elements generalizing seen with
  | nil => exact ⟨once, fun element => by simp⟩
  | cons first rest ih =>
      rw [List.foldl_cons]
      by_cases known : first ∈ seen
      · rw [if_pos known]
        refine ⟨(ih seen once).1, fun element => ?_⟩
        rw [(ih seen once).2, List.mem_cons]
        constructor
        · exact Or.imp_right .inr
        · rintro (before | rfl | later)
          · exact .inl before
          · exact .inl known
          · exact .inr later
      · have more : (seen ++ [first]).Nodup := List.nodup_append.mpr ⟨once, List.nodup_singleton _,
          fun element held other same different => known (by
            rw [List.mem_singleton.mp same] at different
            exact different ▸ held)⟩
        rw [if_neg known]
        refine ⟨(ih _ more).1, fun element => ?_⟩
        rw [(ih _ more).2, List.mem_append, List.mem_singleton, List.mem_cons, or_assoc]

/-- The words of a query are listed once. -/
theorem nodup_terms (query : Query) : query.terms.Nodup := by
  unfold terms
  cases query.words with
  | none => exact List.nodup_nil
  | some words => exact (distinct_spec words.leaves [] List.nodup_nil).1

/-- The words of a query are the leaves of its word tree. -/
theorem mem_terms {query : Query} {word : String} :
    word ∈ query.terms ↔ ∃ words, query.words = some words ∧ word ∈ words.leaves := by
  unfold terms
  cases query.words with
  | none => simp
  | some words =>
      have member := (distinct_spec words.leaves [] List.nodup_nil).2 word
      constructor
      · exact fun held => ⟨words, rfl, (member.mp held).resolve_left List.not_mem_nil⟩
      · rintro ⟨_, same, held⟩
        cases same
        exact member.mpr (.inr held)

end Query

namespace Retrieval

open Catalog

/-- Of two places the earlier comes first, and of two words at one place the lesser. -/
def comesBefore (first second : UInt64 × String) : Prop :=
  first.1 < second.1 ∨ first.1 = second.1 ∧ first.2 < second.2

/-- All places of words in a document, each once and in their order. -/
structure AreOccurrences (catalog : Catalog) (words : List String) (id : DocId)
    (found : List (UInt64 × String)) : Prop where
  mem_iff : ∀ place, place ∈ found ↔ place.2 ∈ words ∧ catalog.HasPlace place.2 id place.1
  ascending : found.Pairwise comesBefore

/-- Words have one list of occurrences. -/
theorem AreOccurrences.unique {catalog : Catalog} {words : List String} {id : DocId}
    {first second : List (UInt64 × String)} (one : AreOccurrences catalog words id first)
    (other : AreOccurrences catalog words id second) : first = second := by
  have irreflexive (place : UInt64 × String) : ¬comesBefore place place := by
    rintro (less | ⟨-, less⟩)
    · exact UInt64.lt_irrefl _ less
    · exact String.lt_irrefl _ less
  have asymmetric {place next : UInt64 × String} (before : comesBefore place next)
      (after : comesBefore next place) : False := by
    rcases before with less | ⟨same, less⟩ <;> rcases after with more | ⟨again, more⟩
    · exact UInt64.lt_asymm less more
    · exact UInt64.lt_irrefl _ (again ▸ less)
    · exact UInt64.lt_irrefl _ (same ▸ more)
    · exact String.lt_asymm less more
  have once {found : List (UInt64 × String)} (all : AreOccurrences catalog words id found) :
      found.Nodup := by
    refine all.ascending.imp ?_
    rintro place _ before rfl
    exact irreflexive place before
  refine List.Perm.eq_of_pairwise ?_ one.ascending other.ascending ?_
  · exact fun place next _ _ before after => (asymmetric before after).elim
  · exact (List.perm_ext_iff_of_nodup (once one) (once other)).mpr fun place =>
      (one.mem_iff place).trans (other.mem_iff place).symm

/-- The places of one word in a document. -/
def placesOfWord (catalog : Catalog) (id : DocId) (word : String) : List (UInt64 × String) :=
  match catalog.places word id with
  | some offsets => offsets.toList.map fun offset => (offset, word)
  | none => []

/-- The places of a word in a document are those that are recorded. -/
theorem mem_placesOfWord {catalog : Catalog} {id : DocId} {word : String}
    {place : UInt64 × String} :
    place ∈ placesOfWord catalog id word ↔ place.2 = word ∧ catalog.HasPlace word id place.1 := by
  unfold placesOfWord HasPlace
  cases catalog.places word id with
  | none => simp
  | some offsets =>
      simp only [List.mem_map, Option.some.injEq, OrderedSet.contains_iff]
      constructor
      · rintro ⟨offset, member, rfl⟩
        exact ⟨rfl, offsets, rfl, member⟩
      · rintro ⟨rfl, _, rfl, member⟩
        exact ⟨place.1, member, rfl⟩

/-- Every place of a word is listed once. -/
theorem nodup_placesOfWord (catalog : Catalog) (id : DocId) (word : String) :
    (placesOfWord catalog id word).Nodup := by
  unfold placesOfWord
  cases catalog.places word id with
  | none => exact List.nodup_nil
  | some offsets =>
      exact offsets.nodup_toList.map fun first second same => congrArg Prod.fst same

/-- The places of words are those of each word, sorted. -/
theorem placesOf_eq (catalog : Catalog) (words : List String) (id : DocId) :
    placesOf catalog words id = (words.flatMap (placesOfWord catalog id)).mergeSort isBefore := rfl

theorem isBefore_eq (first second : UInt64 × String) : isBefore first second =
    ((compare first.1 second.1).then (compare first.2 second.2)).isLE := rfl

/-- Places that differ are sorted strictly. -/
theorem comesBefore_of_isBefore {first second : UInt64 × String}
    (before : isBefore first second = true) (apart : first ≠ second) :
    comesBefore first second := by
  rw [isBefore_eq] at before
  unfold comesBefore
  cases offsets : compare first.1 second.1 with
  | lt => exact .inl (Std.compare_eq_lt.mp offsets)
  | gt =>
      rw [offsets] at before
      cases before
  | eq =>
      rw [offsets] at before
      have same := Std.LawfulEqOrd.eq_of_compare offsets
      cases words : compare first.2 second.2 with
      | lt => exact .inr ⟨same, compareOfLessAndEq_eq_lt.mp words⟩
      | eq => exact absurd (Prod.ext same (Std.LawfulEqOrd.eq_of_compare words)) apart
      | gt =>
          rw [words] at before
          cases before

/-- Sorted places stand in strict order where each is listed once. -/
theorem pairwise_mergeSort_isBefore {places : List (UInt64 × String)} (once : places.Nodup) :
    (places.mergeSort isBefore).Pairwise comesBefore := by
  have sorted : (places.mergeSort isBefore).Pairwise
      fun first second => isBefore first second = true := by
    apply List.pairwise_mergeSort
    · intro first second third
      unfold isBefore
      exact Std.TransCmp.isLE_trans
    · intro first second
      have turned : compareLex (compareOn Prod.fst) (compareOn Prod.snd) second first =
          (compareLex (compareOn Prod.fst) (compareOn Prod.snd) first second).swap :=
        Std.OrientedCmp.eq_swap
      unfold isBefore
      rw [turned]
      cases compareLex (compareOn Prod.fst) (compareOn Prod.snd) first second <;> rfl
  have apart := (List.mergeSort_perm places isBefore).nodup_iff.mpr once
  exact (sorted.and apart).imp fun both => comesBefore_of_isBefore both.1 both.2

/-- The places that are found are all occurrences of the words. -/
theorem areOccurrences_placesOf {words : List String} (once : words.Nodup) (catalog : Catalog)
    (id : DocId) : AreOccurrences catalog words id (placesOf catalog words id) := by
  rw [placesOf_eq]
  refine ⟨fun place => ?_, pairwise_mergeSort_isBefore ?_⟩
  · rw [(List.mergeSort_perm _ isBefore).mem_iff, List.mem_flatMap]
    constructor
    · rintro ⟨word, asked, member⟩
      obtain ⟨rfl, placed⟩ := mem_placesOfWord.mp member
      exact ⟨asked, placed⟩
    · rintro ⟨asked, placed⟩
      exact ⟨place.2, asked, mem_placesOfWord.mpr ⟨rfl, placed⟩⟩
  · rw [List.nodup_flatMap]
    refine ⟨fun word _ => nodup_placesOfWord catalog id word, once.imp ?_⟩
    intro first second different place here there
    exact different ((mem_placesOfWord.mp here).1.symm.trans (mem_placesOfWord.mp there).1)

section Highlights

variable {settings : SearchSettings} {catalog : Catalog} {disk : Disk} {words : List String}
  {document : Document}

/-- Without places, or where none are wanted, a placeholder is shown. -/
theorem highlightsOf_of_none (none : placesOf catalog words document.id = [] ∨
    settings.maxHighlights = 0) : highlightsOf settings catalog disk words document = [noMatch] := by
  have empty : (placesOf catalog words document.id).take settings.maxHighlights = [] :=
    List.take_eq_nil_iff.mpr none.symm
  unfold highlightsOf
  rw [empty]

/-- The highlights are the first places, each with its word. -/
theorem highlightsOf_of_some (disk : Disk) (document : Document)
    (some : placesOf catalog words document.id ≠ []) (wanted : settings.maxHighlights ≠ 0) :
    let highlights := highlightsOf settings catalog disk words document
    highlights.map (fun highlight => (highlight.offset, highlight.term)) =
      (placesOf catalog words document.id).take settings.maxHighlights ∧
      ∀ highlight ∈ highlights, highlight.length = (Utf8.bytes highlight.term).length := by
  have filled : (placesOf catalog words document.id).take settings.maxHighlights ≠ [] := by
    rw [ne_eq, List.take_eq_nil_iff, not_or]
    exact ⟨wanted, some⟩
  unfold highlightsOf
  split
  next empty => exact absurd empty filled
  next =>
    refine ⟨?_, ?_⟩
    · rw [List.map_map]
      exact List.map_id _
    · intro highlight member
      obtain ⟨place, -, rfl⟩ := List.mem_map.mp member
      rfl

end Highlights

/-- Every hit is a document of the catalog with its highlights. -/
theorem of_mem_searchQuery {settings : Settings} {catalog : Catalog} {disk : Disk} {query : Query}
    {hits : List Hit} (answered : searchQuery settings catalog disk query = .ok hits) {hit : Hit}
    (member : hit ∈ hits) : ∃ document, catalog.document? hit.id = some document ∧
      hit.path = document.path ∧
      hit.highlights = highlightsOf settings.search catalog disk query.terms document := by
  unfold searchQuery at answered
  cases executed : execute settings.scoring catalog query with
  | error fault =>
      rw [executed] at answered
      cases answered
  | ok ranking =>
      rw [executed] at answered
      cases answered
      obtain ⟨entry, -, shown⟩ := List.mem_filterMap.mp member
      obtain ⟨document, found, rfl⟩ := Option.map_eq_some_iff.mp shown
      exact ⟨document, found, rfl, rfl⟩

end Retrieval

namespace Extract

/-- A place of a word among the words of a file is the offset of one of them. -/
theorem exists_of_mem_placesOf {words : List Word} {text : String} {offsets : Offsets}
    {offset : UInt64} (found : placesOf words text = some offsets)
    (member : offset ∈ offsets.toList) :
    ∃ word ∈ words, word.text = text ∧ UInt64.ofNat word.offset = offset := by
  unfold placesOf at found
  split at found
  next => cases found
  next =>
    cases found
    obtain ⟨word, held, same⟩ := List.mem_map.mp (OrderedSet.mem_ofList.mp member)
    obtain ⟨listed, spelled⟩ := List.mem_filter.mp held
    exact ⟨word, listed, eq_of_beq spelled, same⟩

theorem exists_words_ofContent (path : Path) (content : Bytes) : ∃ separators,
    (Extraction.ofContent path content).words = wordsOf separators content := by
  unfold Extraction.ofContent
  dsimp only
  split
  · exact ⟨jsonSeparators, rfl⟩
  · exact ⟨proseSeparators, rfl⟩

/-- The content of a file has the bytes of a word at each place that it gives the word. -/
theorem extract_of_mem_placesOf {path : Path} {content : Bytes}
    (countable : content.length ≤ UInt64.size) {text : String} {offsets : Offsets}
    {offset : UInt64}
    (found : placesOf (Extraction.ofContent path content).words text = some offsets)
    (member : offset ∈ offsets.toList) :
    content.extract offset.toNat (offset.toNat + (Utf8.bytes text).length) = Utf8.bytes text := by
  obtain ⟨separators, words⟩ := exists_words_ofContent path content
  obtain ⟨word, listed, rfl, rfl⟩ := exists_of_mem_placesOf found member
  rw [words] at listed
  obtain ⟨slice, inside, filled⟩ := extract_of_mem_wordsOf listed
  rw [UInt64.toNat_ofNat_of_lt' (by omega)]
  exact slice

end Extract

namespace Retrieval

open Catalog

/-- What a search shows of a document. Over every history, where nothing that the query names stands
in the document, or nothing may be shown, there is one highlight that stands for none. Else the
highlights are the first places of the distinct words of the query in the document, in order and as
many as may be shown. Each document was indexed by a step of the history, and where its file is now
as that step read it, the bytes at each highlight are those of its word. -/
theorem highlights_of_run {directory : Path} {usage : UsageLog} {disk : Disk} {last : History}
    (ready : IsReady disk directory) (unwritten : disk.holds (snapshotPath directory) = false)
    (run : Relation.ReflTransGen History.Step (History.start directory usage disk) last)
    (settings : Settings) (present : Disk) (query : Query) :
    ((∃ text sizeLimit depthLimit, Query.parse text sizeLimit depthLimit = .parsed query) →
      ∃ hits, searchQuery settings last.catalog present query = .ok hits) ∧
    query.terms.Nodup ∧
    (∀ word, word ∈ query.terms ↔ ∃ words, query.words = some words ∧ word ∈ words.leaves) ∧
    ∀ hits, searchQuery settings last.catalog present query = .ok hits → ∀ hit ∈ hits,
      ∃ item found, last.origins hit.id = some item ∧
        (∃ document, last.catalog.document? hit.id = some document ∧ item.Gives hit.id document ∧
          hit.path = document.path) ∧
        AreOccurrences last.catalog query.terms hit.id found ∧
        (found = [] ∨ settings.search.maxHighlights = 0 → hit.highlights = [noMatch]) ∧
        (found ≠ [] → settings.search.maxHighlights ≠ 0 →
          hit.highlights.map (fun highlight => (highlight.offset, highlight.term)) =
            found.take settings.search.maxHighlights ∧
          ∀ highlight ∈ hit.highlights,
            highlight.length = (Utf8.bytes highlight.term).length) ∧
        History.WasIndexed (History.start directory usage disk) last hit.id item ∧
        ∀ before after, History.Indexed before after hit.id item →
          ∀ content, before.disk.read item.path = .ok content → content.length ≤ UInt64.size →
          present.read item.path = .ok content →
          ∀ highlight ∈ hit.highlights, content.extract highlight.offset.toNat
            (highlight.offset.toNat + highlight.length) = Utf8.bytes highlight.term := by
  have faithful := (History.sound_of_run run (History.sound_start ready unwritten)).faithful
  refine ⟨?_, query.nodup_terms, fun word => Query.mem_terms, ?_⟩
  · rintro ⟨text, sizeLimit, depthLimit, parsed⟩
    have executed : execute settings.scoring last.catalog query = _ :=
      execute_eq faithful.counts (numbered_of_faithful faithful) (Query.isGrouped_of_parse parsed)
    unfold searchQuery
    rw [executed]
    exact ⟨_, rfl⟩
  · intro hits answered hit member
    obtain ⟨document, filed, path, shown⟩ := of_mem_searchQuery answered member
    obtain ⟨item, origin, gives, places⟩ := faithful.original filed
    have same : document.id = hit.id := gives.id_eq
    have all := areOccurrences_placesOf query.nodup_terms last.catalog document.id
    refine ⟨item, _, origin, ⟨document, filed, gives, path⟩, same ▸ all,
      fun none => shown.trans (highlightsOf_of_none none),
      fun some wanted => shown ▸ highlightsOf_of_some _ _ some wanted,
      (History.traced_of_run ready unwritten run).here origin, ?_⟩
    intro before after indexed content stored countable unchanged highlight listed
    obtain ⟨extensions, read⟩ := indexed.read
    have extraction := Indexable.extraction_of_ofFile read stored
    by_cases none : placesOf last.catalog query.terms document.id = [] ∨
        settings.search.maxHighlights = 0
    · rw [shown, highlightsOf_of_none none, List.mem_singleton] at listed
      rw [listed]
      rfl
    · rw [not_or] at none
      obtain ⟨order, lengths⟩ :=
        highlightsOf_of_some present document none.1 none.2
      rw [← shown] at order lengths
      have pair := List.mem_map_of_mem
        (f := fun highlight : Highlight => (highlight.offset, highlight.term)) listed
      rw [order] at pair
      obtain ⟨-, offsets, recorded, contained⟩ :=
        (all.mem_iff _).mp (List.mem_of_mem_take pair)
      rw [same, ← places_snapshot, places, extraction] at recorded
      rw [lengths highlight listed]
      exact Extract.extract_of_mem_placesOf countable recorded
        ((OrderedSet.contains_iff offsets _).mp contained)

/-- In a file that was indexed its word is shown at both places. -/
theorem highlights_of_run_twice :
    let settings := Settings.standard
    let query : Query := ⟨some (.leaf "hi"), none, some 1⟩
    IsReady noteDisk ⟨"/"⟩ ∧ noteDisk.holds (snapshotPath ⟨"/"⟩) = false ∧
      ∃ last, Relation.ReflTransGen History.Step (History.start ⟨"/"⟩ .empty noteDisk) last ∧
      ∃ hits, searchQuery settings last.catalog noteDisk query = .ok hits ∧ hits.map Hit.id = [1] ∧
      ∀ hit ∈ hits, hit.highlights.map (fun highlight => (highlight.offset, highlight.term)) =
        [(0, "hi"), (3, "hi")] := by
  intro settings query
  let catalog := ((Catalog.empty ⟨"/"⟩ .empty).register note).2
  have indexed : (History.start ⟨"/"⟩ .empty noteDisk).catalog.indexFile ⟨[], []⟩ noteDisk notePath =
      .ok (some 1, catalog) := by
    rw [indexFile_eq, ofFile_notePath ⟨[], []⟩ rfl]
    rfl
  have run := Relation.ReflTransGen.single
    (History.Step.indexFile (ofFile_notePath ⟨[], []⟩ rfl) (by decide) indexed)
  have parsed : Query.parse "'hi' LIMIT 1" 0 0 = .parsed query := by decide +kernel
  obtain ⟨answers, -, -, shows⟩ := highlights_of_run History.isReady_noteDisk
    History.holds_noteDisk run settings noteDisk query
  obtain ⟨hits, answered⟩ := answers ⟨_, _, _, parsed⟩
  have ids : hits.map Hit.id = [1] := by
    have faithful := (History.sound_of_run run
      (History.sound_start History.isReady_noteDisk History.holds_noteDisk)).faithful
    have executed : execute settings.scoring _ query = _ :=
      execute_eq faithful.counts (numbered_of_faithful faithful) (Query.isGrouped_of_parse parsed)
    have answer : catalog.live.toList.filter (qualifies catalog query) = [1] := by decide +kernel
    have filed : catalog.document? 1 = some (note.document 1) := by
      rw [document?_register]
      rfl
    unfold searchQuery at answered
    rw [executed, answer] at answered
    cases answered
    show ([entryOf settings.scoring catalog query 1].filterMap fun entry =>
      hit? settings catalog noteDisk query.terms entry.score entry.id).map Hit.id = [1]
    simp only [List.filterMap_cons, List.filterMap_nil, hit?, entryOf, filed, Option.map_some,
      List.map_cons, List.map_nil]
  have places : placesOf catalog query.terms 1 = [(0, "hi"), (3, "hi")] := by
    have sorted : [((0 : UInt64), "hi"), (3, "hi")].Pairwise
        fun first second => isBefore first second = true := by decide
    have whole : query.terms.flatMap (placesOfWord catalog 1) = [(0, "hi"), (3, "hi")] := by
      decide +kernel
    rw [placesOf_eq, whole, List.mergeSort_of_pairwise sorted]
  refine ⟨History.isReady_noteDisk, History.holds_noteDisk, _, run, hits, answered, ids, ?_⟩
  intro hit member
  have number : hit.id = 1 := List.mem_singleton.mp (ids ▸ List.mem_map_of_mem member)
  obtain ⟨item, found, -, -, all, -, first, -⟩ := shows hits answered hit member
  have same : found = [(0, "hi"), (3, "hi")] := by
    rw [← places, all.unique (areOccurrences_placesOf query.nodup_terms catalog hit.id), number]
  rw [(first (same ▸ List.cons_ne_nil _ _) (by decide)).1, same]
  rfl

end Retrieval
end Concordance
