import Concordance.Proofs.Retrieval.WordStart
import Mathlib.Data.List.Nodup
import Mathlib.Order.Bounds.Basic

/-! What the start of a word finds: the merge of what the words that start so find. -/
namespace Concordance.Retrieval

/-- The documents of a ranking. -/
def idsOf (ranking : Ranking) : List DocId := ranking.toList.map Ranked.id

/-- The scores that the rankings of words give a document. -/
def scoresOf (ranking : String → Ranking) (words : List String) (id : DocId) : Set Int :=
  {score | ∃ word ∈ words, ⟨score, id⟩ ∈ (ranking word).toList}

/-- The words whose rankings hold a document. -/
def findersOf (ranking : String → Ranking) (words : List String) (id : DocId) : List String :=
  words.filter fun word => decide (id ∈ idsOf (ranking word))

/-- The entries merge the rankings of words: they are the documents that some word finds, each once,
with the greatest of its scores and with the words that find it, in the order of the ranks. -/
structure IsMerge (ranking : String → Ranking) (words : List String)
    (entries : List (DocId × Int × List String)) : Prop where
  once : (entries.map Prod.fst).Nodup
  found : ∀ id, id ∈ entries.map Prod.fst ↔ ∃ word ∈ words, id ∈ idsOf (ranking word)
  greatest : ∀ entry ∈ entries, IsGreatest (scoresOf ranking words entry.1) entry.2.1
  finders : ∀ entry ∈ entries, entry.2.2 = findersOf ranking words entry.1
  ordered : entries.Pairwise fun first second =>
    precedes ⟨first.2.1, first.1⟩ ⟨second.2.1, second.1⟩

/-- Rankings have one merge. -/
theorem IsMerge.unique {ranking : String → Ranking} {words : List String}
    {first second : List (DocId × Int × List String)} (one : IsMerge ranking words first)
    (other : IsMerge ranking words second) : first = second := by
  have within {first second : List (DocId × Int × List String)} (one : IsMerge ranking words first)
      (other : IsMerge ranking words second) (entry : DocId × Int × List String)
      (member : entry ∈ first) : entry ∈ second := by
    obtain ⟨id, score, finders⟩ := entry
    have known := (other.found id).mpr ((one.found id).mp (List.mem_map_of_mem member))
    obtain ⟨⟨id, otherScore, otherFinders⟩, held, rfl⟩ := List.mem_map.mp known
    obtain rfl : score = otherScore := (one.greatest _ member).unique (other.greatest _ held)
    obtain rfl : finders = otherFinders :=
      (one.finders _ member).trans (other.finders _ held).symm
    exact held
  refine List.Perm.eq_of_pairwise ?_ one.ordered other.ordered ?_
  · intro entry next _ _ less more
    exact absurd (compare_eq_lt.mpr more) (Std.OrientedCmp.not_lt_of_lt (compare_eq_lt.mpr less))
  · exact (List.perm_ext_iff_of_nodup one.once.of_map other.once.of_map).mpr fun entry =>
      ⟨within one other entry, within other one entry⟩

section Words

variable (settings : ScoringSettings) (catalog : Catalog) (limit : Nat) (word : String)

variable {settings catalog limit word} {ranking : Ranking}

end Words

/-- A document is in a ranking where it has a score there. -/
theorem mem_idsOf {ranking : Ranking} {id : DocId} :
    id ∈ idsOf ranking ↔ ∃ score, ⟨score, id⟩ ∈ ranking.toList := by
  unfold idsOf
  rw [List.mem_map]
  constructor
  · rintro ⟨entry, member, rfl⟩
    exact ⟨entry.score, member⟩
  · rintro ⟨score, member⟩
    exact ⟨_, member, rfl⟩

/-- What a document has after one more word has found it. -/
def gain (word : String) (score : Int) (before : Option (Int × List String)) : Int × List String :=
  let (best, words) := before.getD (score, [])
  (max best score, words ++ [word])

section Merge

variable (word : String)

/-- The findings with one more document that a word has found. -/
def mergeEntry (findings : Findings) (entry : Ranked) : Findings :=
  findings.insert entry.id (gain word entry.score (findings.get? entry.id))

theorem mergeRanking_eq_foldl (findings : Findings) (ranking : Ranking) :
    mergeRanking word findings ranking = ranking.toList.foldl (mergeEntry word) findings := rfl

/-- Merging an entry changes what is found of its own document only. -/
theorem get?_mergeEntry (findings : Findings) (entry : Ranked) (id : DocId) :
    (mergeEntry word findings entry).get? id =
      if id = entry.id then some (gain word entry.score (findings.get? id))
      else findings.get? id := by
  unfold mergeEntry
  simp only [OrderedMap.get?_insert, Std.LawfulEqOrd.compare_eq_iff_eq]
  split
  next same => rw [same]
  next => rfl

/-- A ranking changes nothing of the documents that are not in it. -/
theorem get?_foldl_of_notMem {entries : List Ranked} {id : DocId}
    (absent : id ∉ entries.map Ranked.id) (findings : Findings) :
    (entries.foldl (mergeEntry word) findings).get? id = findings.get? id := by
  induction entries generalizing findings with
  | nil => rfl
  | cons entry rest ih =>
      rw [List.map_cons, List.mem_cons, not_or] at absent
      rw [List.foldl_cons, ih absent.2, get?_mergeEntry, if_neg absent.1]

/-- A document in a ranking gains the word and the score once. -/
theorem get?_foldl_of_mem {entries : List Ranked} (once : (entries.map Ranked.id).Nodup) {id : DocId}
    {score : Int} (member : ⟨score, id⟩ ∈ entries) (findings : Findings) :
    (entries.foldl (mergeEntry word) findings).get? id =
      some (gain word score (findings.get? id)) := by
  induction entries generalizing findings with
  | nil => cases member
  | cons entry rest ih =>
      obtain ⟨apart, distinct⟩ := List.nodup_cons.mp once
      rw [List.foldl_cons]
      rcases List.mem_cons.mp member with rfl | later
      · rw [get?_foldl_of_notMem word apart, get?_mergeEntry, if_pos rfl]
      · have other : id ≠ entry.id := fun same =>
          apart (same ▸ List.mem_map_of_mem (f := Ranked.id) later)
        rw [ih distinct later, get?_mergeEntry, if_neg other]

end Merge

section Findings

variable {ranking : String → Ranking} {words : List String} {word : String} {id : DocId}

/-- One more word adds its scores. -/
theorem scoresOf_append : scoresOf ranking (words ++ [word]) id =
    scoresOf ranking words id ∪ {score | ⟨score, id⟩ ∈ (ranking word).toList} := by
  ext score
  simp [scoresOf, or_and_right, exists_or]

/-- One more word is among the finders of a document where its ranking holds the document. -/
theorem findersOf_append : findersOf ranking (words ++ [word]) id =
    findersOf ranking words id ++ if id ∈ idsOf (ranking word) then [word] else [] := by
  unfold findersOf
  rw [List.filter_append, List.filter_singleton]
  simp

/-- A ranking in which a document stands once gives it one score. -/
theorem scores_eq_singleton (once : (idsOf (ranking word)).Nodup) {score : Int}
    (member : ⟨score, id⟩ ∈ (ranking word).toList) :
    {score | (⟨score, id⟩ : Ranked) ∈ (ranking word).toList} = {score} := by
  ext other
  constructor
  · intro again
    exact congrArg Ranked.score (List.inj_on_of_nodup_map once again member rfl)
  · rintro rfl
    exact member

/-- A ranking gives no score to a document that is not in it. -/
theorem scores_eq_empty (absent : id ∉ idsOf (ranking word)) :
    {score | (⟨score, id⟩ : Ranked) ∈ (ranking word).toList} = ∅ :=
  Set.eq_empty_of_forall_notMem fun score member => absent (mem_idsOf.mpr ⟨score, member⟩)

/-- The findings hold what the rankings of some words say of each document. -/
structure Gathers (ranking : String → Ranking) (words : List String) (findings : Findings) :
    Prop where
  missing : ∀ id, findings.get? id = none → ∀ word ∈ words, id ∉ idsOf (ranking word)
  held : ∀ id best finders, findings.get? id = some (best, finders) →
    IsGreatest (scoresOf ranking words id) best ∧ finders = findersOf ranking words id

/-- What a document gains by a word is what the ranking of that word adds. -/
theorem Gathers.gain {findings : Findings} (gathers : Gathers ranking words findings)
    (once : (idsOf (ranking word)).Nodup) {score : Int}
    (member : ⟨score, id⟩ ∈ (ranking word).toList) :
    IsGreatest (scoresOf ranking (words ++ [word]) id)
        (gain word score (findings.get? id)).1 ∧
      (gain word score (findings.get? id)).2 = findersOf ranking (words ++ [word]) id := by
  rw [scoresOf_append, scores_eq_singleton once member, findersOf_append,
    if_pos (mem_idsOf.mpr ⟨score, member⟩)]
  cases found : findings.get? id with
  | none =>
      have unknown := gathers.missing id found
      have scores : scoresOf ranking words id = ∅ :=
        Set.eq_empty_of_forall_notMem fun other ⟨word, held, stands⟩ =>
          unknown word held (mem_idsOf.mpr ⟨other, stands⟩)
      have finders : findersOf ranking words id = [] :=
        List.filter_eq_nil_iff.mpr fun word held => by simpa using unknown word held
      rw [scores, finders, Set.empty_union]
      show IsGreatest {score} (max score score) ∧ _
      rw [max_self]
      exact ⟨isGreatest_singleton, rfl⟩
  | some entry =>
      obtain ⟨best, finders⟩ := entry
      obtain ⟨greatest, rfl⟩ := gathers.held id best finders found
      exact ⟨greatest.union isGreatest_singleton, rfl⟩

/-- The ranking of one more word keeps the findings true. -/
theorem Gathers.mergeRanking {findings : Findings} (gathers : Gathers ranking words findings)
    (once : (idsOf (ranking word)).Nodup) :
    Gathers ranking (words ++ [word]) (mergeRanking word findings (ranking word)) := by
  have present {id : DocId} {score : Int} (member : ⟨score, id⟩ ∈ (ranking word).toList) :=
    get?_foldl_of_mem word once member findings
  have absent {id : DocId} (missing : id ∉ idsOf (ranking word)) :=
    get?_foldl_of_notMem word missing findings
  rw [mergeRanking_eq_foldl]
  constructor
  · intro id none other member stands
    by_cases here : id ∈ idsOf (ranking word)
    · obtain ⟨score, entry⟩ := mem_idsOf.mp here
      rw [present entry] at none
      cases none
    · rw [absent here] at none
      rcases List.mem_append.mp member with before | last
      · exact gathers.missing id none other before stands
      · exact here (List.mem_singleton.mp last ▸ stands)
  · intro id best finders found
    by_cases here : id ∈ idsOf (ranking word)
    · obtain ⟨score, entry⟩ := mem_idsOf.mp here
      rw [present entry] at found
      have both := gathers.gain once entry
      rw [Option.some.inj found] at both
      exact both
    · rw [absent here] at found
      rw [scoresOf_append, scores_eq_empty here, Set.union_empty, findersOf_append, if_neg here,
        List.append_nil]
      exact gathers.held id best finders found

end Findings

section Order

end Order

section Search

variable {settings : Settings} {catalog : Catalog} {disk : Disk} {clock : Clock}
  {ranking : String → Ranking}

end Search

end Concordance.Retrieval
