import Concordance.Proofs.Catalog.Places
import Concordance.Proofs.IdSet
import Concordance.Proofs.Indexing
import Concordance.Proofs.Ordered.Set
import Concordance.Proofs.Posting
import Concordance.Proofs.Query.Parser
import Concordance.Proofs.Ranking
import Concordance.Retrieval.Stage

/-! What a query means, told without bits and stages. -/
namespace Concordance.Retrieval

open Query

/-- A word stands in a document. -/
def hasWord (catalog : Catalog) (id : DocId) (word : String) : Bool :=
  (catalog.posting? word).any (·.contains id)

/-- A word stands in a document where places are recorded for it. -/
theorem hasWord_eq_isSome (catalog : Catalog) (id : DocId) (word : String) :
    hasWord catalog id word = (catalog.places word id).isSome := by
  unfold hasWord Catalog.places
  cases catalog.posting? word <;> rfl

/-- The words of a query are true of a document by what stands in it, and its conditions by what is
known of it. -/
def qualifies (catalog : Catalog) (query : Query) (id : DocId) : Bool :=
  (query.words.all fun words => words.evaluate (hasWord catalog id)) &&
    query.having.all fun conditions =>
      (catalog.documents.get? id).any fun document =>
        conditions.evaluate fun condition => condition.holds document.metadata

section Choice

variable {α : Type} (holds : α → Bool)

mutual

/-- Whether a formula chooses a document when `holds` decides its leaves. An empty group, which no
query has, chooses none. -/
def chooses : Formula α → Bool
  | .leaf leaf => holds leaf
  | .negation inner => !chooses inner
  | .conjunction parts => !parts.isEmpty && choosesAll parts
  | .disjunction parts => choosesAny parts

def choosesAll : List (Formula α) → Bool
  | [] => true
  | part :: rest => chooses part && choosesAll rest

def choosesAny : List (Formula α) → Bool
  | [] => false
  | part :: rest => chooses part || choosesAny rest

end

mutual

/-- A formula without empty groups chooses the documents of which it is true. -/
theorem chooses_eq : ∀ formula : Formula α, formula.IsFilled →
    chooses holds formula = formula.evaluate holds
  | .leaf leaf, _ => rfl
  | .negation inner, filled => by
      rw [chooses, Formula.evaluate, chooses_eq inner filled]
  | .conjunction [], filled => absurd rfl filled.1
  | .conjunction (first :: rest), filled => by
      rw [chooses, Formula.evaluate, choosesAll_eq (first :: rest) filled.2]
      rfl
  | .disjunction parts, filled => by
      rw [chooses, Formula.evaluate, choosesAny_eq parts filled.2]

theorem choosesAll_eq : ∀ parts : List (Formula α), Formula.AreFilled parts →
    choosesAll holds parts = Formula.evaluateAll holds parts
  | [], _ => rfl
  | part :: rest, filled => by
      rw [choosesAll, Formula.evaluateAll, chooses_eq part filled.1, choosesAll_eq rest filled.2]

theorem choosesAny_eq : ∀ parts : List (Formula α), Formula.AreFilled parts →
    choosesAny holds parts = Formula.evaluateAny holds parts
  | [], _ => rfl
  | part :: rest, filled => by
      rw [choosesAny, Formula.evaluateAny, chooses_eq part filled.1, choosesAny_eq rest filled.2]

end

end Choice

section Words

variable {catalog : Catalog} {greatest : Nat}

mutual

/-- As long as the bits can be counted, every formula selects a set. -/
theorem isSome_select (counted : greatest + 1 < UInt64.size) :
    ∀ formula : Formula String, (select catalog greatest formula).isSome = true
  | .leaf word => by
      rw [select]
      split
      next => rw [IdSet.ofIds?_eq_some counted, Option.isSome_some]
      next => rfl
  | .negation inner => by
      rw [select, Option.isSome_map]
      exact isSome_select counted inner
  | .conjunction [] => by rw [select, Option.isSome_some]
  | .conjunction (first :: rest) => by
      obtain ⟨set, found⟩ := Option.isSome_iff_exists.mp (isSome_select counted first)
      rw [select, found]
      exact isSome_selectAll counted rest set
  | .disjunction [] => by rw [select, Option.isSome_some]
  | .disjunction (first :: rest) => by
      obtain ⟨set, found⟩ := Option.isSome_iff_exists.mp (isSome_select counted first)
      rw [select, found]
      exact isSome_selectAny counted rest set

theorem isSome_selectAll (counted : greatest + 1 < UInt64.size) :
    ∀ (parts : List (Formula String)) (set : IdSet),
    (selectAll catalog greatest set parts).isSome = true
  | [], set => by rw [selectAll, Option.isSome_some]
  | part :: rest, set => by
      obtain ⟨other, found⟩ := Option.isSome_iff_exists.mp (isSome_select counted part)
      rw [selectAll, found]
      exact isSome_selectAll counted rest (set.inter other)

theorem isSome_selectAny (counted : greatest + 1 < UInt64.size) :
    ∀ (parts : List (Formula String)) (set : IdSet),
    (selectAny catalog greatest set parts).isSome = true
  | [], set => by rw [selectAny, Option.isSome_some]
  | part :: rest, set => by
      obtain ⟨other, found⟩ := Option.isSome_iff_exists.mp (isSome_select counted part)
      rw [selectAny, found]
      exact isSome_selectAny counted rest (set.union other)

end

variable (catalog greatest)

/-- The set that a formula selects where the bits can be counted. -/
def selected (formula : Formula String) : IdSet :=
  (select catalog greatest formula).getD (.empty greatest)

variable {greatest} (counted : greatest + 1 < UInt64.size)

include counted

/-- Where the bits can be counted, a formula selects its set. -/
theorem select_eq (formula : Formula String) :
    select catalog greatest formula = some (selected catalog greatest formula) := by
  obtain ⟨set, found⟩ := Option.isSome_iff_exists.mp (isSome_select counted formula)
  rw [selected, found, Option.getD_some]

/-- A word selects the documents in its posting. -/
theorem selected_leaf (word : String) : selected catalog greatest (.leaf word) =
    match catalog.posting? word with
    | some posting => .ofIds greatest (posting.documents.map UInt64.toNat)
    | none => .empty greatest := by
  rw [selected, select]
  cases catalog.posting? word with
  | none => rfl
  | some posting => simp only [IdSet.ofIds?_eq_some counted, Option.getD_some]

/-- A negation selects the complement. -/
theorem selected_negation (inner : Formula String) :
    selected catalog greatest (.negation inner) = (selected catalog greatest inner).complement := by
  rw [selected, select, select_eq catalog counted inner, Option.map_some, Option.getD_some]

theorem selectAll_eq (parts : List (Formula String)) (set : IdSet) :
    selectAll catalog greatest set parts =
      some (parts.foldl (fun set part => set.inter (selected catalog greatest part)) set) := by
  induction parts generalizing set with
  | nil => rw [selectAll, List.foldl_nil]
  | cons part rest ih =>
      rw [selectAll, select_eq catalog counted part, List.foldl_cons]
      exact ih _

theorem selectAny_eq (parts : List (Formula String)) (set : IdSet) :
    selectAny catalog greatest set parts =
      some (parts.foldl (fun set part => set.union (selected catalog greatest part)) set) := by
  induction parts generalizing set with
  | nil => rw [selectAny, List.foldl_nil]
  | cons part rest ih =>
      rw [selectAny, select_eq catalog counted part, List.foldl_cons]
      exact ih _

/-- A conjunction selects the intersection of what its parts select. -/
theorem selected_conjunction (first : Formula String) (rest : List (Formula String)) :
    selected catalog greatest (.conjunction (first :: rest)) =
      rest.foldl (fun set part => set.inter (selected catalog greatest part))
        (selected catalog greatest first) := by
  apply Option.some.inj
  rw [← select_eq catalog counted, select, select_eq catalog counted first]
  exact selectAll_eq catalog counted rest _

/-- A disjunction selects the union of what its parts select. -/
theorem selected_disjunction (first : Formula String) (rest : List (Formula String)) :
    selected catalog greatest (.disjunction (first :: rest)) =
      rest.foldl (fun set part => set.union (selected catalog greatest part))
        (selected catalog greatest first) := by
  apply Option.some.inj
  rw [← select_eq catalog counted, select, select_eq catalog counted first]
  exact selectAny_eq catalog counted rest _

omit counted in
/-- Joining sets keeps the greatest number of the first. -/
theorem greatest_foldl (join : IdSet → IdSet → IdSet)
    (keeps : ∀ first second, (join first second).greatest = first.greatest)
    (parts : List (Formula String)) (set : IdSet) :
    (parts.foldl (fun set part => join set (selected catalog greatest part)) set).greatest =
      set.greatest := by
  induction parts generalizing set with
  | nil => rfl
  | cons part rest ih => rw [List.foldl_cons, ih, keeps]

/-- What is selected goes up to the greatest number. -/
theorem greatest_selected : ∀ formula : Formula String,
    (selected catalog greatest formula).greatest = greatest
  | .leaf word => by
      rw [selected_leaf catalog counted]
      split
      next => exact IdSet.greatest_ofIds greatest _
      next => rfl
  | .negation inner => by
      rw [selected_negation catalog counted]
      exact greatest_selected inner
  | .conjunction [] => by rw [selected, select]; rfl
  | .conjunction (first :: rest) => by
      rw [selected_conjunction catalog counted]
      exact (greatest_foldl catalog IdSet.inter (fun _ _ => rfl) rest _).trans (greatest_selected first)
  | .disjunction [] => by rw [selected, select]; rfl
  | .disjunction (first :: rest) => by
      rw [selected_disjunction catalog counted]
      exact (greatest_foldl catalog IdSet.union (fun _ _ => rfl) rest _).trans (greatest_selected first)

/-- The bits of what is selected can be counted. -/
theorem counted_selected (formula : Formula String) :
    (selected catalog greatest formula).greatest + 1 < UInt64.size := by
  rwa [greatest_selected catalog counted]

/-- A number is in an intersection where it is in all of the sets. -/
theorem contains_foldl_inter (parts : List (Formula String)) {set : IdSet}
    (same : set.greatest = greatest) (id : Nat) :
    (parts.foldl (fun set part => set.inter (selected catalog greatest part)) set).contains id =
      (set.contains id && parts.all fun part => (selected catalog greatest part).contains id) := by
  induction parts generalizing set with
  | nil => rw [List.foldl_nil, List.all_nil, Bool.and_true]
  | cons part rest ih =>
      have alike := same.trans (greatest_selected catalog counted part).symm
      have kept : (set.inter (selected catalog greatest part)).greatest = greatest := same
      rw [List.foldl_cons, ih kept, IdSet.contains_inter alike, List.all_cons, Bool.and_assoc]

/-- A number is in a union where it is in one of the sets. -/
theorem contains_foldl_union (parts : List (Formula String)) {set : IdSet}
    (same : set.greatest = greatest) (id : Nat) :
    (parts.foldl (fun set part => set.union (selected catalog greatest part)) set).contains id =
      (set.contains id || parts.any fun part => (selected catalog greatest part).contains id) := by
  induction parts generalizing set with
  | nil => rw [List.foldl_nil, List.any_nil, Bool.or_false]
  | cons part rest ih =>
      have alike := same.trans (greatest_selected catalog counted part).symm
      have kept : (set.union (selected catalog greatest part)).greatest = greatest := same
      rw [List.foldl_cons, ih kept, IdSet.contains_union alike, List.any_cons, Bool.or_assoc]

omit counted

variable {id : DocId}

/-- A word selects a document in range where it stands in it. -/
theorem contains_selected_leaf (counted : greatest + 1 < UInt64.size)
    (within : IdSet.inRange greatest id.toNat = true) (word : String) :
    (selected catalog greatest (.leaf word)).contains id.toNat = hasWord catalog id word := by
  rw [selected_leaf catalog counted]
  unfold hasWord
  cases catalog.posting? word with
  | none => exact IdSet.contains_empty greatest id.toNat
  | some posting =>
      have member : id.toNat ∈ posting.documents.map UInt64.toNat ↔ id ∈ posting.documents := by
        rw [List.mem_map]
        constructor
        · rintro ⟨other, held, same⟩
          exact UInt64.toNat_inj.mp same ▸ held
        · exact fun held => ⟨id, held, rfl⟩
      show (IdSet.ofIds greatest (posting.documents.map UInt64.toNat)).contains id.toNat =
        posting.contains id
      rw [IdSet.contains_ofIds counted, within, Bool.true_and, Bool.eq_iff_iff,
        decide_eq_true_iff, member]
      exact Posting.mem_documents

mutual

/-- A document in range is selected when the words that stand in it make the formula choose it. -/
theorem contains_selected (counted : greatest + 1 < UInt64.size)
    (within : IdSet.inRange greatest id.toNat = true) : ∀ formula : Formula String,
    (selected catalog greatest formula).contains id.toNat = chooses (hasWord catalog id) formula
  | .leaf word => contains_selected_leaf catalog counted within word
  | .negation inner => by
      rw [selected_negation catalog counted,
        IdSet.contains_complement (counted_selected catalog counted inner),
        greatest_selected catalog counted, within, Bool.true_and,
        contains_selected counted within inner, chooses]
  | .conjunction [] => by
      rw [selected, select]
      exact IdSet.contains_empty greatest id.toNat
  | .conjunction (first :: rest) => by
      rw [selected_conjunction catalog counted,
        contains_foldl_inter catalog counted rest (greatest_selected catalog counted first),
        contains_selected counted within first, all_selected counted within rest, chooses, choosesAll]
      rfl
  | .disjunction [] => by
      rw [selected, select]
      exact IdSet.contains_empty greatest id.toNat
  | .disjunction (first :: rest) => by
      rw [selected_disjunction catalog counted,
        contains_foldl_union catalog counted rest (greatest_selected catalog counted first),
        contains_selected counted within first, any_selected counted within rest, chooses, choosesAny]

theorem all_selected (counted : greatest + 1 < UInt64.size)
    (within : IdSet.inRange greatest id.toNat = true) : ∀ parts : List (Formula String),
    (parts.all fun part => (selected catalog greatest part).contains id.toNat) =
      choosesAll (hasWord catalog id) parts
  | [] => rfl
  | part :: rest => by
      rw [List.all_cons, contains_selected counted within part, all_selected counted within rest,
        choosesAll]

theorem any_selected (counted : greatest + 1 < UInt64.size)
    (within : IdSet.inRange greatest id.toNat = true) : ∀ parts : List (Formula String),
    (parts.any fun part => (selected catalog greatest part).contains id.toNat) =
      choosesAny (hasWord catalog id) parts
  | [] => rfl
  | part :: rest => by
      rw [List.any_cons, contains_selected counted within part, any_selected counted within rest,
        choosesAny]

end

end Words

/-- The live documents are those of the catalog. -/
theorem mem_live {catalog : Catalog} {id : DocId} :
    id ∈ catalog.live.toList ↔ catalog.isLive id = true :=
  OrderedMap.contains_iff.symm

section Choose

variable {catalog : Catalog} (unwrapped : catalog.nextId ≠ 0)

include unwrapped

/-- Numbers can be counted up to the greatest one as long as the counter has not come back to 0. -/
theorem counted_greatestId : catalog.greatestId.toNat + 1 < UInt64.size := by
  have positive : catalog.nextId.toNat ≠ 0 := fun zero => unwrapped (UInt64.toNat_inj.mp zero)
  have least : (1 : UInt64) ≤ catalog.nextId := by
    rw [UInt64.le_iff_toNat_le, UInt64.toNat_one]
    exact Nat.one_le_iff_ne_zero.mpr positive
  have bound := catalog.nextId.toNat_lt
  have size : UInt64.size = 2 ^ 64 := rfl
  rw [Catalog.greatestId, UInt64.toNat_sub_of_le _ _ least, UInt64.toNat_one]
  omega

/-- The documents that the words of a query choose. -/
def chosen (catalog : Catalog) (words : Option (Formula String)) : OrderedSet DocId :=
  match words with
  | none => catalog.live
  | some formula =>
      catalog.live.filter fun id =>
        (selected catalog catalog.greatestId.toNat formula).contains id.toNat

/-- Words choose documents as long as the counter has not come back to 0. -/
theorem choose_eq (words : Option (Formula String)) :
    Stage.choose catalog words = some (chosen catalog words) := by
  cases words with
  | none => rfl
  | some formula =>
      have counted := counted_greatestId unwrapped
      have found : (catalog.live.toList.any fun id =>
          (selected catalog catalog.greatestId.toNat formula).lacksWord id.toNat) = false := by
        rw [List.any_eq_false]
        intro id _
        rw [IdSet.lacksWord_eq_false (counted_selected catalog counted formula)]
        exact Bool.false_ne_true
      unfold Stage.choose
      simp only [select_eq catalog counted]
      show Stage.keepSelected _ _ = _
      rw [Stage.keepSelected, found, if_neg Bool.false_ne_true]
      rfl

/-- The words of a query choose live documents by the words that stand in them. -/
theorem toList_chosen {words : Option (Formula String)}
    (numbered : ∀ id, catalog.isLive id = true → 1 ≤ id ∧ id ≤ catalog.greatestId) :
    (chosen catalog words).toList =
      catalog.live.toList.filter fun id =>
        words.all fun formula => chooses (hasWord catalog id) formula := by
  cases words with
  | none => exact (List.filter_eq_self.mpr fun _ _ => rfl).symm
  | some formula =>
      apply List.filter_congr
      intro id member
      obtain ⟨positive, bounded⟩ := numbered id (mem_live.mp member)
      rw [UInt64.le_iff_toNat_le] at positive bounded
      have within : IdSet.inRange catalog.greatestId.toNat id.toNat = true := by
        have nonzero : id.toNat ≠ 0 := Nat.ne_of_gt positive
        simp [IdSet.inRange, nonzero, bounded]
      exact contains_selected catalog (counted_greatestId unwrapped) within formula

end Choose

/-- The words of a query are true of the documents that they choose. -/
theorem chooses_words {words : Option (Formula String)}
    (grouped : ∀ formula, words = some formula → formula.IsGrouped) (holds : String → Bool) :
    (words.all fun formula => chooses holds formula) =
      words.all fun formula => formula.evaluate holds := by
  cases words with
  | none => rfl
  | some formula => exact chooses_eq holds formula (formula.isFilled_of_isGrouped (grouped formula rfl))

/-- What the score stage makes of a document. -/
def entryOf (settings : ScoringSettings) (catalog : Catalog) (query : Query) (id : DocId) :
    Ranked :=
  ⟨roundScore settings.granularity.toFloat
    ((score settings catalog (queryTerms query) id).getD 0.0), id⟩

/-- The ranking of live documents holds the entry of each of them. -/
theorem rank_eq {settings : ScoringSettings} {catalog : Catalog} {query : Query}
    {ids : List DocId} (live : ∀ id ∈ ids, catalog.isLive id = true) :
    rank settings catalog (queryTerms query) ids =
      OrderedSet.ofList (ids.map (entryOf settings catalog query)) := by
  unfold rank Ranking.ofPairs
  simp only
  rw [List.map_filterMap, ← List.filterMap_eq_map']
  congr 1
  apply List.filterMap_congr
  intro id member
  obtain ⟨document, held⟩ := Option.isSome_iff_exists.mp (live id member)
  have known : catalog.document? id = some document := held
  unfold entryOf score scoreWith
  rw [known]
  rfl

section Stages

variable {settings : ScoringSettings} {catalog : Catalog}

/-- The words of a query choose documents, whatever was selected before. -/
theorem run_terms_of_some {words : Option (Formula String)} {ids : OrderedSet DocId}
    (found : Stage.choose catalog words = some ids) (selection : Selection) :
    (Stage.terms words).run settings catalog selection = .ok (.chosen ids) := by
  show (do return Selection.chosen (← require (Stage.choose catalog words))) = _
  rw [found]
  rfl

/-- The stage of words chooses documents as long as the counter has not come back to 0. -/
theorem run_terms (unwrapped : catalog.nextId ≠ 0) (words : Option (Formula String))
    (selection : Selection) : (Stage.terms words).run settings catalog selection =
      .ok (.chosen (chosen catalog words)) :=
  run_terms_of_some (choose_eq unwrapped words) selection

/-- Where no documents can be chosen the program ends. -/
theorem run_terms_of_none {words : Option (Formula String)} (lost : Stage.choose catalog words = none)
    (selection : Selection) :
    (Stage.terms words).run settings catalog selection = .error .crash := by
  show (do return Selection.chosen (← require (Stage.choose catalog words))) = _
  rw [lost]
  rfl

/-- The stage of conditions keeps the documents that meet them. -/
theorem run_having (conditions : Option (Formula Condition)) (ids : OrderedSet DocId) :
    (Stage.having conditions).run settings catalog (.chosen ids) =
      .ok (.chosen (ids.filter fun id =>
        conditions.all fun conditions => Stage.meets catalog conditions id)) := by
  cases conditions with
  | none =>
      have same : (ids.filter fun _ => true) = ids :=
        OrderedSet.ext (List.filter_eq_self.mpr fun _ _ => rfl)
      exact congrArg (fun ids => Except.ok (Selection.chosen ids)) same.symm
  | some conditions => rfl

/-- A ranking up to a limit, if there is one. -/
def cut (limit : Option Nat) (ranking : Ranking) : Ranking :=
  match limit with
  | none => ranking
  | some count => ranking.truncate count

/-- The stage of the limit cuts a ranking. -/
theorem run_limit (limit : Option Nat) (ranking : Ranking) :
    (Stage.limit limit).run settings catalog (.ranked ranking) =
      .ok (.ranked (cut limit ranking)) := by
  cases limit <;> rfl

/-- A stage that succeeds hands its selection on to the others. -/
theorem runStages_of_ok {stage : Stage} {rest : List Stage} {selection next : Selection}
    (taken : stage.run settings catalog selection = .ok next) :
    runStages settings catalog (stage :: rest) selection =
      runStages settings catalog rest next := by
  rw [runStages, taken]
  rfl

/-- The stages of a query never refuse what they are given. -/
theorem execute_eq {query : Query} (unwrapped : catalog.nextId ≠ 0)
    (numbered : ∀ id, catalog.isLive id = true → 1 ≤ id ∧ id ≤ catalog.greatestId)
    (grouped : query.IsGrouped) :
    execute settings catalog query =
      .ok (cut query.limit (.ofList ((catalog.live.toList.filter (qualifies catalog query)).map
        (entryOf settings catalog query)))) := by
  have kept : ((chosen catalog query.words).filter fun id =>
      query.having.all fun conditions => Stage.meets catalog conditions id).toList =
      catalog.live.toList.filter (qualifies catalog query) := by
    show List.filter _ (chosen catalog query.words).toList = _
    rw [toList_chosen unwrapped numbered, List.filter_filter]
    apply List.filter_congr
    intro id _
    rw [chooses_words grouped.1]
    exact Bool.and_comm _ _
  have live : ∀ id ∈ catalog.live.toList.filter (qualifies catalog query),
      catalog.isLive id = true := fun id member => mem_live.mp (List.mem_of_mem_filter member)
  have scored : (Stage.score (queryTerms query)).run settings catalog
      (.chosen ((chosen catalog query.words).filter fun id =>
        query.having.all fun conditions => Stage.meets catalog conditions id)) =
      .ok (.ranked (.ofList ((catalog.live.toList.filter (qualifies catalog query)).map
        (entryOf settings catalog query)))) := by
    show Except.ok (Selection.ranked (rank settings catalog (queryTerms query) _)) = _
    rw [kept, rank_eq live]
  unfold execute answer stagesOf
  rw [runStages_of_ok (run_terms unwrapped query.words _), runStages_of_ok (run_having query.having _),
    runStages_of_ok scored, runStages_of_ok (run_limit query.limit _)]
  rfl

end Stages

/-- The answer to a query that was read, as long as the counter has not come back to 0. Without a limit
it holds each live document once of which the words and the conditions are true, with its score and
in the order of the ranks; a limit keeps the first of these. -/
theorem execute_of_parse {settings : ScoringSettings} {catalog : Catalog} {text : String}
    {sizeLimit depthLimit : Nat} {query : Query}
    (parsed : Query.parse text sizeLimit depthLimit = .parsed query)
    (unwrapped : catalog.nextId ≠ 0)
    (numbered : ∀ id, catalog.isLive id = true → 1 ≤ id ∧ id ≤ catalog.greatestId) :
    ∃ whole, execute settings catalog { query with limit := none } = .ok whole ∧
      whole.toList.Perm ((catalog.live.toList.filter (qualifies catalog query)).map
        (entryOf settings catalog query)) ∧
      (whole.toList.map Ranked.id).Nodup ∧ whole.toList.Pairwise precedes ∧
      ∃ ranking, execute settings catalog query = .ok ranking ∧
        ranking.toList = match query.limit with
          | none => whole.toList
          | some count => whole.toList.take count := by
  have grouped := isGrouped_of_parse parsed
  have distinct : (catalog.live.toList.filter (qualifies catalog query)).Nodup :=
    catalog.live.nodup_toList.filter _
  have ids : ((catalog.live.toList.filter (qualifies catalog query)).map
      (entryOf settings catalog query)).map Ranked.id =
      catalog.live.toList.filter (qualifies catalog query) := by
    rw [List.map_map]
    exact List.map_id _
  have entries : ((catalog.live.toList.filter (qualifies catalog query)).map
      (entryOf settings catalog query)).Nodup := by
    rw [← ids] at distinct
    exact distinct.of_map Ranked.id
  -- Entries of two documents differ in their numbers, so the ordered set drops none of them.
  have perm := OrderedSet.perm_ofList entries
  have unlimited : Query.IsGrouped { query with limit := none } := grouped
  refine ⟨_, execute_eq unwrapped numbered unlimited, perm, ?_, ?_, _,
    execute_eq unwrapped numbered grouped, ?_⟩
  · apply (perm.map Ranked.id).nodup_iff.mpr
    rw [ids]
    exact distinct
  · exact (OrderedSet.ascending _).imp compare_eq_lt.mp
  · cases query.limit <;> rfl

/-- A catalog of one file, asked for the word that stands in it. -/
theorem execute_of_parse_word :
    let catalog := ((Catalog.empty ⟨"/"⟩ .empty).register note).2
    let query : Query := ⟨some (.leaf "hi"), none, some 1⟩
    Query.parse "'hi' LIMIT 1" 0 0 = .parsed query ∧ catalog.nextId ≠ 0 ∧
      (∀ id, catalog.isLive id = true → 1 ≤ id ∧ id ≤ catalog.greatestId) ∧
      ∃ ranking, execute Settings.standard.scoring catalog query = .ok ranking ∧
        ranking.toList.map Ranked.id = [1] := by
  intro catalog query
  have parsed : Query.parse "'hi' LIMIT 1" 0 0 = .parsed query := by decide +kernel
  have unwrapped : catalog.nextId ≠ 0 := by decide +kernel
  have numbered : ∀ id, catalog.isLive id = true → 1 ≤ id ∧ id ≤ catalog.greatestId := by
    intro id live
    have only : catalog.documents.keys = [1] := by decide +kernel
    have member := OrderedMap.contains_iff.mp live
    rw [only, List.mem_singleton] at member
    rw [member]
    decide +kernel
  obtain ⟨whole, -, perm, -, -, ranking, executed, cut⟩ :=
    @execute_of_parse Settings.standard.scoring catalog _ _ _ _ parsed unwrapped numbered
  have answer : (catalog.live.toList.filter (qualifies catalog query)) = [1] := by decide +kernel
  rw [answer] at perm
  refine ⟨parsed, unwrapped, numbered, ranking, executed, ?_⟩
  rw [cut, List.perm_singleton.mp perm]
  rfl

/-- When the last number of all is given to a file, the counter comes back to 0 and a set up to that
number has no words. A query for a word of the file ends the program there. -/
theorem crash_of_wrapped :
    let full : Catalog := { Catalog.empty ⟨"/"⟩ .empty with nextId := 0xffffffffffffffff }
    let catalog := (full.register note).2
    let query : Query := ⟨some (.leaf "hi"), none, none⟩
    Query.parse "'hi'" 0 0 = .parsed query ∧
      (∀ id, catalog.isLive id = true → 1 ≤ id ∧ id ≤ catalog.greatestId) ∧
      qualifies catalog query 0xffffffffffffffff = true ∧
      execute Settings.standard.scoring catalog query = .error .crash := by
  intro full catalog query
  have numbered : ∀ id, catalog.isLive id = true → 1 ≤ id ∧ id ≤ catalog.greatestId := by
    intro id live
    have only : catalog.documents.keys = [0xffffffffffffffff] := by decide +kernel
    have member := OrderedMap.contains_iff.mp live
    rw [only, List.mem_singleton] at member
    rw [member]
    decide +kernel
  have lost : Stage.choose catalog (some (.leaf "hi")) = none := by decide +kernel
  refine ⟨by decide +kernel, numbered, by decide +kernel, ?_⟩
  unfold execute answer stagesOf
  rw [runStages, run_terms_of_none lost]
  rfl

end Concordance.Retrieval
