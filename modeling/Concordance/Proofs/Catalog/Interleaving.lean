import Concordance.Proofs.Catalog.Operation

/-! A file is registered call by call, and others may tidy between these calls. -/
namespace Concordance

namespace Extract

/-- One more word adds its offset to those of its own text. -/
theorem offsetsOf_concat (words : List Word) (word : Word) (text : String) :
    offsetsOf (words ++ [word]) text =
      offsetsOf words text ++ if text = word.text then [UInt64.ofNat word.offset] else [] := by
  unfold offsetsOf
  rw [List.filter_append, List.map_append]
  congr 1
  by_cases same : text = word.text
  · simp [same]
  · simp [same, Ne.symm same]

end Extract

namespace Catalog

open Extract

/-- Recording one more offset comes after recording the others. -/
theorem extend_concat (start : Option Offsets) (offsets : List UInt64) (offset : UInt64) :
    extend start (offsets ++ [offset]) =
      some (((extend start offsets).getD .empty).insert offset) := by
  cases offsets with
  | nil => rfl
  | cons first rest =>
      show some ((rest ++ [offset]).foldl OrderedSet.insert _) = _
      rw [List.foldl_append]
      rfl

/-- One more word adds a place to those of its own text. -/
theorem placesOf_concat (words : List Word) (word : Word) (text : String) :
    placesOf (words ++ [word]) text =
      if text = word.text then
        some (((placesOf words text).getD .empty).insert (UInt64.ofNat word.offset))
      else placesOf words text := by
  rw [← extend_none, ← extend_none, offsetsOf_concat]
  split
  next => rw [extend_concat]
  next => rw [List.append_nil]

/-- What may come between the first and the last call of a registration: one word of the file is
added, or somebody tidies. -/
inductive Move where
  | place (word : Word)
  | tidy (text : String)
  | tidyAll

namespace Move

def apply (id : DocId) (catalog : Catalog) : Move → Catalog
  | place word => catalog.addPlace word.text id (UInt64.ofNat word.offset)
  | tidy text => (catalog.tidy text).2
  | tidyAll => catalog.tidyAll.2

def word? : Move → Option Word
  | place word => some word
  | tidy _ | tidyAll => none

/-- A word is tidied, perhaps with all others. -/
def sweeps (text : String) : Move → Bool
  | place _ => false
  | tidy other => text == other
  | tidyAll => true

/-- The words that have been added since one of them was tidied. -/
def keep (text : String) (kept : List Word) (move : Move) : List Word :=
  if move.sweeps text then [] else kept ++ move.word?.toList

variable (id : DocId) (catalog : Catalog)

/-- Neither adding a place nor tidying touches a document. -/
theorem sameDocuments_apply (move : Move) : SameDocuments (move.apply id catalog) catalog := by
  cases move with
  | place word => exact sameDocuments_addPlace ..
  | tidy text => exact sameDocuments_tidy ..
  | tidyAll => exact sameDocuments_tidyWords ..

/-- A move adds a place, or it takes those of a word away when their number has no document. -/
theorem places_apply (move : Move) (text : String) :
    (move.apply id catalog).places text id =
      match move.word? with
      | some word =>
          if text = word.text then
            some (((catalog.places text id).getD .empty).insert (UInt64.ofNat word.offset))
          else catalog.places text id
      | none =>
          if move.sweeps text = true ∧ catalog.isLive id = false then none
          else catalog.places text id := by
  cases move with
  | place word =>
      show (catalog.addPlace word.text id _).places text id = if text = word.text then _ else _
      rw [places_addPlace]
      by_cases same : text = word.text
      · rw [if_pos ⟨same, rfl⟩, if_pos same, same]
      · rw [if_neg fun both => same both.1, if_neg same]
  | tidy other =>
      show (catalog.tidy other).2.places text id = _
      rw [places_tidy]
      simp only [word?, sweeps, beq_iff_eq]
  | tidyAll =>
      show catalog.tidyAll.2.places text id = _
      rw [places_tidyAll]
      simp only [word?, sweeps, true_and]

/-- A move is a run of operations without notices. -/
theorem run_apply (move : Move) : Run catalog [] (move.apply id catalog) := by
  cases move with
  | place word => exact .single (.addPlace ..)
  | tidy text => exact .single (.tidy ..)
  | tidyAll => exact .single (.tidyAll _)

end Move

/-- Moves one after another, all for one number. -/
def moved (id : DocId) (catalog : Catalog) (moves : List Move) : Catalog :=
  moves.foldl (Move.apply id) catalog

/-- The words that have been added since one of them was last tidied. -/
def unswept (text : String) (moves : List Move) : List Word := moves.foldl (Move.keep text) []

/-- The calls that register a file, with those of others between them and after them. -/
def registering (catalog : Catalog) (item : Indexable) (during after : List Move) : Catalog :=
  let (id, catalog) := catalog.allocate
  moved id ((moved id catalog during).addDocument (item.document id)) after

/-- A file is registered by these calls where no others come between them. -/
theorem registering_of_alone (catalog : Catalog) (item : Indexable) :
    catalog.registering item (item.extraction.words.map .place) [] = (catalog.register item).2 := by
  show ((item.extraction.words.map Move.place).foldl (Move.apply catalog.nextId)
    catalog.allocate.2).addDocument _ = _
  rw [List.foldl_map]
  rfl

variable {id : DocId} {catalog first now : Catalog} {text : String} {moves : List Move}
  {notices : List Notice}

/-- Moves before others leave what the others start from. -/
theorem moved_append (id : DocId) (catalog : Catalog) (moves more : List Move) :
    moved id catalog (moves ++ more) = moved id (moved id catalog moves) more :=
  List.foldl_append

/-- No moves touch a document. -/
theorem sameDocuments_moved (id : DocId) (catalog : Catalog) (moves : List Move) :
    SameDocuments (moved id catalog moves) catalog := by
  induction moves generalizing catalog with
  | nil => exact .refl catalog
  | cons move rest ih => exact (ih _).trans (move.sameDocuments_apply id catalog)

/-- Moves are a run of operations without notices. -/
theorem run_moved (id : DocId) (catalog : Catalog) (moves : List Move) :
    Run catalog [] (moved id catalog moves) := by
  induction moves generalizing catalog with
  | nil => exact .start
  | cons move rest ih => exact (move.run_apply id catalog).trans (ih _)

/-- Tidying leaves the places of a number that has a document. -/
theorem places_moved_of_live (live : catalog.isLive id = true)
    (tidying : ∀ move ∈ moves, move.word? = none) :
    (moved id catalog moves).places text id = catalog.places text id := by
  induction moves generalizing catalog with
  | nil => rfl
  | cons move rest ih =>
      have still := (move.sameDocuments_apply id catalog).isLive_eq id
      have same : (move.apply id catalog).places text id = catalog.places text id := by
        rw [move.places_apply, tidying move List.mem_cons_self]
        exact if_neg fun both => Bool.false_ne_true (both.2.symm.trans live)
      have later := ih (still.trans live) fun move member =>
        tidying move (List.mem_cons_of_mem _ member)
      exact later.trans same

/-- Without a document a number keeps the places that were added since the last tidying. -/
theorem places_moved (dead : catalog.isLive id = false) (bare : catalog.places text id = none) :
    (moved id catalog moves).places text id = placesOf (unswept text moves) text := by
  have all : ∀ (moves : List Move) (catalog : Catalog) (kept : List Word),
      catalog.isLive id = false → catalog.places text id = placesOf kept text →
      (moved id catalog moves).places text id =
        placesOf (moves.foldl (Move.keep text) kept) text := by
    intro moves
    induction moves with
    | nil => exact fun _ _ _ places => places
    | cons move rest ih =>
        intro catalog kept dead places
        refine ih _ _ (((move.sameDocuments_apply id catalog).isLive_eq id).trans dead) ?_
        rw [move.places_apply, Move.keep]
        cases move with
        | place word =>
            show (if text = word.text then _ else _) = placesOf (kept ++ [word]) text
            rw [placesOf_concat, places]
        | tidy other =>
            by_cases swept : (Move.tidy other).sweeps text = true
            · rw [if_pos swept]
              exact if_pos ⟨swept, dead⟩
            · rw [if_neg swept]
              show (if _ then none else _) = placesOf (kept ++ []) text
              rw [if_neg fun both => swept both.1, List.append_nil, places]
        | tidyAll =>
            show (if Move.tidyAll.sweeps text = true ∧ _ then none else _) = placesOf [] text
            exact if_pos ⟨rfl, dead⟩
  exact all moves catalog [] dead bare

/-- A word has a place at an offset. -/
def HasPlace (catalog : Catalog) (text : String) (id : DocId) (offset : UInt64) : Prop :=
  ∃ offsets, catalog.places text id = some offsets ∧ offsets.contains offset = true

/-- A place stays as long as its word is not tidied. -/
theorem hasPlace_moved {offset : UInt64} (placed : catalog.HasPlace text id offset)
    (quiet : ∀ move ∈ moves, move.sweeps text = false) :
    (moved id catalog moves).HasPlace text id offset := by
  induction moves generalizing catalog with
  | nil => exact placed
  | cons move rest ih =>
      refine ih ?_ fun move later => quiet move (List.mem_cons_of_mem _ later)
      obtain ⟨offsets, places, contained⟩ := placed
      unfold HasPlace
      rw [move.places_apply, quiet move List.mem_cons_self]
      split
      next word =>
        split
        next =>
          refine ⟨_, rfl, ?_⟩
          rw [places, OrderedSet.contains_insert]
          exact .inr contained
        next => exact ⟨offsets, places, contained⟩
      next =>
        rw [if_neg fun both => Bool.false_ne_true both.1]
        exact ⟨offsets, places, contained⟩

/-- A place that has been added is there. -/
theorem hasPlace_apply (id : DocId) (catalog : Catalog) (word : Word) :
    ((Move.place word).apply id catalog).HasPlace word.text id (UInt64.ofNat word.offset) := by
  refine ⟨_, ((Move.place word).places_apply id catalog word.text).trans (if_pos rfl), ?_⟩
  rw [OrderedSet.contains_insert]
  simp

/-- The vocabulary has every word with a place. -/
theorem KnowsWords.contains_of_hasPlace (known : catalog.KnowsWords) {offset : UInt64}
    (placed : catalog.HasPlace text id offset) :
    catalog.vocabulary.contains text.toList = true := by
  obtain ⟨offsets, places, -⟩ := placed
  rw [known.contains]
  unfold Catalog.places at places
  cases found : catalog.posting? text with
  | none =>
      rw [found] at places
      cases places
  | some posting => exact Option.isSome_of_eq_some found

/-- A file has its document once it has been registered. -/
theorem document?_registering (catalog : Catalog) (item : Indexable) (during after : List Move) :
    (catalog.registering item during after).document? catalog.nextId =
      some (item.document catalog.nextId) := by
  have same : (catalog.registering item during after).documents = _ :=
    (sameDocuments_moved catalog.nextId _ after).documents
  unfold document?
  rw [same]
  exact OrderedMap.get?_insert_self ..

/-- Tidying that comes after the document changes none of its places. -/
theorem places_registering (catalog : Catalog) (item : Indexable) (during : List Move)
    {after : List Move} (tidying : ∀ move ∈ after, move.word? = none) (text : String) :
    (catalog.registering item during after).places text catalog.nextId =
      (moved catalog.nextId catalog.allocate.2 during).places text catalog.nextId := by
  have filed := document?_registering catalog item during []
  exact places_moved_of_live (Option.isSome_of_eq_some filed) tidying

/-- A file that is registered while others tidy has its document. Each of its words is found at each
place that was added after the last tidying of the word before the document came, and where nothing
stood under the number before, at no other. -/
theorem places_of_registering (begun : IsFirst first) (run : Run first notices now)
    {item : Indexable} {during after : List Move}
    (words : during.filterMap Move.word? = item.extraction.words)
    (tidying : ∀ move ∈ after, move.word? = none) :
    let last := now.registering item during after
    last.document? now.nextId = some (item.document now.nextId) ∧
    (∀ before word rest, during = before ++ .place word :: rest →
      (∀ move ∈ rest, move.sweeps word.text = false) →
      word ∈ item.extraction.words ∧
        last.HasPlace word.text now.nextId (UInt64.ofNat word.offset) ∧
        last.vocabulary.contains word.text.toList = true) ∧
    (now.isLive now.nextId = false → (∀ text, now.places text now.nextId = none) →
      ∀ text, last.places text now.nextId = placesOf (unswept text during) text) := by
  intro last
  have kept := places_registering now item during tidying
  refine ⟨document?_registering .., ?_, ?_⟩
  · intro before word rest split quiet
    have added := hasPlace_apply now.nextId (moved now.nextId now.allocate.2 before) word
    have stays := hasPlace_moved added quiet
    have placed : last.HasPlace word.text now.nextId (UInt64.ofNat word.offset) := by
      unfold HasPlace
      rw [kept, split, moved_append]
      exact stays
    have whole : Run first _ last := (((run.step (.allocate now)).trans (run_moved ..)).step
      (.addDocument ..)).trans (run_moved ..)
    refine ⟨?_, placed, ?_⟩
    · rw [← words, split, List.filterMap_append]
      exact List.mem_append_right _ List.mem_cons_self
    · exact (knowsWords_of_run whole (knowsWords_of_isFirst begun)).contains_of_hasPlace placed
  · intro dead bare text
    rw [kept]
    exact places_moved dead (bare text)

theorem words_note : note.extraction.words = [⟨"hi", 0⟩, ⟨"hi", 3⟩] := by decide +kernel

/-- Both places of a word are kept when its file is registered while another word is tidied. -/
theorem places_of_registering_tidied :
    let first := Catalog.empty ⟨"/"⟩ .empty
    let during : List Move := [.place ⟨"hi", 0⟩, .tidy "ho", .place ⟨"hi", 3⟩]
    IsFirst first ∧ Run first [] first ∧
      during.filterMap Move.word? = note.extraction.words ∧
      (first.registering note during [.tidyAll]).document? 1 = some (note.document 1) ∧
      (first.registering note during [.tidyAll]).HasPlace "hi" 1 0 ∧
      (first.registering note during [.tidyAll]).places "hi" 1 = some (.ofList [0, 3]) := by
  intro first during
  have begun : IsFirst first := .inl ⟨_, _, rfl⟩
  have words : during.filterMap Move.word? = note.extraction.words := words_note.symm
  have tidying : ∀ move ∈ [Move.tidyAll], move.word? = none := by simp [Move.word?]
  obtain ⟨filed, placed, exact⟩ := places_of_registering begun .start words tidying
  refine ⟨begun, .start, words, filed, ?_, ?_⟩
  · refine (placed [] ⟨"hi", 0⟩ _ rfl ?_).2.1
    intro move member
    rcases List.mem_cons.mp member with rfl | member
    · decide
    · rw [List.mem_singleton.mp member]
      rfl
  · refine (exact rfl (fun _ => rfl) "hi").trans ?_
    decide

/-- A word that is tidied after its places were added and before the document came is lost, while
the document stays. -/
theorem lost_of_tidied :
    let first := Catalog.empty ⟨"/"⟩ .empty
    let during : List Move := [.place ⟨"hi", 0⟩, .place ⟨"hi", 3⟩, .tidy "hi"]
    let last := first.registering note during []
    IsFirst first ∧ during.filterMap Move.word? = note.extraction.words ∧
      last.isLive 1 = true ∧ ⟨"hi", 0⟩ ∈ note.extraction.words ∧ last.places "hi" 1 = none ∧
      last.vocabulary.contains "hi".toList = false := by
  intro first during last
  refine ⟨.inl ⟨_, _, rfl⟩, words_note.symm, ?_, ?_, ?_, ?_⟩
  · exact Option.isSome_of_eq_some (document?_registering first note during [])
  · rw [words_note]
    exact List.mem_cons_self
  · exact (places_registering first note during (List.forall_mem_nil _) "hi").trans
      (places_moved rfl rfl)
  · decide +kernel

end Catalog
end Concordance
