import Concordance.Proofs.Catalog.History
import Concordance.Proofs.Catalog.Interleaving
import Concordance.Proofs.Extract.Words

/-! A file is registered without recording a place twice. -/
namespace Concordance.Catalog

open Extract

variable {id : DocId} {catalog : Catalog} {text : String} {offset : UInt64}

/-- Every place that moves add for a number is new when it is added. -/
def AddsNew (id : DocId) (catalog : Catalog) : List Move → Prop
  | [] => True
  | move :: rest =>
      (∀ word, move.word? = some word →
        ¬catalog.HasPlace word.text id (UInt64.ofNat word.offset)) ∧
      AddsNew id (move.apply id catalog) rest

/-- A place is there after a move only if it was there before, or the move has added it. -/
theorem hasPlace_of_apply {move : Move} (placed : (move.apply id catalog).HasPlace text id offset) :
    catalog.HasPlace text id offset ∨ ∃ word, move.word? = some word ∧ word.text = text ∧
      UInt64.ofNat word.offset = offset := by
  obtain ⟨offsets, places, contained⟩ := placed
  rw [move.places_apply] at places
  cases added : move.word? with
  | some word =>
      rw [added] at places
      dsimp only at places
      split_ifs at places with same
      · cases places
        rw [OrderedSet.contains_insert] at contained
        rcases contained with here | before
        · exact .inr ⟨word, rfl, same.symm, (Std.LawfulEqOrd.compare_eq_iff_eq.mp here).symm⟩
        · cases kept : catalog.places text id with
          | none =>
              rw [kept] at before
              cases before
          | some others =>
              rw [kept] at before
              exact .inl ⟨others, kept, before⟩
      · exact .inl ⟨offsets, places, contained⟩
  | none =>
      rw [added] at places
      dsimp only at places
      split_ifs at places
      exact .inl ⟨offsets, places, contained⟩

/-- Words that stand at different offsets are all new where none of them was recorded before. -/
theorem addsNew_of_distinct {moves : List Move}
    (distinct : (moves.filterMap Move.word?).Pairwise fun first second =>
      UInt64.ofNat first.offset ≠ UInt64.ofNat second.offset)
    (unplaced : ∀ word ∈ moves.filterMap Move.word?,
      ¬catalog.HasPlace word.text id (UInt64.ofNat word.offset)) :
    AddsNew id catalog moves := by
  induction moves generalizing catalog with
  | nil => trivial
  | cons move rest ih =>
      cases added : move.word? with
      | none =>
          rw [List.filterMap_cons_none added] at distinct unplaced
          refine ⟨fun word some => (nomatch added.symm.trans some), ih distinct ?_⟩
          intro word member placed
          rcases hasPlace_of_apply placed with before | ⟨other, here, -⟩
          · exact unplaced word member before
          · cases added.symm.trans here
      | some first =>
          rw [List.filterMap_cons_some added] at distinct unplaced
          obtain ⟨apart, later⟩ := List.pairwise_cons.mp distinct
          obtain ⟨new, others⟩ := List.forall_mem_cons.mp unplaced
          refine ⟨fun word same => ?_, ih later ?_⟩
          · cases added.symm.trans same
            exact new
          · intro word member placed
            rcases hasPlace_of_apply placed with before | ⟨other, here, -, offset⟩
            · exact others word member before
            · cases added.symm.trans here
              exact apart word member offset

/-- The words of a content that offsets can count stand at different offsets. -/
theorem distinct_wordsOf {content : Bytes} (countable : content.length ≤ UInt64.size)
    (separators : Bytes) : (wordsOf separators content).Pairwise fun first second =>
      UInt64.ofNat first.offset ≠ UInt64.ofNat second.offset := by
  have counted {word : Word} (member : word ∈ wordsOf separators content) :
      (UInt64.ofNat word.offset).toNat = word.offset := by
    obtain ⟨-, inside, filled⟩ := extract_of_mem_wordsOf member
    exact UInt64.toNat_ofNat_of_lt' (by omega)
  refine (pairwise_wordsOf separators content).imp_of_mem ?_
  intro first second here there order same
  have offsets := congrArg UInt64.toNat same
  rw [counted here, counted there] at offsets
  omega

/-- Nothing is recorded under the next number of a faithful catalog. -/
theorem not_hasPlace_nextId {origins : Origins} (faithful : catalog.snapshot.Faithful origins) :
    ¬catalog.HasPlace text catalog.nextId offset := by
  rintro ⟨offsets, places, -⟩
  rw [places_nextId faithful] at places
  cases places

/-- The words of a content are those of its pieces between newlines and separators, without the
blanks at the ends of each, in the order in which they stand there and each with the place of its
first byte. A file is registered under a new number without recording one of them twice, also while
others tidy. -/
theorem words_of_content (separators content : Bytes) :
    (∀ reader : LineReader, reader.content = content → ∃ lines,
      (∀ other, reader.reset.Gives other ↔ other = lines) ∧
      lines.flatMap (splitLine separators) = wordsOf separators content) ∧
    wordsOf separators content = wordsFrom 0 (Text.pieces (partsWords separators) content) ∧
    (∀ word, word ∈ wordsOf separators content ↔
      ∃ start piece, Text.IsPiece (partsWords separators) content start piece ∧
        IsWordOf start piece word) ∧
    (∀ word ∈ wordsOf separators content,
      content.extract word.offset (word.offset + (Utf8.bytes word.text).length) =
        Utf8.bytes word.text ∧
      word.offset + (Utf8.bytes word.text).length ≤ content.length ∧
      0 < (Utf8.bytes word.text).length) ∧
    (wordsOf separators content).Pairwise (fun first second =>
      first.offset + (Utf8.bytes first.text).length < second.offset) ∧
    (content.length ≤ UInt64.size →
      ∀ moves : List Move, moves.filterMap Move.word? = wordsOf separators content →
      (∀ (catalog : Catalog) (id : DocId),
        (∀ word ∈ wordsOf separators content,
          ¬catalog.HasPlace word.text id (UInt64.ofNat word.offset)) →
        AddsNew id catalog moves) ∧
      ∀ (directory : Path) (usage : UsageLog) (disk : Disk) (last : History),
        IsReady disk directory → disk.holds (snapshotPath directory) = false →
        Relation.ReflTransGen History.Step (History.start directory usage disk) last →
        ∀ done : List Indexable, last.catalog.nextId.toNat + done.length < UInt64.size →
          let now := (last.catalog.registerAll done).2
          AddsNew now.allocate.1 now.allocate.2 moves) := by
  refine ⟨?_, wordsOf_eq separators content, fun word => mem_wordsOf,
    fun word => extract_of_mem_wordsOf, pairwise_wordsOf separators content, ?_⟩
  · rintro reader rfl
    exact ⟨linesOf reader.content, reader.gives_reset_iff, rfl⟩
  · intro countable moves words
    have distinct := words ▸ distinct_wordsOf countable separators
    refine ⟨fun catalog id unplaced => addsNew_of_distinct distinct (words ▸ unplaced), ?_⟩
    intro directory usage disk last ready unwritten run done room now
    have sound := History.sound_of_run run (History.sound_start ready unwritten)
    have faithful := faithful_registerAll sound.faithful done room
    exact addsNew_of_distinct distinct fun word _ => not_hasPlace_nextId faithful

/-- A word that stands twice in a file is recorded at both places. -/
theorem words_of_content_twice :
    let content : Bytes := [0x68, 0x69, 0x20, 0x68, 0x69]
    let moves : List Move := [.place ⟨"hi", 0⟩, .place ⟨"hi", 3⟩]
    let first := Catalog.empty ⟨"/"⟩ .empty
    content.length ≤ UInt64.size ∧ IsReady noteDisk ⟨"/"⟩ ∧
      noteDisk.holds (snapshotPath ⟨"/"⟩) = false ∧
      moves.filterMap Move.word? = wordsOf proseSeparators content ∧
      content.extract 3 5 = Utf8.bytes "hi" ∧ AddsNew 1 first.allocate.2 moves := by
  intro content moves first
  obtain ⟨-, cut, -, slices, -, registered⟩ := words_of_content proseSeparators content
  have words : moves.filterMap Move.word? = wordsOf proseSeparators content := by
    rw [cut]
    decide +kernel
  have second : (⟨"hi", 3⟩ : Word) ∈ wordsOf proseSeparators content := by
    rw [← words]
    decide
  have countable : content.length ≤ UInt64.size := by decide
  exact ⟨countable, History.isReady_noteDisk, History.holds_noteDisk, words,
    (slices ⟨"hi", 3⟩ second).1, (registered countable moves words).2 ⟨"/"⟩ .empty noteDisk _
      History.isReady_noteDisk History.holds_noteDisk .refl [] (by decide)⟩

end Concordance.Catalog
