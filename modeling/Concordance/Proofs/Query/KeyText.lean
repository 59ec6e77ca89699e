import Concordance.Proofs.Query.Writing
import Concordance.Proofs.Text.Split
import Mathlib.Data.List.Chain

/-! When the text of a key is cut into its segments. -/
namespace Concordance

namespace Key

/-- A key is put together again from its segments. -/
theorem ofSegments_segments (key : Key) : ofSegments key.segments = .ok key := by
  obtain ⟨name, dotted⟩ := key
  simp only [ofSegments, segments, join_cutName, String.ofList_toList, parse, ofName?, dotted,
    dite_true]

/-- No segment of a key is empty. -/
theorem ne_empty_of_mem_segments {key : Key} {segment : String} (member : segment ∈ key.segments) :
    segment.toList ≠ [] := by
  obtain ⟨piece, inside, rfl⟩ := List.mem_map.1 member
  have filled := List.all_eq_true.1 key.dotted piece inside
  simpa using filled

theorem exists_cons_of_segments (key : Key) : ∃ first later, key.segments = first :: later := by
  obtain ⟨piece, more, cons⟩ :=
    List.exists_cons_of_ne_nil (Text.pieces_ne_nil (· == '.') key.name.toList)
  exact ⟨_, _, by rw [segments, cutName, cons, List.map_cons]⟩

end Key

namespace Query

/-- A segment that a dot may stand before is quoted, is made of digits, or begins with an ASCII
character. -/
def IsDotted (segment : String) : Prop :=
  isBareWord segment.toList = true → ∀ c ∈ segment.toList.head?, c.toNat < 0x80

instance (segment : String) : Decidable (IsDotted segment) :=
  decidable_of_iff (isBareWord segment.toList = true →
      segment.toList.head?.all (fun c => decide (c.toNat < 0x80)) = true)
    (by simp [IsDotted, Option.all_eq_true])

/-- Digits that would run together with those of a segment before them. -/
def isIndex (segment : String) : Bool := segment.toList.all Char.isDigit

/-- A key whose segments stay apart when they are written with dots between them. -/
structure IsApart (key : Key) : Prop where
  dotted : ∀ segment ∈ key.segments.tail, IsDotted segment
  indexes : key.segments.tail.IsChain fun first second =>
    ¬(isIndex first = true ∧ isIndex second = true)

instance (key : Key) : Decidable (IsApart key) :=
  decidable_of_iff ((∀ segment ∈ key.segments.tail, IsDotted segment) ∧
      key.segments.tail.IsChain fun first second => ¬(isIndex first = true ∧ isIndex second = true))
    ⟨fun both => ⟨both.1, both.2⟩, fun apart => ⟨apart.1, apart.2⟩⟩

/-- The identifier that a segment is written as. -/
def identifierOf (segment : String) : Identifier :=
  if free : isBareWord segment.toList = true ∧ segment ∉ reserved then .bare segment free.2
  else .quoted (quoteWith backquote segment.toList)

def segmentPhrase (segment : String) : Segment :=
  if whole : isIndex segment = true then .index segment.toList whole
  else .named (identifierOf segment)

theorem name_identifierOf (segment : String) : (identifierOf segment).name = segment := by
  unfold identifierOf
  split
  · rfl
  · simp [Identifier.name, unquote_quoteWith (show backquote ≠ '\\' by decide)]

/-- The phrase of a segment names the segment. -/
theorem name_segmentPhrase (segment : String) : (segmentPhrase segment).name = segment := by
  unfold segmentPhrase
  split
  · simp [Segment.name]
  · exact name_identifierOf segment

theorem segmentText_false (segment : String) : segmentText false segment =
    if isIndex segment = true then segment else segmentText true segment := by
  unfold segmentText isIndex
  cases segment.toList.all Char.isDigit <;> simp

/-- The first segment is written bare where it can be, and quoted otherwise. -/
theorem segmentText_true (segment : String) : (segmentText true segment).toList =
    if isBareWord segment.toList = true ∧ segment ∉ reserved then segment.toList
    else quoteWith backquote segment.toList := by
  simp only [segmentText, Bool.not_true, Bool.false_and, Bool.false_or, Bool.and_eq_true,
    decide_eq_true_eq]
  split <;> simp

variable {previous : Option TokenKind} {rest : List Char} {symbols : List Symbol}

/-- What follows a segment of a key: a dot, or what may follow a key. -/
def IsSegmentEnd (rest : List Char) : Prop := ∀ c ∈ rest.head?, c = '.' ∨ c = ' ' ∨ c = ')' ∨ c = ','

theorem IsSegmentEnd.of_forall {keeps : Char → Prop} (ends : IsSegmentEnd rest)
    (each : keeps '.' ∧ keeps ' ' ∧ keeps ')' ∧ keeps ',') : ∀ c ∈ rest.head?, keeps c := by
  intro c member
  rcases ends c member with rfl | rfl | rfl | rfl
  · exact each.1
  · exact each.2.1
  · exact each.2.2.1
  · exact each.2.2.2

/-- A bare or quoted segment is cut off as one name. -/
theorem cuts_identifier (segment : String) (ends : IsSegmentEnd rest)
    (later : ∀ kind, kind.isOperand = true → Cuts (some kind) rest symbols) :
    Cuts previous ((segmentText true segment).toList ++ rest)
      ((identifierOf segment).symbol :: symbols) := by
  rw [segmentText_true]
  unfold identifierOf
  by_cases free : isBareWord segment.toList = true ∧ segment ∉ reserved
  · have cut : Cuts previous _ _ :=
      cuts_word free.1 (ends.of_forall (by decide)) (later .bareWord rfl)
    rw [if_pos free, dif_pos free]
    rwa [String.ofList_toList] at cut
  · rw [if_neg free, dif_neg free]
    exact cuts_quoted segment.toList (ends.of_forall (by decide)) (later .quotedIdentifier rfl)

/-- A later segment is cut off as one name, if no digits follow a point after its own. -/
theorem cuts_segment {segment : String} (filled : segment.toList ≠ []) (ends : IsSegmentEnd rest)
    (apart : isIndex segment = true → ∀ after, rest = '.' :: after →
      ∀ c ∈ after.head?, c.isDigit = false)
    (later : ∀ kind, kind.isOperand = true → Cuts (some kind) rest symbols) :
    Cuts previous ((segmentText false segment).toList ++ rest)
      ((segmentPhrase segment).symbol :: symbols) := by
  rw [segmentText_false]
  unfold segmentPhrase
  by_cases index : isIndex segment = true
  · have digits : ∀ c ∈ segment.toList, c.isDigit = true := by simpa [isIndex] using index
    have length := numberLength_digits digits (ends.of_forall (by decide)) (apart index)
    rw [if_pos index, dif_pos index]
    exact cuts_number (fun c member => digits c (List.mem_of_mem_head? member)) filled length
      (later .number rfl)
  · rw [if_neg index, dif_neg index]
    exact cuts_identifier segment ends later

/-- How the text of a later segment begins. -/
theorem head_segmentText {segment : String} (filled : segment.toList ≠ [])
    (dotted : IsDotted segment) :
    followsDot ((segmentText false segment).toList ++ rest) = true ∧
      (isIndex segment = false →
        ∀ c ∈ ((segmentText false segment).toList ++ rest).head?, c.isDigit = false) := by
  obtain ⟨c, more, cons⟩ := List.exists_cons_of_ne_nil filled
  rw [segmentText_false]
  by_cases index : isIndex segment = true
  · have digits : ∀ c ∈ segment.toList, c.isDigit = true := by simpa [isIndex] using index
    have digit := digits c (by simp [cons])
    simp [index, cons, followsDot, Char.isAlphanum, digit]
  · rw [if_neg index, segmentText_true]
    by_cases free : isBareWord segment.toList = true ∧ segment ∉ reserved
    · have bare := free.1
      have small := dotted bare c (by simp [cons])
      simp only [cons, isBareWord, Bool.and_eq_true] at bare
      have letter : c.isAlpha = true ∨ c = '_' := by
        have starts := bare.1
        simp only [isWordStart, Bool.or_eq_true, beq_iff_eq, decide_eq_true_eq] at starts
        exact starts.resolve_right (by omega)
      rw [if_pos free, cons]
      obtain alpha | rfl := letter
      · simp [followsDot, Char.isAlphanum, alpha, (isWordStart_cases bare.1).2.1]
      · exact ⟨rfl, by simp⟩
    · rw [if_neg free, quoteWith_eq]
      exact ⟨by simp [followsDot], fun _ => by simp; decide⟩

/-- What follows the segments of a key that were not read yet. -/
theorem isSegmentEnd_later (segments : List String) (breaks : IsBreak rest) : IsSegmentEnd
    ((segments.flatMap fun segment => '.' :: (segmentText false segment).toList) ++ rest) := by
  cases segments with
  | nil =>
      intro c member
      exact .inr (breaks c member)
  | cons segment segments => simp [IsSegmentEnd]

/-- The later segments of a key, each with its dot, are cut into their symbols. -/
theorem cuts_segments {segments : List String} (filled : ∀ segment ∈ segments, segment.toList ≠ [])
    (dotted : ∀ segment ∈ segments, IsDotted segment)
    (indexes : segments.IsChain fun first second => ¬(isIndex first = true ∧ isIndex second = true))
    (breaks : IsBreak rest) (later : Spells rest symbols) {kind : TokenKind}
    (operand : kind.isOperand = true) :
    Cuts (some kind)
      ((segments.flatMap fun segment => '.' :: (segmentText false segment).toList) ++ rest)
      ((segments.map segmentPhrase).flatMap (fun segment => [.sign .dot, segment.symbol]) ++
        symbols) := by
  induction segments generalizing kind with
  | nil => exact later _
  | cons segment segments ih =>
      obtain ⟨some, filled⟩ := List.forall_mem_cons.1 filled
      obtain ⟨first, dotted⟩ := List.forall_mem_cons.1 dotted
      simp only [List.flatMap_cons, List.map_cons, List.cons_append, List.append_assoc,
        List.nil_append]
      refine cuts_dot operand (head_segmentText some first).1 (cuts_segment some ?_ ?_ ?_)
      · exact isSegmentEnd_later segments breaks
      · intro index after next
        cases segments with
        | nil =>
            cases rest with
            | nil => cases next
            | cons c rest =>
                cases next
                exact absurd (breaks '.' rfl) (by decide)
        | cons second segments =>
            have words : isIndex second = false := by
              simpa [index] using indexes.rel
            simp only [List.flatMap_cons, List.cons_append, List.cons.injEq, true_and] at next
            rw [← next, List.append_assoc]
            exact (head_segmentText (filled second List.mem_cons_self)
              (dotted second List.mem_cons_self)).2 words
      · exact fun kind operand => ih filled dotted indexes.tail operand

theorem toList_intercalate_dot (first : String) (later : List String) :
    (".".intercalate (first :: later)).toList =
      first.toList ++ later.flatMap fun segment => '.' :: segment.toList := by
  induction later generalizing first with
  | nil => simp
  | cons second later ih =>
      rw [String.intercalate_cons_cons, String.toList_append, ih]
      simp

/-- No blank is before the first segment of a key. -/
theorem starts_segmentText (segment : String) : ∃ c more,
    (segmentText true segment).toList = c :: more ∧ Text.isAsciiBlank c = false := by
  rw [segmentText_true]
  by_cases free : isBareWord segment.toList = true ∧ segment ∉ reserved
  · obtain ⟨c, more, cons, plain⟩ := (Writes.word free.1).starts
    exact ⟨c, more, by rw [if_pos free, cons], plain⟩
  · exact ⟨backquote, _, by rw [if_neg free, quoteWith_eq], by decide⟩

/-- The text of a key whose segments stay apart is cut into a phrase of the key. -/
theorem exists_key {key : Key} (apart : IsApart key) :
    ∃ phrase : KeyPhrase, phrase.key = key ∧ Writes (keyText key).toList phrase.spelling := by
  obtain ⟨dotted, indexes⟩ := apart
  have filled : ∀ segment ∈ key.segments, segment.toList ≠ [] :=
    fun _ member => key.ne_empty_of_mem_segments member
  have joined := key.ofSegments_segments
  unfold keyText
  obtain ⟨first, later, cons⟩ := key.exists_cons_of_segments
  simp only [cons, List.tail_cons] at dotted indexes filled joined ⊢
  have names : (later.map segmentPhrase).map Segment.name = later := by
    simp [Function.comp_def, name_segmentPhrase]
  refine ⟨⟨identifierOf first, later.map segmentPhrase, key, ?_⟩, rfl, ?_⟩
  · rw [name_identifierOf, names, joined]
  · have text : (".".intercalate (segmentTexts (first :: later))).toList =
        (segmentText true first).toList ++
          later.flatMap fun segment => '.' :: (segmentText false segment).toList := by
      rw [segmentTexts, toList_intercalate_dot, List.flatMap_map]
    rw [text]
    constructor
    · obtain ⟨c, more, begun, plain⟩ := starts_segmentText first
      exact ⟨c, _, by rw [begun]; rfl, plain⟩
    · intro rest symbols breaks after previous
      rw [List.append_assoc, KeyPhrase.spelling, List.cons_append]
      exact cuts_identifier first (isSegmentEnd_later later breaks) fun kind operand =>
        cuts_segments (fun segment member => filled segment (List.mem_cons_of_mem _ member)) dotted
          indexes breaks after operand

end Query
end Concordance
