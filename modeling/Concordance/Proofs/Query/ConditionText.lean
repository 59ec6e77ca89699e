import Concordance.Proofs.Number
import Concordance.Proofs.Query.KeyText
import Concordance.Proofs.Query.Printing

/-! The text of a condition is cut into a phrase of the condition. -/
namespace Concordance

namespace Number

/-- No text of digits stands for more than infinity. -/
theorem magnitude_ofText_le (text : List Char) : (ofText text).magnitude ≤ infinity := by
  have bounded : ∀ numerator denominator, nearest numerator denominator ≤ infinity := by
    intro numerator denominator
    unfold nearest
    split
    · exact Nat.zero_le _
    · exact Nat.min_le_left _ _
  rw [ofText, magnitude_ofMagnitude]
  refine (Nat.mod_le _ _).trans ?_
  unfold Decimal.nearest
  split <;> exact bounded _ _

theorem magnitude_negate (x : Number) : x.negate.magnitude = x.magnitude := by
  rw [negate, magnitude_ofMagnitude, Nat.mod_eq_of_lt x.magnitude_lt]

theorem text_of_finite {x : Number} (finite : x.magnitude < infinity) : x.text =
    (if x.isNegative then ['-'] else []) ++ (shortest .up x.magnitude).positional := by
  simp [text, isNaN, isInfinite, finite.ne, finite.le]

end Number

namespace Query

open Number

/-- The shortest text of a number is one token. -/
theorem writes_shortest (magnitude : Nat) : ∃ c more,
    (shortest .up magnitude).positional = c :: more ∧ c.isDigit = true ∧
      Writes (c :: more) [.number (c :: more)] := by
  obtain ⟨whole, fraction, ⟨filled, digits⟩, places, -, ⟨-, text⟩ | ⟨some, text⟩⟩ :=
    positional_cases (shortest .up magnitude)
  · obtain ⟨c, more, rfl⟩ := List.exists_cons_of_ne_nil filled
    exact ⟨c, more, text, digits c List.mem_cons_self, .digits digits filled⟩
  · obtain ⟨c, more, rfl⟩ := List.exists_cons_of_ne_nil filled
    exact ⟨c, _, text, digits c List.mem_cons_self, .point digits filled places some⟩

/-- A finite number is written as a phrase of it. -/
theorem exists_number {x : Number} (finite : x.magnitude < infinity) :
    ∃ phrase : ValuePhrase, phrase.meaning = .number x ∧ Writes x.text phrase.spelling := by
  obtain ⟨c, more, text, digit, writes⟩ := writes_shortest x.magnitude
  have value := ofText_shortest .up finite
  refine ⟨.number x.isNegative (c :: more), ?_, ?_⟩
  · rw [text] at value
    have same := ofMagnitude_self x
    cases sign : x.isNegative with
    | false =>
        rw [sign] at same
        rw [ValuePhrase.meaning, value, same]
    | true =>
        rw [sign] at same
        rw [ValuePhrase.meaning, value, negate, isNegative_ofMagnitude, magnitude_ofMagnitude,
          Nat.mod_eq_of_lt x.magnitude_lt, Bool.not_false, same]
  · rw [text_of_finite finite, text]
    cases x.isNegative with
    | false => exact writes
    | true => exact writes.minus digit

/-- A value that is no infinite number is written as a phrase of it. -/
theorem exists_value (phrase : ValuePhrase)
    (finite : ∀ x, phrase.meaning = .number x → x.isInfinite = false) :
    ∃ written : ValuePhrase, written.meaning = phrase.meaning ∧
      Writes (valueText phrase.meaning).toList written.spelling := by
  have number : ∀ x, x.magnitude ≤ infinity → x.isInfinite = false →
      ∃ written : ValuePhrase, written.meaning = .number x ∧
        Writes (valueText (.number x)).toList written.spelling := by
    intro x bounded apart
    have less : x.magnitude < infinity := by
      simp only [isInfinite, decide_eq_false_iff_not] at apart
      omega
    obtain ⟨written, means, writes⟩ := exists_number less
    exact ⟨written, means, by simpa [valueText, toText] using writes⟩
  cases phrase with
  | number negative lexeme =>
      have bounded := magnitude_ofText_le lexeme
      cases negative with
      | false => exact number _ bounded (finite _ rfl)
      | true => exact number _ (by rwa [magnitude_negate]) (finite _ rfl)
  | literal lexeme =>
      refine ⟨.literal (quoteWith apostrophe (unquote lexeme)), ?_, ?_⟩
      · simp [ValuePhrase.meaning, unquote_quoteWith (show apostrophe ≠ '\\' by decide)]
      · simpa [valueText, ValuePhrase.meaning, quoteLiteral, ValuePhrase.spelling]
          using Writes.literal (unquote lexeme)
  | truth value => cases value <;> exact ⟨.truth _, rfl, .keyword _ (by decide)⟩
  | null => exact ⟨.null, rfl, .keyword _ (by decide)⟩

/-- Values with commas between them are written as phrases of them. -/
theorem exists_values (first : ValuePhrase) (others : List ValuePhrase)
    (finite : ∀ phrase ∈ first :: others, ∀ x, phrase.meaning = .number x → x.isInfinite = false) :
    ∃ (head : ValuePhrase) (tail : List ValuePhrase), head.meaning = first.meaning ∧
      tail.map ValuePhrase.meaning = others.map ValuePhrase.meaning ∧
      Writes (", ".intercalate (((first :: others).map ValuePhrase.meaning).map valueText)).toList
        (head.spelling ++ tail.flatMap fun value => .sign .comma :: value.spelling) := by
  induction others generalizing first with
  | nil =>
      obtain ⟨head, means, writes⟩ := exists_value first (finite first List.mem_cons_self)
      exact ⟨head, [], means, rfl, by simpa using writes⟩
  | cons second others ih =>
      obtain ⟨one, rest⟩ := List.forall_mem_cons.1 finite
      obtain ⟨head, means, writes⟩ := exists_value first one
      obtain ⟨next, tail, same, alike, later⟩ := ih second rest
      refine ⟨head, next :: tail, means, by simp [same, alike], ?_⟩
      have whole := writes.comma later
      simp only [List.map_cons, String.intercalate_cons_cons] at whole ⊢
      simpa using whole

/-- The text of a target is cut into a phrase of it where its key is. -/
theorem exists_target {target : Target} (apart : IsApart target.key) :
    ∃ phrase : TargetPhrase,
      phrase.meaning = target ∧ Writes target.text.toList phrase.spelling := by
  obtain ⟨key, aggregate⟩ := target
  obtain ⟨phrase, rfl, writes⟩ := exists_key apart
  cases aggregate with
  | none => exact ⟨⟨none, phrase⟩, rfl, writes⟩
  | some aggregate =>
      refine ⟨⟨some aggregate, phrase⟩, rfl, ?_⟩
      have bare : isBareWord aggregate.name.toList = true := by cases aggregate <;> decide
      have whole := Writes.call bare writes
      simpa [Target.text, TargetPhrase.spelling] using whole

/-- The values that a condition compares with. -/
def Condition.values (condition : Condition) : List Value :=
  match condition.test with
  | .compare _ value => [value]
  | .within _ values => values

/-- A condition that was read is written as a phrase of it, if its key stays apart and its numbers
are finite. -/
theorem isReadable_condition (phrase : ConditionPhrase) (apart : IsApart phrase.meaning.target.key)
    (finite : ∀ x, .number x ∈ phrase.meaning.values → x.isInfinite = false) :
    Formula.IsReadable Condition.text ConditionPhrase.spelling ConditionPhrase.meaning
      phrase.meaning := by
  obtain ⟨target, test⟩ := phrase
  obtain ⟨written, means, writes⟩ := exists_target apart
  cases test with
  | compare comparison value =>
      obtain ⟨other, same, valued⟩ := exists_value value fun x number => finite x (by
        simp [ConditionPhrase.meaning, TestPhrase.meaning, Condition.values, number])
      refine ⟨⟨written, .compare comparison other⟩, ?_, ?_⟩
      · simp_all [ConditionPhrase.meaning, TestPhrase.meaning]
      · have whole := (writes.space (.comparison comparison)).space valued
        simpa [Condition.text, ConditionPhrase.meaning, TestPhrase.meaning, ConditionPhrase.spelling,
          TestPhrase.spelling] using whole
  | within negated first others =>
      obtain ⟨head, tail, same, alike, valued⟩ := exists_values first others
        fun value member x number => finite x (by
          simp only [ConditionPhrase.meaning, TestPhrase.meaning, Condition.values]
          rw [← number]
          exact List.mem_map_of_mem (f := ValuePhrase.meaning) member)
      refine ⟨⟨written, .within negated head tail⟩, ?_, ?_⟩
      · simp_all [ConditionPhrase.meaning, TestPhrase.meaning]
      · have listed := (Writes.keyword "IN" (by decide)).space valued.round
        cases negated with
        | false =>
            have whole := writes.space listed
            simpa [Condition.text, ConditionPhrase.meaning, TestPhrase.meaning,
              ConditionPhrase.spelling, TestPhrase.spelling, TestPhrase.listSpelling] using whole
        | true =>
            have whole := writes.space ((Writes.keyword "NOT" (by decide)).space listed)
            simpa [Condition.text, ConditionPhrase.meaning, TestPhrase.meaning,
              ConditionPhrase.spelling, TestPhrase.spelling, TestPhrase.listSpelling] using whole

/-- What holds of the meaning of every leaf holds of the leaves of what a phrase means. -/
theorem forall_leaves {α β : Type} {leafMeaning : α → β} {holds : β → Prop}
    (each : ∀ leaf, holds (leafMeaning leaf)) {level : Level} (phrase : Phrase α level) :
    (∀ leaf ∈ (phrase.meaning leafMeaning).leaves, holds leaf) ∧
      ∀ leaf ∈ Formula.leavesOf (phrase.parts leafMeaning), holds leaf := by
  induction phrase with
  | last part ih => simpa [Phrase.meaning, Phrase.parts, Formula.leavesOf] using ih.1
  | @joined joint first rest head tail =>
      have parts : ∀ leaf ∈ Formula.leavesOf (Phrase.parts leafMeaning (.joined first rest)),
          holds leaf := by
        simp only [Phrase.parts, Formula.leavesOf, List.forall_mem_append]
        exact ⟨head.1, tail.2⟩
      refine ⟨?_, parts⟩
      cases joint <;> exact parts
  | not inner ih =>
      simpa [Phrase.meaning, Phrase.parts, Formula.leavesOf, Formula.leaves] using ih.1
  | group inner ih => simpa [Phrase.meaning, Phrase.parts, Formula.leavesOf] using ih.1
  | leaf leaf =>
      simpa [Phrase.meaning, Phrase.parts, Formula.leavesOf, Formula.leaves] using each leaf

/-- A query with conditions that was read reads back from its text, if its numbers are finite and
the segments of its keys stay apart. -/
theorem parse_text_of_having {text : String} {query : Query} {having : Formula Condition}
    (parsed : parse text 0 0 = .parsed query) (asks : query.having = some having)
    (finite : ∀ condition ∈ having.leaves, ∀ x, .number x ∈ condition.values →
      x.isInfinite = false)
    (apart : ∀ condition ∈ having.leaves, IsApart condition.target.key) :
    parse query.text 0 0 = .parsed query := by
  have grouped := isGrouped_of_parse parsed
  obtain ⟨phrase, -, -, -, rfl⟩ := parse_eq_parsed.1 parsed
  have spelt : ∀ condition ∈ having.leaves,
      ∃ phrase : ConditionPhrase, phrase.meaning = condition := by
    obtain ⟨conditions, found, rfl⟩ := Option.map_eq_some_iff.1 asks
    exact (forall_leaves (fun leaf => ⟨leaf, rfl⟩) conditions).1
  refine parse_text (.inr (by simp [asks])) grouped ?_ ?_
  · intro formula member condition leaf
    cases asks.symm.trans member
    obtain ⟨phrase, rfl⟩ := spelt condition leaf
    exact isReadable_condition phrase (apart _ leaf) (finite _ leaf)
  · intro count member
    obtain ⟨limit, -, rfl⟩ := Option.map_eq_some_iff.1 member
    exact limit.fits

/-- A query with an aggregate, digits in a key, a quote and a limit reads back. -/
theorem parse_text_of_having_aggregate :
    let text := "HAVING NOT max(a.b.0) NOT IN (2.5, 'it''s', NULL) LIMIT 2"
    let having : Formula Condition := .negation (.leaf ⟨⟨⟨"a.b.0", by decide +kernel⟩, some .largest⟩,
      .within true [.number (.ofText ['2', '.', '5']), .text "it's", .null]⟩)
    let query : Query := ⟨none, some having, some 2⟩
    (parse text 0 0 = .parsed query ∧ query.having = some having ∧
      (∀ condition ∈ having.leaves, ∀ x, .number x ∈ condition.values → x.isInfinite = false) ∧
      ∀ condition ∈ having.leaves, IsApart condition.target.key) ∧
    parse query.text 0 0 = .parsed query := by
  intro text having query
  have parsed : parse text 0 0 = .parsed query := by decide +kernel
  have finite : ∀ condition ∈ having.leaves, ∀ x, .number x ∈ condition.values →
      x.isInfinite = false := by
    simp [having, Formula.leaves, Condition.values]
    decide +kernel
  have apart : ∀ condition ∈ having.leaves, IsApart condition.target.key := by decide +kernel
  exact ⟨⟨parsed, rfl, finite, apart⟩, parse_text_of_having parsed rfl finite apart⟩

/-- Two segments of digits are written side by side, and then read as one number. -/
theorem digits_run_together : ¬∀ (text : String) (query : Query) (having : Formula Condition),
    parse text 0 0 = .parsed query → query.having = some having →
      parse query.text 0 0 = .parsed query := by
  intro all
  let having : Formula Condition :=
    .leaf ⟨⟨⟨"a.1.2", by decide +kernel⟩, none⟩, .compare .equal (.number (.ofText ['3']))⟩
  have parsed : parse "HAVING a.`1`.`2` = 3" 0 0 = .parsed ⟨none, some having, none⟩ := by
    decide +kernel
  have misread : parse (Query.text ⟨none, some having, none⟩) 0 0 ≠
      .parsed ⟨none, some having, none⟩ := by
    decide +kernel
  exact misread (all _ _ _ parsed rfl)

end Query
end Concordance
