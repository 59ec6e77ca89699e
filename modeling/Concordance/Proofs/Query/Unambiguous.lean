import Concordance.Proofs.Query.Grammar

/-! The grammar of queries is unambiguous: symbols have one derivation at most. -/
namespace Concordance.Query

/-- What is spelt can be cut off from whatever follows it. -/
def IsCode {α : Type} (spelling : α → List Symbol) : Prop :=
  ∀ {first second rest other}, spelling first ++ rest = spelling second ++ other →
    first = second ∧ rest = other

/-- No word that joins parts comes next. -/
def Stops (joints : List String) (rest : List Symbol) : Prop :=
  ∀ joint ∈ joints, rest.head? ≠ some (.word joint)

/-- The words that would go on with a chain, or with one of its parts. -/
def Level.joints : Level → List String
  | chain .or => ["OR", "AND"]
  | chain .and => ["AND"]
  | negated => []

theorem Stops.below {joint : Joint} {rest : List Symbol}
    (ends : Stops (Level.chain joint).joints rest) :
    Stops joint.below.joints rest := by
  cases joint with
  | or => exact fun word member => ends word (List.mem_of_mem_tail member)
  | and => exact fun word member => absurd member List.not_mem_nil

theorem Stops.head?_ne {joint : Joint} {rest : List Symbol}
    (ends : Stops (Level.chain joint).joints rest) : rest.head? ≠ some (.word joint.word) := by
  cases joint with
  | or => exact ends "OR" (by simp [Level.joints])
  | and => exact ends "AND" (by simp [Level.joints])

/-- A part of a chain ends before the joint. -/
theorem stops_joint (joint : Joint) (rest : List Symbol) :
    Stops joint.below.joints (.word joint.word :: rest) := by
  cases joint <;> simp [Stops, Joint.below, Level.joints, Joint.word]

/-- Every chain ends before a sign. -/
theorem stops_sign (level : Level) (kind : TokenKind) (rest : List Symbol) :
    Stops level.joints (.sign kind :: rest) := by
  simp [Stops]

/-- Leaves can be cut off from what follows them, and none is taken for a negation or a group. -/
structure IsLeafCode {α : Type} (spelling : α → List Symbol) : Prop where
  code : IsCode spelling
  starts : ∀ leaf, ∃ first rest, spelling leaf = first :: rest ∧
    first ≠ .word "NOT" ∧ first ≠ .sign .openRound

/-- Elements that each follow the same symbol end where another one follows. -/
theorem eq_of_separated {α : Type} {spelling : α → List Symbol} {separator : Symbol}
    (code : IsCode spelling) {firsts seconds : List α} {rest other : List Symbol}
    (ends : rest.head? ≠ some separator) (stops : other.head? ≠ some separator)
    (same : (firsts.flatMap fun x => separator :: spelling x) ++ rest =
      (seconds.flatMap fun x => separator :: spelling x) ++ other) :
    firsts = seconds ∧ rest = other := by
  induction firsts generalizing seconds with
  | nil =>
      cases seconds with
      | nil => exact ⟨rfl, same⟩
      | cons second seconds =>
          have follows : rest.head? = some separator := congrArg List.head? same
          exact absurd follows ends
  | cons first firsts ih =>
      cases seconds with
      | nil =>
          have follows : other.head? = some separator := (congrArg List.head? same).symm
          exact absurd follows stops
      | cons second seconds =>
          simp only [List.flatMap_cons, List.cons_append, List.append_assoc, List.cons.injEq,
            true_and] at same
          obtain ⟨rfl, later⟩ := code same
          obtain ⟨rfl, ended⟩ := ih later
          exact ⟨rfl, ended⟩

namespace Phrase

variable {α : Type} {leafSpelling : α → List Symbol}

/-- The first symbol of a phrase is that of a negation, a group or a leaf. -/
theorem exists_cons_of_spelling (leaves : IsLeafCode leafSpelling) {level : Level}
    (phrase : Phrase α level) : ∃ first rest, phrase.spelling leafSpelling = first :: rest ∧
      (first = .word "NOT" ∨ first = .sign .openRound ∨
        ∃ leaf more, leafSpelling leaf = first :: more) := by
  induction phrase with
  | last part ih => exact ih
  | joined first rest ih _ =>
      obtain ⟨head, tail, spelt, starts⟩ := ih
      exact ⟨head, _, by rw [spelling, spelt, List.cons_append], starts⟩
  | not inner => exact ⟨_, _, rfl, .inl rfl⟩
  | group inner => exact ⟨_, _, rfl, .inr (.inl rfl)⟩
  | leaf leaf =>
      obtain ⟨first, rest, spelt, -⟩ := leaves.starts leaf
      exact ⟨first, rest, spelt, .inr (.inr ⟨leaf, rest, spelt⟩)⟩

/-- A phrase ends where no joint of its own follows. -/
theorem eq_of_spelling (leaves : IsLeafCode leafSpelling) {level : Level}
    {first second : Phrase α level} {rest other : List Symbol} (ends : Stops level.joints rest)
    (stops : Stops level.joints other)
    (same : first.spelling leafSpelling ++ rest = second.spelling leafSpelling ++ other) :
    first = second ∧ rest = other := by
  induction first generalizing rest other with
  | @last joint part ih =>
      cases second with
      | last partner =>
          obtain ⟨rfl, ended⟩ := ih ends.below stops.below same
          exact ⟨rfl, ended⟩
      | joined partner more =>
          simp only [spelling, List.append_assoc, List.cons_append] at same
          obtain ⟨-, ended⟩ := ih ends.below (stops_joint joint _) same
          exact absurd (congrArg List.head? ended) ends.head?_ne
  | @joined joint part more ih later =>
      cases second with
      | last partner =>
          simp only [spelling, List.append_assoc, List.cons_append] at same
          obtain ⟨-, ended⟩ := ih (stops_joint joint _) stops.below same
          exact absurd (congrArg List.head? ended.symm) stops.head?_ne
      | joined partner others =>
          simp only [spelling, List.append_assoc, List.cons_append] at same
          obtain ⟨rfl, rests⟩ := ih (stops_joint joint _) (stops_joint joint _) same
          obtain ⟨rfl, ended⟩ := later ends stops (List.cons.inj rests).2
          exact ⟨rfl, ended⟩
  | not inner ih =>
      cases second with
      | not partner =>
          obtain ⟨rfl, ended⟩ := ih ends stops (List.cons.inj same).2
          exact ⟨rfl, ended⟩
      | group partner => simp [spelling] at same
      | leaf leaf =>
          obtain ⟨head, tail, spelt, noNot, -⟩ := leaves.starts leaf
          simp only [spelling, spelt, List.cons_append, List.cons.injEq] at same
          exact absurd same.1.symm noNot
  | group inner ih =>
      cases second with
      | not partner => simp [spelling] at same
      | group partner =>
          simp only [spelling, List.append_assoc, List.cons_append, List.cons.injEq, true_and,
            List.nil_append] at same
          obtain ⟨rfl, rests⟩ := ih (stops_sign _ _ _) (stops_sign _ _ _) same
          exact ⟨rfl, (List.cons.inj rests).2⟩
      | leaf leaf =>
          obtain ⟨head, tail, spelt, -, noGroup⟩ := leaves.starts leaf
          simp only [spelling, spelt, List.cons_append, List.cons.injEq] at same
          exact absurd same.1.symm noGroup
  | leaf leaf =>
      obtain ⟨head, tail, spelt, noNot, noGroup⟩ := leaves.starts leaf
      cases second with
      | not partner =>
          simp only [spelling, spelt, List.cons_append, List.cons.injEq] at same
          exact absurd same.1 noNot
      | group partner =>
          simp only [spelling, spelt, List.cons_append, List.cons.injEq] at same
          exact absurd same.1 noGroup
      | leaf partner =>
          obtain ⟨rfl, ended⟩ := leaves.code same
          exact ⟨rfl, ended⟩

end Phrase

/-- Words are told apart by their spelling, whatever follows. -/
theorem isLeafCode_word : IsLeafCode wordSpelling where
  code {first second rest other} same := by simpa [wordSpelling] using same
  starts lexeme := ⟨_, _, rfl, by simp, by simp⟩

theorem Identifier.symbol_injective : Function.Injective Identifier.symbol := by
  intro first second same
  cases first <;> cases second <;> simp_all [symbol]

theorem Segment.symbol_injective : Function.Injective Segment.symbol := by
  intro first second same
  cases first with
  | named identifier =>
      cases second with
      | named other => rw [Identifier.symbol_injective same]
      | index lexeme whole => cases identifier <;> simp [symbol, Identifier.symbol] at same
  | index lexeme whole =>
      cases second with
      | named other => cases other <;> simp [symbol, Identifier.symbol] at same
      | index other plain => simp_all [symbol]

/-- A key ends where no dot follows. -/
theorem KeyPhrase.eq_of_spelling {first second : KeyPhrase} {rest other : List Symbol}
    (ends : rest.head? ≠ some (.sign .dot)) (stops : other.head? ≠ some (.sign .dot))
    (same : first.spelling ++ rest = second.spelling ++ other) : first = second ∧ rest = other := by
  obtain ⟨head, tail, key, joined⟩ := first
  obtain ⟨partner, others, name, made⟩ := second
  simp only [spelling, List.cons_append, List.cons.injEq] at same
  obtain ⟨heads, tails⟩ := same
  have code : IsCode fun segment : Segment => [segment.symbol] := by
    intro one another rest other alike
    simp only [List.cons_append, List.nil_append, List.cons.injEq] at alike
    exact ⟨Segment.symbol_injective alike.1, alike.2⟩
  obtain ⟨rfl, ended⟩ := eq_of_separated code ends stops tails
  cases Identifier.symbol_injective heads
  cases joined.symm.trans made
  exact ⟨rfl, ended⟩

/-- Values are told apart by their spelling, whatever follows. -/
theorem ValuePhrase.isCode : IsCode spelling := by
  intro first second rest other same
  rcases first with ⟨_ | _, _⟩ | _ | ⟨_ | _⟩ | _ <;>
    rcases second with ⟨_ | _, _⟩ | _ | ⟨_ | _⟩ | _ <;> simp_all [spelling]

theorem Comparison.kind_injective : Function.Injective Comparison.kind := by
  intro first second same
  cases first <;> cases second <;> first | rfl | cases same

namespace TestPhrase

theorem eq_of_listSpelling {first second : ValuePhrase} {firsts seconds : List ValuePhrase}
    {rest other : List Symbol}
    (same : listSpelling first firsts ++ rest = listSpelling second seconds ++ other) :
    (first = second ∧ firsts = seconds) ∧ rest = other := by
  simp only [listSpelling, List.cons_append, List.append_assoc, List.nil_append, List.cons.injEq,
    true_and] at same
  obtain ⟨rfl, more⟩ := ValuePhrase.isCode same
  obtain ⟨rfl, ended⟩ := eq_of_separated ValuePhrase.isCode (by simp) (by simp) more
  exact ⟨⟨rfl, rfl⟩, (List.cons.inj ended).2⟩

/-- Tests are told apart by their spelling, whatever follows. -/
theorem isCode : IsCode spelling := by
  intro first second rest other same
  cases first with
  | compare comparison value =>
      cases second with
      | compare partner another =>
          simp only [spelling, List.cons_append, List.cons.injEq, Symbol.sign.injEq] at same
          obtain ⟨rfl, ended⟩ := ValuePhrase.isCode same.2
          rw [Comparison.kind_injective same.1]
          exact ⟨rfl, ended⟩
      | within negated => cases negated <;> simp [spelling] at same
  | within negated value values =>
      cases second with
      | compare => cases negated <;> simp [spelling] at same
      | within opposite another others =>
          have lists : negated = opposite ∧
              listSpelling value values ++ rest = listSpelling another others ++ other := by
            cases negated <;> cases opposite <;> simp_all [spelling]
          obtain ⟨rfl, alike⟩ := lists
          obtain ⟨⟨rfl, rfl⟩, ended⟩ := eq_of_listSpelling alike
          exact ⟨rfl, ended⟩

/-- A test starts with neither a bracket nor a dot. -/
theorem exists_cons_of_spelling (phrase : TestPhrase) : ∃ first rest,
    phrase.spelling = first :: rest ∧ first ≠ .sign .openRound ∧ first ≠ .sign .dot := by
  cases phrase with
  | compare comparison value => exact ⟨_, _, rfl, by cases comparison <;> decide,
      by cases comparison <;> decide⟩
  | within negated value values =>
      cases negated <;> exact ⟨_, _, rfl, by simp, by simp⟩

end TestPhrase

theorem Identifier.symbol_ne_sign (identifier : Identifier) (kind : TokenKind) :
    identifier.symbol ≠ .sign kind := by
  cases identifier <;> simp [symbol]

/-- Whether a word is an aggregate is told by the symbol after it. -/
theorem KeyPhrase.spelling_ne_aggregate (phrase : KeyPhrase) {after : List Symbol}
    (apart : after.head? ≠ some (.sign .openRound)) (name : String) (more : List Symbol) :
    phrase.spelling ++ after ≠ .word name :: .sign .openRound :: more := by
  obtain ⟨head, tail, key, joined⟩ := phrase
  intro alike
  simp only [KeyPhrase.spelling, List.cons_append, List.cons.injEq] at alike
  cases tail with
  | nil => exact apart (congrArg List.head? alike.2)
  | cons segment tail => simp at alike

/-- A target ends where neither a dot nor a bracket follows. -/
theorem TargetPhrase.eq_of_spelling {first second : TargetPhrase} {rest other : List Symbol}
    (ends : rest.head? ≠ some (.sign .dot) ∧ rest.head? ≠ some (.sign .openRound))
    (stops : other.head? ≠ some (.sign .dot) ∧ other.head? ≠ some (.sign .openRound))
    (same : first.spelling ++ rest = second.spelling ++ other) : first = second ∧ rest = other := by
  obtain ⟨aggregate, key⟩ := first
  obtain ⟨another, partner⟩ := second
  cases aggregate with
  | none =>
      cases another with
      | none =>
          obtain ⟨rfl, ended⟩ := KeyPhrase.eq_of_spelling ends.1 stops.1 same
          exact ⟨rfl, ended⟩
      | some another => exact absurd same (key.spelling_ne_aggregate ends.2 another.name _)
  | some aggregate =>
      cases another with
      | none => exact absurd same.symm (partner.spelling_ne_aggregate stops.2 aggregate.name _)
      | some another =>
          simp only [spelling, List.cons_append, List.append_assoc, List.nil_append,
            List.cons.injEq, Symbol.word.injEq, true_and] at same
          obtain ⟨names, keys⟩ := same
          obtain ⟨rfl, ended⟩ := KeyPhrase.eq_of_spelling (by simp) (by simp) keys
          have found := congrArg Aggregate.ofName? names
          rw [Aggregate.ofName?_name, Aggregate.ofName?_name] at found
          cases found
          exact ⟨rfl, (List.cons.inj ended).2⟩

/-- Conditions are told apart by their spelling, whatever follows. -/
theorem isLeafCode_condition : IsLeafCode ConditionPhrase.spelling where
  code {first second rest other} same := by
    obtain ⟨target, test⟩ := first
    obtain ⟨partner, another⟩ := second
    simp only [ConditionPhrase.spelling, List.append_assoc] at same
    have apart : ∀ (test : TestPhrase) (after : List Symbol),
        (test.spelling ++ after).head? ≠ some (.sign .dot) ∧
          (test.spelling ++ after).head? ≠ some (.sign .openRound) := by
      intro test after
      obtain ⟨head, tail, spelt, noBracket, noDot⟩ := test.exists_cons_of_spelling
      simp [spelt, noBracket, noDot]
    obtain ⟨rfl, tests⟩ := TargetPhrase.eq_of_spelling (apart test rest) (apart another other) same
    obtain ⟨rfl, ended⟩ := TestPhrase.isCode tests
    exact ⟨rfl, ended⟩
  starts phrase := by
    obtain ⟨⟨aggregate, key⟩, test⟩ := phrase
    cases aggregate with
    | some aggregate =>
        refine ⟨_, _, rfl, ?_, by simp⟩
        cases aggregate <;> decide
    | none =>
        obtain ⟨first, rest, name, joined⟩ := key
        refine ⟨_, _, rfl, ?_, first.symbol_ne_sign _⟩
        cases first with
        | bare text free =>
            intro same
            cases same
            exact free (by decide)
        | quoted lexeme => simp [Identifier.symbol]

namespace QueryPhrase

/-- What a query ends in goes on with no formula, and starts none. -/
theorem exists_cons_of_spellEnd (semicolon : Bool) : ∃ kind rest,
    spellEnd semicolon = .sign kind :: rest ∧ kind ≠ .openRound := by
  cases semicolon <;> exact ⟨_, _, rfl, by decide⟩

theorem spellEnd_injective : Function.Injective spellEnd := by
  intro first second same
  cases first <;> cases second <;> first | rfl | cases same

/-- Limits are told apart by their spelling in front of the end. -/
theorem eq_of_spellLimit {first second : Option LimitPhrase} {rest other : Bool}
    (same : spellLimit first ++ spellEnd rest = spellLimit second ++ spellEnd other) :
    first = second ∧ rest = other := by
  obtain ⟨kind, more, spelt, -⟩ := exists_cons_of_spellEnd rest
  obtain ⟨another, others, ended, -⟩ := exists_cons_of_spellEnd other
  cases first with
  | none =>
      cases second with
      | none => exact ⟨rfl, spellEnd_injective same⟩
      | some second => simp [spellLimit, spelt] at same
  | some first =>
      cases second with
      | none => simp [spellLimit, ended] at same
      | some second =>
          simp only [spellLimit, List.cons_append, List.cons.injEq, Symbol.number.injEq,
            true_and] at same
          obtain ⟨lexeme, whole, fits⟩ := first
          obtain ⟨digits, plain, small⟩ := second
          cases same.1
          exact ⟨rfl, spellEnd_injective same.2⟩

/-- After a formula comes no joint of its own. -/
theorem stops_spellLimit (limit : Option LimitPhrase) (semicolon : Bool) :
    Stops (Level.chain .or).joints (spellLimit limit ++ spellEnd semicolon) := by
  obtain ⟨kind, more, spelt, -⟩ := exists_cons_of_spellEnd semicolon
  cases limit <;> simp [Stops, Level.joints, spellLimit, spelt]

theorem stops_spellHaving (having : Option (FormulaPhrase ConditionPhrase))
    (limit : Option LimitPhrase) (semicolon : Bool) :
    Stops (Level.chain .or).joints
      (spellHaving having ++ (spellLimit limit ++ spellEnd semicolon)) := by
  cases having with
  | none => exact stops_spellLimit limit semicolon
  | some having => simp [Stops, Level.joints, spellHaving]

/-- Conditions are told apart by their spelling in front of a limit and the end. -/
theorem eq_of_spellHaving {first second : Option (FormulaPhrase ConditionPhrase)}
    {limit bound : Option LimitPhrase} {semicolon other : Bool}
    (same : spellHaving first ++ (spellLimit limit ++ spellEnd semicolon) =
      spellHaving second ++ (spellLimit bound ++ spellEnd other)) :
    first = second ∧ limit = bound ∧ semicolon = other := by
  have missing : ∀ (limit : Option LimitPhrase) (semicolon : Bool) (rest : List Symbol),
      spellLimit limit ++ spellEnd semicolon ≠ .word "HAVING" :: rest := by
    intro limit semicolon rest alike
    obtain ⟨kind, more, spelt, -⟩ := exists_cons_of_spellEnd semicolon
    cases limit <;> simp [spellLimit, spelt] at alike
  cases first with
  | none =>
      cases second with
      | none => exact ⟨rfl, eq_of_spellLimit same⟩
      | some second => exact absurd same (missing limit semicolon _)
  | some first =>
      cases second with
      | none => exact absurd same.symm (missing bound other _)
      | some second =>
          obtain ⟨rfl, ended⟩ := Phrase.eq_of_spelling isLeafCode_condition
            (stops_spellLimit limit semicolon) (stops_spellLimit bound other)
            (List.cons.inj same).2
          exact ⟨rfl, eq_of_spellLimit ended⟩

/-- Words begin with a literal, a bracket or a negation. -/
def startsWords : Symbol → Prop
  | .literal _ => True
  | symbol => symbol = .sign .openRound ∨ symbol = .word "NOT"

theorem exists_cons_of_words (words : FormulaPhrase (List Char)) : ∃ first more,
    words.spelling wordSpelling = first :: more ∧ startsWords first := by
  obtain ⟨first, more, spelt, starts⟩ := words.exists_cons_of_spelling isLeafCode_word
  refine ⟨first, more, spelt, ?_⟩
  obtain rfl | rfl | ⟨leaf, others, alike⟩ := starts
  · exact .inr rfl
  · exact .inl rfl
  · obtain ⟨rfl, -⟩ := List.cons.inj alike
    exact True.intro

/-- What follows the words of a query begins no words. -/
theorem exists_cons_of_spellHaving (having : Option (FormulaPhrase ConditionPhrase))
    (limit : Option LimitPhrase) (semicolon : Bool) : ∃ first more,
      spellHaving having ++ (spellLimit limit ++ spellEnd semicolon) = first :: more ∧
        ¬ startsWords first := by
  obtain ⟨kind, others, ended, noBracket⟩ := exists_cons_of_spellEnd semicolon
  cases having with
  | some having => exact ⟨_, _, rfl, by simp [startsWords]⟩
  | none =>
      cases limit with
      | some limit => exact ⟨_, _, rfl, by simp [startsWords]⟩
      | none => exact ⟨_, _, ended, by simp [startsWords, noBracket]⟩

theorem not_words_of_spellHaving {having : Option (FormulaPhrase ConditionPhrase)}
    {limit : Option LimitPhrase} {semicolon : Bool} (words : FormulaPhrase (List Char))
    (rest : List Symbol) : spellHaving having ++ (spellLimit limit ++ spellEnd semicolon) ≠
      words.spelling wordSpelling ++ rest := by
  intro same
  obtain ⟨first, more, spelt, starts⟩ := exists_cons_of_words words
  obtain ⟨other, others, begun, apart⟩ := exists_cons_of_spellHaving having limit semicolon
  rw [spelt, begun] at same
  exact apart ((List.cons.inj same).1 ▸ starts)

/-- No two derivations spell the same symbols. -/
theorem spelling_injective : Function.Injective QueryPhrase.spelling := by
  rintro ⟨words, having, limit, semicolon⟩ ⟨others, conditions, bound, closed⟩ same
  simp only [spelling] at same
  cases words with
  | none =>
      cases others with
      | none =>
          obtain ⟨rfl, rfl, rfl⟩ := eq_of_spellHaving same
          rfl
      | some others => exact absurd same (not_words_of_spellHaving others _)
  | some words =>
      cases others with
      | none => exact absurd same.symm (not_words_of_spellHaving words _)
      | some others =>
          obtain ⟨rfl, ended⟩ := Phrase.eq_of_spelling isLeafCode_word
            (stops_spellHaving having limit semicolon) (stops_spellHaving conditions bound closed)
            same
          obtain ⟨rfl, rfl, rfl⟩ := eq_of_spellHaving ended
          rfl

end QueryPhrase
end Concordance.Query
