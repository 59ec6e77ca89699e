import Concordance.Proofs.Query.Grammar

namespace Concordance.Query

/-- Nothing after such a symbol is read. -/
def Symbol.isFinal : Symbol → Bool
  | sign kind => kind.isFinal
  | _ => false

@[simp] theorem isFinal_word (text : String) : (Symbol.word text).isFinal = false := rfl

@[simp] theorem isFinal_number (lexeme : List Char) : (Symbol.number lexeme).isFinal = false := rfl

@[simp] theorem isFinal_literal (lexeme : List Char) : (Symbol.literal lexeme).isFinal = false := rfl

@[simp] theorem isFinal_quoted (lexeme : List Char) : (Symbol.quoted lexeme).isFinal = false := rfl

@[simp] theorem isFinal_sign (kind : TokenKind) : (Symbol.sign kind).isFinal = kind.isFinal := rfl

/-- The last symbol is final, and no other. -/
inductive IsEnded : List Symbol → Prop where
  | last {symbol : Symbol} (final : symbol.isFinal = true) : IsEnded [symbol]
  | cons {symbol : Symbol} {rest : List Symbol} (plain : symbol.isFinal = false)
      (ended : IsEnded rest) : IsEnded (symbol :: rest)

/-- What follows a symbol that is not final is ended as the whole is. -/
theorem IsEnded.of_cons {symbol : Symbol} {rest : List Symbol} (plain : symbol.isFinal = false)
    (ended : IsEnded (symbol :: rest)) : IsEnded rest := by
  cases ended with
  | last final => simp [plain] at final
  | cons _ ended => exact ended

/-- Nothing follows a final symbol. -/
theorem IsEnded.eq_nil {symbol : Symbol} {rest : List Symbol} (final : symbol.isFinal = true)
    (ended : IsEnded (symbol :: rest)) : rest = [] := by
  cases ended with
  | last _ => rfl
  | cons plain _ => simp [final] at plain

/-- None of the symbols ends a query. -/
def Continues (spelt : List Symbol) : Prop := ∀ symbol ∈ spelt, symbol.isFinal = false

@[simp] theorem continues_nil : Continues [] := by simp [Continues]

@[simp] theorem continues_cons {symbol : Symbol} {spelt : List Symbol} :
    Continues (symbol :: spelt) ↔ symbol.isFinal = false ∧ Continues spelt := by
  simp [Continues]

/-- A sequence goes on where both of its parts do. -/
@[simp] theorem continues_append {first second : List Symbol} :
    Continues (first ++ second) ↔ Continues first ∧ Continues second :=
  List.forall_mem_append

@[simp] theorem continues_flatMap {α : Type} {spelling : α → List Symbol} {items : List α} :
    Continues (items.flatMap spelling) ↔ ∀ item ∈ items, Continues (spelling item) := by
  simp only [Continues, List.mem_flatMap]
  grind

/-- What goes on leaves the end of a query for later. -/
theorem IsEnded.of_continues {spelt rest : List Symbol} (continues : Continues spelt)
    (ended : IsEnded (spelt ++ rest)) : IsEnded rest := by
  induction spelt with
  | nil => exact ended
  | cons symbol spelt ih =>
      obtain ⟨plain, later⟩ := continues_cons.1 continues
      exact ih later (IsEnded.of_cons plain ended)

/-- No phrase ends a query where no leaf does. -/
theorem continues_phrase {α : Type} {leafSpelling : α → List Symbol}
    (leaves : ∀ leaf, Continues (leafSpelling leaf)) {level : Level} (phrase : Phrase α level) :
    Continues (phrase.spelling leafSpelling) := by
  induction phrase with
  | last part ih => exact ih
  | joined first rest head tail => simp [Phrase.spelling, head, tail]
  | not inner ih => simp [Phrase.spelling, ih]
  | group inner ih => simp [Phrase.spelling, TokenKind.isFinal, ih]
  | leaf leaf => exact leaves leaf

theorem continues_key (phrase : KeyPhrase) : Continues phrase.spelling := by
  have identifiers : ∀ identifier : Identifier, identifier.symbol.isFinal = false := by
    intro identifier
    cases identifier <;> rfl
  have segments : ∀ segment : Segment, segment.symbol.isFinal = false := by
    intro segment
    cases segment with
    | named identifier => exact identifiers identifier
    | index lexeme whole => rfl
  simp [KeyPhrase.spelling, TokenKind.isFinal, identifiers, segments]

theorem continues_value (phrase : ValuePhrase) : Continues phrase.spelling := by
  rcases phrase with ⟨_ | _, _⟩ | _ | ⟨_ | _⟩ | _ <;> simp [ValuePhrase.spelling, TokenKind.isFinal]

/-- No condition ends a query. -/
theorem continues_condition (phrase : ConditionPhrase) : Continues phrase.spelling := by
  obtain ⟨⟨aggregate, key⟩, test⟩ := phrase
  have targets : Continues (TargetPhrase.spelling ⟨aggregate, key⟩) := by
    cases aggregate <;> simp [TargetPhrase.spelling, TokenKind.isFinal, continues_key]
  have lists : ∀ first others, Continues (TestPhrase.listSpelling first others) := by
    simp [TestPhrase.listSpelling, TokenKind.isFinal, continues_value]
  have tests : Continues test.spelling := by
    rcases test with ⟨comparison, value⟩ | ⟨_ | _, first, others⟩
    · cases comparison <;>
        simp [TestPhrase.spelling, Comparison.kind, TokenKind.isFinal, continues_value]
    · simp [TestPhrase.spelling, lists]
    · simp [TestPhrase.spelling, lists]
  exact continues_append.2 ⟨targets, tests⟩

theorem continues_words (words : Option (FormulaPhrase (List Char))) :
    Continues (QueryPhrase.spellWords words) := by
  cases words with
  | none => exact continues_nil
  | some words => exact continues_phrase (by simp [wordSpelling]) words

theorem continues_having (having : Option (FormulaPhrase ConditionPhrase)) :
    Continues (QueryPhrase.spellHaving having) := by
  cases having with
  | none => exact continues_nil
  | some having => exact continues_cons.2 ⟨rfl, continues_phrase continues_condition having⟩

theorem continues_limit (limit : Option LimitPhrase) :
    Continues (QueryPhrase.spellLimit limit) := by
  cases limit <;> simp [QueryPhrase.spellLimit]

end Concordance.Query
