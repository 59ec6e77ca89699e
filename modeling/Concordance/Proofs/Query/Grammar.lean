import Concordance.Query.Parser

namespace Concordance.Query

/-- What the grammar sees of a token. -/
inductive Symbol where
  | word (text : String)
  | number (lexeme : List Char)
  | literal (lexeme : List Char)
  | quoted (lexeme : List Char)
  | sign (kind : TokenKind)
deriving DecidableEq, Repr

namespace Token

def symbol (token : Token) : Symbol :=
  match token.kind with
  | .bareWord => .word token.text
  | .number => .number token.lexeme
  | .stringLiteral => .literal token.lexeme
  | .quotedIdentifier => .quoted token.lexeme
  | kind => .sign kind

/-- The symbol of a token is a word where the token is a bare word with that text. -/
theorem symbol_eq_word {token : Token} {text : String} :
    token.symbol = .word text ↔ token.kind = .bareWord ∧ token.text = text := by
  unfold symbol
  split <;> simp_all

/-- The symbol of a token is a number where the token is one with that spelling. -/
theorem symbol_eq_number {token : Token} {lexeme : List Char} :
    token.symbol = .number lexeme ↔ token.kind = .number ∧ token.lexeme = lexeme := by
  unfold symbol
  split <;> simp_all

/-- The symbol of a token is a string where the token is one with that spelling. -/
theorem symbol_eq_literal {token : Token} {lexeme : List Char} :
    token.symbol = .literal lexeme ↔ token.kind = .stringLiteral ∧ token.lexeme = lexeme := by
  unfold symbol
  split <;> simp_all

theorem symbol_eq_quoted {token : Token} {lexeme : List Char} :
    token.symbol = .quoted lexeme ↔ token.kind = .quotedIdentifier ∧ token.lexeme = lexeme := by
  unfold symbol
  split <;> simp_all

/-- A token of a sign is told by its kind. -/
theorem symbol_eq_sign {token : Token} {kind : TokenKind}
    (plain : kind ∉ [.bareWord, .number, .stringLiteral, .quotedIdentifier]) :
    token.symbol = .sign kind ↔ token.kind = kind := by
  unfold symbol
  split <;> simp_all
  all_goals
    rintro rfl
    simp_all

/-- A token with the symbol of a sign is of the kind of the sign. -/
theorem kind_of_symbol {token : Token} {kind : TokenKind} (same : token.symbol = .sign kind) :
    token.kind = kind := by
  unfold symbol at same
  split at same <;> simp_all

end Token

/-- The words that join the parts of a chain. -/
inductive Joint where
  | or
  | and
deriving DecidableEq

/-- The rules of formulas: chains of each kind, and what is negated, grouped or a leaf. -/
inductive Level where
  | chain (joint : Joint)
  | negated
deriving DecidableEq

namespace Joint

def word : Joint → String
  | or => "OR"
  | and => "AND"

/-- The rule of the parts of a chain. AND binds tighter than OR. -/
def below : Joint → Level
  | or => .chain .and
  | and => .negated

/-- The node for a chain of several parts. -/
def node {α : Type} : Joint → List (Formula α) → Formula α
  | or => .disjunction
  | and => .conjunction

end Joint

/-- A derivation of a formula. A chain is its first part, and the chain of the others after a joint. -/
inductive Phrase (α : Type) : Level → Type where
  | last {joint : Joint} (part : Phrase α joint.below) : Phrase α (.chain joint)
  | joined {joint : Joint} (first : Phrase α joint.below) (rest : Phrase α (.chain joint)) :
      Phrase α (.chain joint)
  | not (inner : Phrase α .negated) : Phrase α .negated
  | group (inner : Phrase α (.chain .or)) : Phrase α .negated
  | leaf (leaf : α) : Phrase α .negated

/-- A derivation of a whole formula. -/
abbrev FormulaPhrase (α : Type) := Phrase α (.chain .or)

namespace Phrase

variable {α β : Type}

def spelling (leafSpelling : α → List Symbol) {level : Level} : Phrase α level → List Symbol
  | last part => part.spelling leafSpelling
  | @joined _ joint first rest =>
      first.spelling leafSpelling ++ .word joint.word :: rest.spelling leafSpelling
  | not inner => .word "NOT" :: inner.spelling leafSpelling
  | group inner => .sign .openRound :: (inner.spelling leafSpelling ++ [.sign .closeRound])
  | leaf l => leafSpelling l

mutual

/-- The formula that a derivation means. A chain of several parts is one node with all of them, and a
chain of one part is that part. -/
def meaning (leafMeaning : α → β) {level : Level} : Phrase α level → Formula β
  | last part => part.meaning leafMeaning
  | @joined _ joint first rest =>
      joint.node (first.meaning leafMeaning :: rest.parts leafMeaning)
  | not inner => .negation (inner.meaning leafMeaning)
  | group inner => inner.meaning leafMeaning
  | leaf l => .leaf (leafMeaning l)

/-- The formulas of the parts of a chain, in their order. -/
def parts (leafMeaning : α → β) {level : Level} : Phrase α level → List (Formula β)
  | last part => [part.meaning leafMeaning]
  | joined first rest => first.meaning leafMeaning :: rest.parts leafMeaning
  | not inner => [.negation (inner.meaning leafMeaning)]
  | group inner => [inner.meaning leafMeaning]
  | leaf l => [.leaf (leafMeaning l)]

end

/-- The greatest number of negations and round brackets that are open at once. -/
def nesting {level : Level} : Phrase α level → Nat
  | last part => part.nesting
  | joined first rest => max first.nesting rest.nesting
  | not inner => inner.nesting + 1
  | group inner => inner.nesting + 1
  | leaf _ => 0

end Phrase

/-- The lexeme of a word of a query. -/
def wordSpelling (lexeme : List Char) : List Symbol := [.literal lexeme]

def wordMeaning (lexeme : List Char) : String := String.ofList (unquote lexeme)

/-- A name in a key: a bare word that is not reserved, or a quoted identifier. -/
inductive Identifier where
  | bare (text : String) (free : text ∉ reserved)
  | quoted (lexeme : List Char)

namespace Identifier

def symbol : Identifier → Symbol
  | bare text _ => .word text
  | quoted lexeme => .quoted lexeme

def name : Identifier → String
  | bare text _ => text
  | quoted lexeme => String.ofList (unquote lexeme)

end Identifier

/-- A name in a key after a dot, which may be a number without a fraction. -/
inductive Segment where
  | named (identifier : Identifier)
  | index (lexeme : List Char) (whole : lexeme.all Char.isDigit = true)

namespace Segment

def symbol : Segment → Symbol
  | named identifier => identifier.symbol
  | index lexeme _ => .number lexeme

def name : Segment → String
  | named identifier => identifier.name
  | index lexeme _ => String.ofList lexeme

end Segment

/-- A derivation of a key. The names make a key when none of them is empty. -/
structure KeyPhrase where
  first : Identifier
  rest : List Segment
  key : Key
  joined : Key.ofSegments (first.name :: rest.map Segment.name) = .ok key

def KeyPhrase.spelling (phrase : KeyPhrase) : List Symbol :=
  phrase.first.symbol :: phrase.rest.flatMap fun segment => [.sign .dot, segment.symbol]

inductive ValuePhrase where
  | number (negative : Bool) (lexeme : List Char)
  | literal (lexeme : List Char)
  | truth (value : Bool)
  | null

namespace ValuePhrase

def spelling : ValuePhrase → List Symbol
  | number true lexeme => [.sign .minus, .number lexeme]
  | number false lexeme => [.number lexeme]
  | literal lexeme => [.literal lexeme]
  | truth true => [.word "TRUE"]
  | truth false => [.word "FALSE"]
  | null => [.word "NULL"]

def meaning : ValuePhrase → Value
  | number true lexeme => .number (Number.ofText lexeme).negate
  | number false lexeme => .number (.ofText lexeme)
  | literal lexeme => .text (String.ofList (unquote lexeme))
  | truth value => .bool value
  | null => .null

end ValuePhrase

structure TargetPhrase where
  aggregate : Option Aggregate
  key : KeyPhrase

namespace TargetPhrase

def spelling : TargetPhrase → List Symbol
  | ⟨none, key⟩ => key.spelling
  | ⟨some aggregate, key⟩ =>
      .word aggregate.name :: .sign .openRound :: (key.spelling ++ [.sign .closeRound])

def meaning (phrase : TargetPhrase) : Target := ⟨phrase.key.key, phrase.aggregate⟩

end TargetPhrase

def Comparison.kind : Comparison → TokenKind
  | equal => .equals
  | notEqual => .notEquals
  | less => .less
  | greater => .greater
  | lessOrEqual => .lessOrEquals
  | greaterOrEqual => .greaterOrEquals

inductive TestPhrase where
  | compare (comparison : Comparison) (value : ValuePhrase)
  | within (negated : Bool) (first : ValuePhrase) (rest : List ValuePhrase)

namespace TestPhrase

/-- The values in the brackets after IN. -/
def listSpelling (first : ValuePhrase) (rest : List ValuePhrase) : List Symbol :=
  .sign .openRound ::
    (first.spelling ++ (rest.flatMap fun value => .sign .comma :: value.spelling) ++
      [.sign .closeRound])

def spelling : TestPhrase → List Symbol
  | compare comparison value => .sign comparison.kind :: value.spelling
  | within true first rest => .word "NOT" :: .word "IN" :: listSpelling first rest
  | within false first rest => .word "IN" :: listSpelling first rest

def meaning : TestPhrase → Test
  | compare comparison value => .compare comparison value.meaning
  | within negated first rest => .within negated (first.meaning :: rest.map ValuePhrase.meaning)

end TestPhrase

structure ConditionPhrase where
  target : TargetPhrase
  test : TestPhrase

namespace ConditionPhrase

def spelling (phrase : ConditionPhrase) : List Symbol :=
  phrase.target.spelling ++ phrase.test.spelling

def meaning (phrase : ConditionPhrase) : Condition :=
  ⟨phrase.target.meaning, phrase.test.meaning⟩

end ConditionPhrase

/-- A number without a fraction that 64 bits hold. -/
structure LimitPhrase where
  lexeme : List Char
  whole : lexeme.all Char.isDigit = true
  fits : Number.readDigits 0 lexeme < UInt64.size

def LimitPhrase.count (phrase : LimitPhrase) : Nat := Number.readDigits 0 phrase.lexeme

/-- A derivation of a query: all of its parts may be missing. -/
structure QueryPhrase where
  words : Option (FormulaPhrase (List Char))
  having : Option (FormulaPhrase ConditionPhrase)
  limit : Option LimitPhrase
  semicolon : Bool

namespace QueryPhrase

def spellWords : Option (FormulaPhrase (List Char)) → List Symbol
  | none => []
  | some words => words.spelling wordSpelling

def spellHaving : Option (FormulaPhrase ConditionPhrase) → List Symbol
  | none => []
  | some having => .word "HAVING" :: having.spelling ConditionPhrase.spelling

def spellLimit : Option LimitPhrase → List Symbol
  | none => []
  | some limit => [.word "LIMIT", .number limit.lexeme]

def spellEnd (semicolon : Bool) : List Symbol :=
  if semicolon then [.sign .semicolon, .sign .endOfQuery] else [.sign .endOfQuery]

def spelling (phrase : QueryPhrase) : List Symbol :=
  spellWords phrase.words ++
    (spellHaving phrase.having ++ (spellLimit phrase.limit ++ spellEnd phrase.semicolon))

def meaning (phrase : QueryPhrase) : Query :=
  ⟨phrase.words.map (·.meaning wordMeaning), phrase.having.map (·.meaning ConditionPhrase.meaning),
    phrase.limit.map LimitPhrase.count⟩

/-- The query asks for words or for conditions. -/
def Asks (phrase : QueryPhrase) : Prop := phrase.words.isSome ∨ phrase.having.isSome

instance (phrase : QueryPhrase) : Decidable phrase.Asks := inferInstanceAs (Decidable (_ ∨ _))

end QueryPhrase
end Concordance.Query
