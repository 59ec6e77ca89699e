import Concordance.Query.Basic
import Concordance.Query.Lexer

/-! Reading queries. -/
namespace Concordance.Query

/-- What would have continued a query. -/
inductive Expectation where
  | token (kind : TokenKind)
  | keyword (word : String)
  | unsignedInteger
  | identifier
  | comparison
  | value
  | nonEmptyKey
deriving DecidableEq, Repr

def Expectation.text : Expectation → String
  | token kind => kind.describe
  | keyword word => word
  | unsignedInteger => "unsigned integer"
  | identifier => "identifier"
  | comparison => "comparison operator"
  | value => "value"
  | nonEmptyKey => "non-empty key"

/-- Why a text is no query. -/
inductive SyntaxFault where
  | tooDeep (position limit : Nat)
  | unexpected (position : Nat) (expected : List Expectation) (foundInvalid : Bool)
deriving DecidableEq, Repr

namespace SyntaxFault

/-- The number of bytes before the token at fault. -/
def position : SyntaxFault → Nat
  | tooDeep position _ => position
  | unexpected position _ _ => position

def expected : SyntaxFault → String
  | tooDeep _ limit => s!"nesting at most {limit} deep"
  | unexpected _ items foundInvalid =>
      ", ".intercalate (items.map Expectation.text) ++
        if foundInvalid then " (found invalid token)" else ""

end SyntaxFault

inductive Outcome where
  | empty
  | refused (fault : SyntaxFault)
  | parsed (query : Query)
deriving DecidableEq

/-- How many rules of the grammar are inside one another. The limit 0 stands for no limit. -/
structure Nesting where
  depth : Nat
  limit : Nat
deriving DecidableEq, Repr

namespace Nesting

def ofLimit (limit : Nat) : Nesting := ⟨0, limit⟩

def enter (nesting : Nesting) : Nesting := { nesting with depth := nesting.depth + 1 }

def leave (nesting : Nesting) : Nesting := { nesting with depth := nesting.depth - 1 }

def isAllowed (nesting : Nesting) : Bool := nesting.limit == 0 || nesting.depth ≤ nesting.limit

/-- A rule that is over leaves the nesting in which it began. -/
theorem leave_enter (nesting : Nesting) : nesting.enter.leave = nesting := rfl

end Nesting

namespace Parser

/-- The tokens ahead, the number of tokens behind, and what was looked for at the furthest token. -/
structure State where
  ahead : List Token
  index : Nat
  furthest : Nat
  expected : List Expectation
deriving DecidableEq, Repr

/-- A rule gives up when it is nested too deep or finds no token that fits. -/
inductive Refusal where
  | tooDeep
  | unexpected
deriving DecidableEq, Repr

/-- A rule of the grammar. It keeps its state when it fails. -/
abbrev Rule := EStateM Refusal State

def State.note (item : Expectation) (index : Nat) (state : State) : State :=
  if state.furthest < index ∨ state.expected = [] then
    { state with furthest := index, expected := [item] }
  else if index = state.furthest ∧ item ∉ state.expected then
    { state with expected := state.expected ++ [item] }
  else state

/-- Remember that something would have fitted at the next token. -/
def wanted (item : Expectation) : Rule Unit :=
  modify fun state => state.note item state.index

def fail {α : Type} : Rule α := throw .unexpected

/-- Give up where something else would have fitted. -/
def failWanting {α : Type} (item : Expectation) : Rule α := do
  wanted item
  fail

def endToken : Token := ⟨.endOfQuery, 0, []⟩

def peek : Rule Token := do return (← get).ahead.headD endToken

/-- The token after the next one. -/
def peekSecond : Rule Token := do
  match (← get).ahead with
  | _ :: second :: _ => return second
  | [only] => return only
  | [] => return endToken

def advance : Rule Unit :=
  modify fun state => { state with ahead := state.ahead.tail, index := state.index + 1 }

/-- Take a token of one kind. -/
def expect (kind : TokenKind) : Rule Token := do
  let token ← peek
  if token.kind = kind then
    advance
    return token
  else failWanting (.token kind)

/-- Take a keyword if it is the next token. -/
def keyword (word : String) : Rule Bool := do
  let token ← peek
  if token.kind = .bareWord ∧ token.text = word then
    advance
    return true
  else
    wanted (.keyword word)
    return false

/-- Pass one level of nesting, where there is still one. The rule that passes it goes on one deeper,
and the rule around it as deep as it was. -/
def enter (limit depth : Nat) : Rule Unit :=
  if (Nesting.mk depth limit).enter.isAllowed then pure () else throw .tooDeep

/-- The operands that follow a first one, each after the same keyword. -/
def operands {α : Type} (word : String) (operand : Rule α) : Nat → Rule (List α)
  | 0 => pure []
  | fuel + 1 => do
      if ← keyword word then
        let first ← operand
        let rest ← operands word operand fuel
        return first :: rest
      else return []

section

variable {α : Type} (operand : Rule α) (limit : Nat)

mutual

/-- Parts joined by OR. -/
def formula : Nat → Nat → Rule (Formula α)
  | 0, _ => fail
  | fuel + 1, depth => do
      let first ← conjunct fuel depth
      let rest ← operands "OR" (conjunct fuel depth) fuel
      return Formula.group .disjunction (first :: rest)

/-- Parts joined by AND. -/
def conjunct : Nat → Nat → Rule (Formula α)
  | 0, _ => fail
  | fuel + 1, depth => do
      let first ← negated fuel depth
      let rest ← operands "AND" (negated fuel depth) fuel
      return Formula.group .conjunction (first :: rest)

/-- A negation, a group or a leaf. -/
def negated : Nat → Nat → Rule (Formula α)
  | 0, _ => fail
  | fuel + 1, depth => do
      if ← keyword "NOT" then
        enter limit depth
        let inner ← negated fuel (depth + 1)
        return .negation inner
      else if (← peek).kind = .openRound then
        advance
        enter limit depth
        let inner ← formula fuel (depth + 1)
        let _ ← expect .closeRound
        return inner
      else
        wanted (.token .openRound)
        return .leaf (← operand)

end

end

def word : Rule String := do
  let token ← expect .stringLiteral
  return String.ofList (unquote token.lexeme)

/-- The name that a token gives to a segment of a key. A segment after the first may be a number. -/
def segmentOf (isFirst : Bool) (token : Token) : Option String :=
  match token.kind with
  | .bareWord => if token.text ∈ reserved then none else some token.text
  | .quotedIdentifier => some (String.ofList (unquote token.lexeme))
  | .number => if !isFirst && token.lexeme.all Char.isDigit then some token.text else none
  | _ => none

def segment (isFirst : Bool) : Rule String := do
  match segmentOf isFirst (← peek) with
  | some name =>
      advance
      return name
  | none => failWanting .identifier

/-- The segments that follow a first one, each after a dot. -/
def moreSegments : Nat → Rule (List String)
  | 0 => pure []
  | fuel + 1 => do
      if (← peek).kind = .dot then
        advance
        let first ← segment false
        let rest ← moreSegments fuel
        return first :: rest
      else return []

def key (fuel : Nat) : Rule Key := do
  let start := (← get).index
  let first ← segment true
  let rest ← moreSegments fuel
  match Key.ofSegments (first :: rest) with
  | .ok key => return key
  | .error _ =>
      modify (State.note .nonEmptyKey start)
      fail

def target (fuel : Nat) : Rule Target := do
  let token ← peek
  let second ← peekSecond
  match if token.kind = .bareWord ∧ second.kind = .openRound then Aggregate.ofName? token.text
      else none with
  | some aggregate =>
      advance
      advance
      let key ← key fuel
      let _ ← expect .closeRound
      return ⟨key, some aggregate⟩
  | none => return ⟨← key fuel, none⟩

def comparisonOf : TokenKind → Option Comparison
  | .equals => some .equal
  | .notEquals => some .notEqual
  | .less => some .less
  | .greater => some .greater
  | .lessOrEquals => some .lessOrEqual
  | .greaterOrEquals => some .greaterOrEqual
  | _ => none

def comparison : Rule Comparison := do
  match comparisonOf (← peek).kind with
  | some comparison =>
      advance
      return comparison
  | none => failWanting .comparison

/-- The value that one token stands for. -/
def valueOf (token : Token) : Option Value :=
  match token.kind with
  | .number => some (.number (.ofText token.lexeme))
  | .stringLiteral => some (.text (String.ofList (unquote token.lexeme)))
  | .bareWord =>
      if token.text = "TRUE" then some (.bool true)
      else if token.text = "FALSE" then some (.bool false)
      else if token.text = "NULL" then some .null
      else none
  | _ => none

def value : Rule Value := do
  let token ← peek
  if token.kind = .minus then
    advance
    let number ← expect .number
    return .number (Number.ofText number.lexeme).negate
  else match valueOf token with
    | some value =>
        advance
        return value
    | none => failWanting .value

/-- The values that follow a first one, each after a comma. -/
def moreValues : Nat → Rule (List Value)
  | 0 => pure []
  | fuel + 1 => do
      if (← peek).kind = .comma then
        advance
        let first ← value
        let rest ← moreValues fuel
        return first :: rest
      else return []

def valueList (fuel : Nat) : Rule (List Value) := do
  let _ ← expect .openRound
  let first ← value
  let rest ← moreValues fuel
  wanted (.token .comma)
  let _ ← expect .closeRound
  return first :: rest

def condition (fuel : Nat) : Rule Condition := do
  let target ← target fuel
  if ← keyword "IN" then
    return ⟨target, .within false (← valueList fuel)⟩
  else if ← keyword "NOT" then
    if ← keyword "IN" then return ⟨target, .within true (← valueList fuel)⟩ else fail
  else
    let comparison ← comparison
    return ⟨target, .compare comparison (← value)⟩

def unsigned : Rule Nat := do
  let token ← peek
  let n := Number.readDigits 0 token.lexeme
  if token.kind = .number ∧ token.lexeme.all Char.isDigit ∧ n < UInt64.size then
    advance
    return n
  else failWanting .unsignedInteger

/-- The next token can only begin a formula of words. -/
def startsWords (token : Token) : Bool :=
  match token.kind with
  | .stringLiteral | .openRound => true
  | .bareWord => token.text == "NOT"
  | _ => false

/-- The words of a query, where it starts with some. -/
def leadingWords (fuel limit : Nat) : Rule (Option (Formula String)) := do
  if startsWords (← peek) then
    let words ← formula word limit fuel 0
    return some words
  else
    wanted (.token .stringLiteral)
    return none

/-- The conditions of a query, where it has some. -/
def conditions (fuel limit : Nat) : Rule (Option (Formula Condition)) := do
  if ← keyword "HAVING" then
    let conditions ← formula (condition fuel) limit fuel 0
    return some conditions
  else return none

/-- The limit of a query, where it has one. -/
def limitCount : Rule (Option Nat) := do
  if ← keyword "LIMIT" then
    let count ← unsigned
    return some count
  else return none

/-- A query may end in a semicolon. -/
def ending : Rule Unit := do
  if (← peek).kind = .semicolon then advance else wanted (.token .semicolon)
  let _ ← expect .endOfQuery

/-- A whole query, with fuel for as many rules inside one another as it has tokens. The grammar is

    query       = [words] [HAVING conditions] [LIMIT number] [";"] end
    words       = formula over string literals
    conditions  = formula over condition
    formula     = conjunct (OR conjunct)*
    conjunct    = negated (AND negated)*
    negated     = NOT negated | "(" formula ")" | leaf
    condition   = target sign value | target [NOT] IN "(" value ("," value)* ")"
    target      = aggregate "(" key ")" | key
    key         = identifier ("." segment)*
    value       = ["-"] number | string literal | TRUE | FALSE | NULL

with at least one of words and conditions. Two tokens tell which alternative of a rule applies, so
nothing is read twice: the first rule that does not apply ends the reading, and everything that was
looked for where it stopped belongs to the report. -/
def query (fuel limit : Nat) : Rule Query := do
  let words ← leadingWords fuel limit
  let having ← conditions fuel limit
  if words.isNone ∧ having.isNone then fail
  else
    let count ← limitCount
    ending
    return ⟨words, having, count⟩

/-- Three rules are entered for each level of nesting, and each level takes a token. -/
def fuelFor (tokens : List Token) : Nat := 3 * tokens.length + 3

/-- The token at an index and, beyond the last one, the last. -/
def tokenAt (tokens : List Token) (index : Nat) : Token :=
  (tokens[index]? <|> tokens.getLast?).getD endToken

def report (tokens : List Token) (limit : Nat) (refusal : Refusal) (state : State) : SyntaxFault :=
  match refusal with
  | .tooDeep => .tooDeep (tokenAt tokens state.index).start limit
  | .unexpected =>
      let token := tokenAt tokens state.furthest
      .unexpected token.start state.expected (token.kind == .invalid)

/-- The query that tokens spell. -/
def run (tokens : List Token) (limit : Nat) : Outcome :=
  if (tokenAt tokens 0).kind = .endOfQuery then .empty
  else match query (fuelFor tokens) limit ⟨tokens, 0, 0, []⟩ with
    | .ok query _ => .parsed query
    | .error refusal state => .refused (report tokens limit refusal state)

end Parser

/-- Read a query. The first limit bounds the bytes of the text, the second the nesting of NOT and of
round brackets; 0 stands for no limit. -/
def parse (text : String) (sizeLimit depthLimit : Nat) : Outcome :=
  Parser.run (Lexer.significant text.toList sizeLimit) depthLimit

namespace Outcome

/-- The query of an outcome, none for an empty text. -/
def toExcept : Outcome → Except Fault (Option Query)
  | empty => .ok none
  | refused fault => .error (.badQuery fault.position fault.expected)
  | parsed query => .ok (some query)

end Outcome
end Concordance.Query
