import Concordance.Query.Token
import Concordance.Text.Blank

/-! Cutting a query into tokens. -/
namespace Concordance.Query

/-- The quotation mark of identifiers. -/
def backquote : Char := '\x60'

/-- The quotation mark of words and strings. -/
def apostrophe : Char := '\x27'

def isWordStart (c : Char) : Bool := c.isAlpha || c == '_' || 0x80 ≤ c.toNat

def isWordChar (c : Char) : Bool := c.isAlphanum || c == '_' || 0x80 ≤ c.toNat

/-- A dot is one only before such a character. -/
def followsDot : List Char → Bool
  | c :: _ => c.isAlphanum || c == '_' || c == backquote
  | [] => false

/-- The number of characters up to and with the mark that closes a quotation. A backslash escapes
the character after it, and a doubled mark stands for itself. -/
def quotationLength (mark : Char) : List Char → Option Nat
  | [] => none
  | [c] => if c ≠ '\\' ∧ c = mark then some 1 else none
  | c :: d :: rest =>
      if c = '\\' then (quotationLength mark rest).map (· + 2)
      else if c = mark then
        if d = mark then (quotationLength mark rest).map (· + 2) else some 1
      else (quotationLength mark (d :: rest)).map (· + 1)

/-- The number of characters up to and with the end of a block comment. -/
def blockLength : List Char → Option Nat
  | [] => none
  | [_] => none
  | c :: d :: rest =>
      if c = '*' ∧ d = '/' then some 2 else (blockLength (d :: rest)).map (· + 1)

/-- The number of characters of the number that a text starts with. -/
def numberLength (text : List Char) : Nat :=
  let whole := (text.takeWhile Char.isDigit).length
  match text.drop whole with
  | '.' :: rest =>
      let fraction := (rest.takeWhile Char.isDigit).length
      if fraction = 0 then whole else whole + 1 + fraction
  | _ => whole

/-- The kind and the number of characters of a quoted token, given what follows its mark. -/
def measureQuoted (kind : TokenKind) (mark : Char) (rest : List Char) : TokenKind × Nat :=
  match quotationLength mark rest with
  | some length => (kind, length + 1)
  | none => (.invalid, rest.length + 1)

/-- The tokens that begin with an operator sign, given what follows it. -/
def measureOperator (c : Char) (rest : List Char) : Option (TokenKind × Nat) :=
  match c, rest with
  | '=', '=' :: _ => some (.equals, 2)
  | '=', _ => some (.equals, 1)
  | '!', '=' :: _ => some (.notEquals, 2)
  | '<', '=' :: _ => some (.lessOrEquals, 2)
  | '<', '>' :: _ => some (.notEquals, 2)
  | '<', _ => some (.less, 1)
  | '>', '=' :: _ => some (.greaterOrEquals, 2)
  | '>', _ => some (.greater, 1)
  | '|', '|' :: _ => some (.concatenation, 2)
  | '-', '-' :: _ => some (.comment, 1 + (rest.takeWhile (· != '\n')).length)
  | '-', _ => some (.minus, 1)
  | '/', '*' :: inner =>
      match blockLength inner with
      | some length => some (.comment, length + 2)
      | none => some (.invalid, rest.length + 1)
  | '/', _ => some (.slash, 1)
  | _, _ => none

/-- The tokens of a single sign. -/
def signKind? (c : Char) : Option TokenKind :=
  match c with
  | '(' => some .openRound
  | ')' => some .closeRound
  | '[' => some .openSquare
  | ']' => some .closeSquare
  | '\x7b' => some .openCurly
  | '\x7d' => some .closeCurly
  | ',' => some .comma
  | ';' => some .semicolon
  | '*' => some .asterisk
  | '+' => some .plus
  | _ => none

/-- The kind of the first token of a text and the number of its characters. The kind of the last
significant token before it decides whether a dot is one. -/
def measure (previous : Option TokenKind) (c : Char) (rest : List Char) : TokenKind × Nat :=
  if Text.isAsciiBlank c then (.blank, 1 + (rest.takeWhile Text.isAsciiBlank).length)
  else if c.isDigit then (.number, numberLength (c :: rest))
  else if c = apostrophe then measureQuoted .stringLiteral c rest
  else if c = backquote then measureQuoted .quotedIdentifier c rest
  else if isWordStart c then (.bareWord, 1 + (rest.takeWhile isWordChar).length)
  else if c = '.' then
    (if followsDot rest && previous.any TokenKind.isOperand then .dot else .invalid, 1)
  else match signKind? c with
    | some kind => (kind, 1)
    | none => (measureOperator c rest).getD (.invalid, 1)

theorem numberLength_pos {c : Char} {rest : List Char} (digit : c.isDigit = true) :
    0 < numberLength (c :: rest) := by
  simp only [numberLength, List.takeWhile_cons, digit, if_true, List.length_cons]
  split
  · split <;> omega
  · omega

theorem measureQuoted_spec (kind : TokenKind) (mark : Char) (rest : List Char)
    (plain : kind ≠ .endOfQuery) : 0 < (measureQuoted kind mark rest).2 ∧
      (measureQuoted kind mark rest).1 ≠ .endOfQuery := by
  unfold measureQuoted
  split <;> simp [plain]

theorem measureOperator_spec (c : Char) (rest : List Char) :
    0 < ((measureOperator c rest).getD (.invalid, 1)).2 ∧
      ((measureOperator c rest).getD (.invalid, 1)).1 ≠ .endOfQuery := by
  unfold measureOperator
  grind

theorem signKind?_ne {c : Char} {kind : TokenKind} (found : signKind? c = some kind) :
    kind ≠ .endOfQuery := by
  unfold signKind? at found
  grind

/-- The first token of a text has a character, and is not the end. -/
theorem measure_spec (previous : Option TokenKind) (c : Char) (rest : List Char) :
    0 < (measure previous c rest).2 ∧ (measure previous c rest).1 ≠ .endOfQuery := by
  unfold measure
  split
  next => exact ⟨by simp only; omega, by simp⟩
  split
  next digit => exact ⟨numberLength_pos digit, by simp⟩
  split
  next => exact measureQuoted_spec _ c rest (by simp)
  split
  next => exact measureQuoted_spec _ c rest (by simp)
  split
  next => exact ⟨by simp only; omega, by simp⟩
  split
  next => exact ⟨Nat.one_pos, by simp only; split <;> simp⟩
  split
  next kind found => exact ⟨Nat.one_pos, signKind?_ne found⟩
  next => exact measureOperator_spec c rest

theorem isSignificant_of_isFinal {kind : TokenKind} (final : kind.isFinal = true) :
    kind.isSignificant = true := by
  cases kind <;> simp_all [TokenKind.isFinal, TokenKind.isSignificant]

/-- A reader of tokens: what is left of the query, the number of bytes before it, and the kind of
the last significant token. Tokens that end beyond the limit are invalid; 0 stands for no limit. -/
structure Lexer where
  limit : Nat
  rest : List Char
  offset : Nat
  previous : Option TokenKind
deriving DecidableEq, Repr

namespace Lexer

def ofText (query : List Char) (limit : Nat) : Lexer := ⟨limit, query, 0, none⟩

/-- The kind that the limit leaves to a token. -/
def limitKind (limit : Nat) (token : Token) : TokenKind :=
  if limit ≠ 0 ∧ limit < token.stop then .invalid else token.kind

/-- The next token before the limit is applied. -/
def scan (lexer : Lexer) : Token :=
  match lexer.rest with
  | [] => ⟨.endOfQuery, lexer.offset, []⟩
  | c :: rest =>
      let measured := measure lexer.previous c rest
      ⟨measured.1, lexer.offset, (c :: rest).take measured.2⟩

/-- The next token. After the last character this is an empty token, for ever. -/
def next (lexer : Lexer) : Token × Lexer :=
  let token := lexer.scan
  let token := { token with kind := limitKind lexer.limit token }
  (token,
    { lexer with
      rest := lexer.rest.drop token.lexeme.length
      offset := token.stop
      previous := if token.kind.isSignificant then some token.kind else lexer.previous })

/-- Before the last character the next token takes something of the text. -/
theorem length_next {lexer : Lexer} (more : lexer.rest ≠ []) :
    lexer.next.2.rest.length < lexer.rest.length := by
  obtain ⟨c, rest, cons⟩ := List.exists_cons_of_ne_nil more
  have long := (measure_spec lexer.previous c rest).1
  simp only [next, scan, cons, List.length_drop, List.length_take, List.length_cons]
  omega

theorem isFinal_next {lexer : Lexer} (nothing : lexer.rest = []) :
    lexer.next.1.kind.isFinal = true := by
  simp only [next, scan, nothing, limitKind]
  split <;> rfl

/-- The tokens up to the first final one, at most as many as the fuel. -/
def tokensFrom : Nat → Lexer → List Token
  | 0, _ => []
  | fuel + 1, lexer =>
      let (token, following) := lexer.next
      if token.kind.isFinal then [token] else token :: tokensFrom fuel following

/-- The significant tokens of a query up to the first final one. -/
def significant (query : List Char) (limit : Nat) : List Token :=
  (tokensFrom (query.length + 1) (ofText query limit)).filter (·.kind.isSignificant)

/-- Every token of a query to its end. Invalid tokens do not end it. -/
def allFrom : Nat → Lexer → List Token
  | 0, _ => []
  | fuel + 1, lexer =>
      let (token, following) := lexer.next
      if lexer.rest.isEmpty then [token] else token :: allFrom fuel following

def all (query : List Char) (limit : Nat) : List Token :=
  allFrom (query.length + 1) (ofText query limit)

end Lexer

/-- What the characters inside a quotation stand for. -/
def unescape (mark : Char) : List Char → List Char
  | [] => []
  | [c] => if c = '\\' then [] else [c]
  | c :: d :: rest =>
      if c = '\\' then
        (match d with
          | 'n' => '\n'
          | 't' => '\t'
          | 'r' => '\r'
          | '0' => '\x00'
          | other => other) :: unescape mark rest
      else if c = mark ∧ d = mark then c :: unescape mark rest
      else c :: unescape mark (d :: rest)

/-- The text inside a quotation. A text that does not end in the mark it starts with is left as it
is. -/
def unquote (raw : List Char) : List Char :=
  match raw with
  | mark :: d :: rest =>
      if (d :: rest).getLast? = some mark then unescape mark ((d :: rest).dropLast) else raw
  | _ => raw

end Concordance.Query
