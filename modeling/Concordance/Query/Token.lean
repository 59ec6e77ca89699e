import Concordance.Text.Utf8

namespace Concordance.Query

inductive TokenKind where
  | blank
  | comment
  | bareWord
  | number
  | stringLiteral
  | quotedIdentifier
  | openRound
  | closeRound
  | openSquare
  | closeSquare
  | openCurly
  | closeCurly
  | comma
  | semicolon
  | dot
  | asterisk
  | slash
  | plus
  | minus
  | equals
  | notEquals
  | less
  | greater
  | lessOrEquals
  | greaterOrEquals
  | concatenation
  | endOfQuery
  | invalid
deriving DecidableEq, Repr

namespace TokenKind

/-- Blanks and comments mean nothing to the grammar. -/
def isSignificant : TokenKind → Bool
  | blank | comment => false
  | _ => true

/-- Nothing after such a token is read. -/
def isFinal : TokenKind → Bool
  | endOfQuery | invalid => true
  | _ => false

/-- A dot may follow such a token. -/
def isOperand : TokenKind → Bool
  | bareWord | number | quotedIdentifier => true
  | _ => false

/-- The words for a kind of token in a message. -/
def describe : TokenKind → String
  | blank => "whitespace"
  | comment => "comment"
  | bareWord => "word"
  | number => "number"
  | stringLiteral => "string literal"
  | quotedIdentifier => "quoted identifier"
  | openRound => "'('"
  | closeRound => "')'"
  | openSquare => "'['"
  | closeSquare => "']'"
  | openCurly => "'\x7b'"
  | closeCurly => "'\x7d'"
  | comma => "','"
  | semicolon => "';'"
  | dot => "'.'"
  | asterisk => "'*'"
  | slash => "'/'"
  | plus => "'+'"
  | minus => "'-'"
  | equals => "'='"
  | notEquals => "'!='"
  | less => "'<'"
  | greater => "'>'"
  | lessOrEquals => "'<='"
  | greaterOrEquals => "'>='"
  | concatenation => "'||'"
  | endOfQuery => "end of query"
  | invalid => "invalid token"

end TokenKind

/-- A piece of a query, with the number of bytes that stand before it. -/
structure Token where
  kind : TokenKind
  start : Nat
  lexeme : List Char
deriving DecidableEq, Repr

namespace Token

def width (token : Token) : Nat := Utf8.width token.lexeme

/-- The number of bytes up to the end of the token. -/
def stop (token : Token) : Nat := token.start + token.width

def text (token : Token) : String := String.ofList token.lexeme

end Token
end Concordance.Query
