import Concordance.Query.Lexer
import Concordance.Text.Slice

/-! Cutting the bytes of a query into tokens. -/
namespace Concordance.Query

/-- A byte, as the character of the same number. Every sign of the language is a single byte, so the
rules of `measure` can be put to bytes as well: one from 128 on belongs to a word, whatever character
it is a part of. -/
def letterOf (byte : UInt8) : Char := Char.ofNat byte.toNat

/-- A token as the places in the bytes of a query where it starts and stops. -/
structure Span where
  kind : TokenKind
  start : Nat
  stop : Nat
deriving DecidableEq, Repr

namespace Span

/-- The text of the token, if it starts and stops where characters begin. -/
def text? (span : Span) (query : String) : Option String :=
  Utf8.slice? (Utf8.bytes query) span.start span.stop

/-- The text of the token, and no text at all where it has none. -/
def text (span : Span) (query : String) : String := (span.text? query).getD ""

end Span

/-- A reader of tokens at a place in the bytes of a query, with the kind of the last significant
token. Tokens that stop beyond the limit are invalid; 0 stands for no limit. -/
structure Scanner where
  limit : Nat
  input : List UInt8
  position : Nat
  previous : Option TokenKind
deriving DecidableEq, Repr

namespace Scanner

def ofText (query : String) (limit : Nat) : Scanner := ⟨limit, Utf8.bytes query, 0, none⟩

/-- The kind that the limit leaves to a token. -/
def limitKind (limit : Nat) (span : Span) : TokenKind :=
  if limit ≠ 0 ∧ limit < span.stop then .invalid else span.kind

/-- The next token before the limit is applied. -/
def scan (scanner : Scanner) : Span :=
  match (scanner.input.drop scanner.position).map letterOf with
  | [] => ⟨.endOfQuery, scanner.position, scanner.position⟩
  | c :: rest =>
      let measured := measure scanner.previous c rest
      ⟨measured.1, scanner.position, scanner.position + measured.2⟩

/-- The next token, and the scanner that goes on after it. -/
def next (scanner : Scanner) : Span × Scanner :=
  let span := scanner.scan
  let span := { span with kind := limitKind scanner.limit span }
  (span,
    { scanner with
      position := span.stop
      previous := if span.kind.isSignificant then some span.kind else scanner.previous })

/-- The tokens to the end of the query, at most as many as the fuel. -/
def allFrom : Nat → Scanner → List Span
  | 0, _ => []
  | fuel + 1, scanner =>
      let (span, following) := scanner.next
      if scanner.input.length ≤ scanner.position then [span] else span :: allFrom fuel following

/-- Every token of a query to its end. -/
def all (query : String) (limit : Nat) : List Span :=
  allFrom ((Utf8.bytes query).length + 1) (ofText query limit)

end Scanner
end Concordance.Query
