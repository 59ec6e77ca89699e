import Concordance.Extract.Line
import Concordance.Text.Split

/-! Words of a file with the place where they start. -/
namespace Concordance.Extract

/-- A word and the number of bytes before it in its file. -/
structure Word where
  text : String
  offset : Nat
deriving DecidableEq, Repr

/-- The space, the comma, the full stop, the tab and the newline. -/
def proseSeparators : Bytes := [0x20, 0x2c, 0x2e, 0x09, 0x0a]

/-- The separators of prose and the signs around the names and values of JSON objects. -/
def jsonSeparators : Bytes := [0x20, 0x22, 0x7b, 0x7d, 0x3a, 0x2c, 0x2e, 0x09, 0x0a]

/-- The word of what stands between two separators. -/
def wordOf? (offset : Nat) (token : Bytes) : Option Word :=
  let trimmed := trimEnd (trimStart token)
  if trimmed.isEmpty then none
  else (Utf8.decode? trimmed).map fun text => ⟨text, offset + indent token⟩

/-- The words of tokens that stand one after another with a separator between neighbours. -/
def wordsFrom : Nat → List Bytes → List Word
  | _, [] => []
  | offset, token :: rest =>
      (wordOf? offset token).toList ++ wordsFrom (offset + token.length + 1) rest

/-- The words of a line. -/
def splitLine (separators : Bytes) (line : Line) : List Word :=
  wordsFrom line.offset (Text.pieces separators.contains line.bytes)

/-- The words of a file in the order in which they stand there. -/
def wordsOf (separators content : Bytes) : List Word :=
  (linesOf content).flatMap (splitLine separators)

end Concordance.Extract
