import Concordance.Codec

/-! Lines of a file with the place where they start. -/
namespace Concordance.Extract

/-- The space, every control and the delete sign. -/
def isTrimmable (byte : UInt8) : Bool := byte ≤ 0x20 || byte == 0x7f

/-- The bytes without the trimmable ones at their start. -/
def trimStart (bytes : Bytes) : Bytes := bytes.dropWhile isTrimmable

def trimEnd (bytes : Bytes) : Bytes := (bytes.reverse.dropWhile isTrimmable).reverse

/-- The number of trimmable bytes at the start. -/
def indent (bytes : Bytes) : Nat := (bytes.takeWhile isTrimmable).length

/-- A line and the number of bytes before it in its file. -/
structure Line where
  offset : Nat
  bytes : Bytes
deriving DecidableEq, Repr

/-- The bytes cut after every newline. -/
def cutLines : Bytes → List Bytes
  | [] => []
  | byte :: rest =>
      if byte = 0x0a then [byte] :: cutLines rest
      else match cutLines rest with
        | [] => [[byte]]
        | line :: more => (byte :: line) :: more

/-- A reader of the lines of a file: the lines that are left, the number of bytes before them, and
the place of the last line that was read. -/
structure LineReader where
  content : Bytes
  pending : List Bytes
  position : Nat
  offset : Nat
deriving DecidableEq, Repr

namespace LineReader

def ofBytes (content : Bytes) : LineReader := ⟨content, cutLines content, 0, 0⟩

/-- The reader before its first line. -/
def reset (reader : LineReader) : LineReader := ofBytes reader.content

/-- The first line that is not blank among lines that start at a place, and what follows it. -/
def seek : Nat → List Bytes → Option Line × Nat × List Bytes
  | position, [] => (none, position, [])
  | position, raw :: rest =>
      if (trimStart raw).isEmpty then seek (position + raw.length) rest
      else (some ⟨position + indent raw, trimEnd (trimStart raw)⟩, position + raw.length, rest)

def next (reader : LineReader) : Option Line × LineReader :=
  let (line, position, pending) := seek reader.position reader.pending
  (line, { reader with pending, position, offset := (line.map Line.offset).getD reader.offset })

end LineReader

/-- The lines that are not blank, given where the first of them starts. -/
def linesFrom : Nat → List Bytes → List Line
  | _, [] => []
  | position, raw :: rest =>
      let following := linesFrom (position + raw.length) rest
      if (trimStart raw).isEmpty then following
      else ⟨position + indent raw, trimEnd (trimStart raw)⟩ :: following

/-- The lines of a file that are not blank. -/
def linesOf (content : Bytes) : List Line := linesFrom 0 (cutLines content)

end Concordance.Extract
