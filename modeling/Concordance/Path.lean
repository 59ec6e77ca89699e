import Concordance.Text.Casing
import Concordance.Text.Split
import Concordance.Text.Utf8

/-! Names of files. -/
namespace Concordance

/-- A path is spelt in any bytes, which need not be text. -/
structure Path where
  bytes : Bytes
deriving DecidableEq, Repr

namespace Path

/-- The path as it is shown and written. -/
def text (path : Path) : String := String.ofList (Utf8.lossy path.bytes)

/-- The path that is read where this one is written. -/
def written (path : Path) : Path := ⟨path.text⟩

/-- A path spelt in text comes back as it is when it is written. -/
def IsText (path : Path) : Prop := path.written = path

instance (path : Path) : Decidable path.IsText := inferInstanceAs (Decidable (_ = _))

def slash : UInt8 := 0x2f

def dot : UInt8 := 0x2e

/-- One step of a path. -/
inductive Part where
  | root
  | here
  | up
  | name (spelling : Bytes)
deriving DecidableEq, Repr

namespace Part

def rank : Part → Nat
  | root => 0
  | here => 1
  | up => 2
  | name _ => 3

def bytes : Part → Bytes
  | root => [slash]
  | here => [dot]
  | up => [dot, dot]
  | name spelling => spelling

/-- Names come last, in the order of their bytes. -/
instance : Ord Part := ⟨compareLex (compareOn rank) (compareOn bytes)⟩

instance : Std.TransOrd Part :=
  inferInstanceAs (Std.TransCmp (compareLex (compareOn rank) (compareOn bytes)))

instance : Std.LawfulEqOrd Part where
  compare_self := Std.ReflCmp.compare_self
  eq_of_compare {first second} same := by
    have both := Ordering.then_eq_eq.mp same
    have ranks : first.rank = second.rank := Std.LawfulEqOrd.eq_of_compare (α := Nat) both.1
    have spellings : first.bytes = second.bytes :=
      Std.LawfulEqOrd.eq_of_compare (α := Bytes) both.2
    clear same both
    cases first <;> cases second <;> simp_all [rank, bytes]

end Part

/-- What stands between the slashes. -/
def pieces (path : Path) : List Bytes := Text.pieces (· == slash) path.bytes

def isAbsolute (path : Path) : Bool := path.bytes.head? == some slash

/-- The step that a piece stands for. An empty piece and a dot stand for none. -/
def partOf? (piece : Bytes) : Option Part :=
  if piece = [] ∨ piece = [dot] then none
  else if piece = [dot, dot] then some .up
  else some (.name piece)

/-- The steps of a path. A dot counts only at the start. -/
def parts (path : Path) : List Part :=
  let start : List Part :=
    if path.isAbsolute then [.root]
    else if path.pieces.head? = some [dot] then [.here]
    else []
  start ++ path.pieces.filterMap partOf?

/-- Paths are ordered step by step. -/
instance : Ord Path := ⟨compareOn parts⟩

instance : Std.TransOrd Path := inferInstanceAs (Std.TransCmp (compareOn parts))

def sort (paths : List Path) : List Path :=
  paths.mergeSort fun first second => (compare first second).isLE

/-- The path of a name below a directory. -/
def child (directory : Path) (name : Bytes) : Path :=
  match directory.bytes.getLast? with
  | none => ⟨name⟩
  | some last =>
      if last = slash then ⟨directory.bytes ++ name⟩ else ⟨directory.bytes ++ slash :: name⟩

/-- The path that names lead to from a directory. -/
def descend (directory : Path) (names : List Bytes) : Path := names.foldl child directory

/-- The path spelt with nothing but its steps. -/
def ofParts : List Part → Path
  | [] => ⟨[]⟩
  | first :: rest => descend ⟨first.bytes⟩ (rest.map Part.bytes)

/-- The last step when it is a name. -/
def fileName? (path : Path) : Option Bytes :=
  match path.parts.getLast? with
  | some (.name spelling) => some spelling
  | _ => none

/-- The part of a file name after its last dot. A name that only starts with a dot has none. -/
def suffix? (name : Bytes) : Option Bytes :=
  let reversed := name.reverse
  match reversed.dropWhile (· != dot) with
  | [] | [_] => none
  | _ => some (reversed.takeWhile (· != dot)).reverse

/-- The extension of a file in lower case, empty when it has none. -/
def fileExtension (path : Path) : String :=
  String.ofList (Text.lower (Utf8.lossy ((path.fileName?.bind suffix?).getD [])))

end Path
end Concordance
