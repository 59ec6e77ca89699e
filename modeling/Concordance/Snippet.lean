import Concordance.Disk
import Concordance.Document

/-! Excerpts of a file around a match. -/
namespace Concordance

/-- What is shown for bytes that are no text. -/
def undecodableText : String := "<unable to decode text>"

/-- The least number of bytes that an excerpt has to keep after its ends were trimmed. -/
def minRepairedWidth : Nat := 8

/-- The number of bytes that an excerpt of a width takes before a match. What is left beside the
match goes to both sides in equal parts, and a side that is too short leaves its part to the
other. -/
def leftContext (offset length width size : Nat) : Nat :=
  if width ≤ length then 0
  else
    let extra := width - length
    let rest := size - offset
    if offset < extra / 2 then offset
    else if rest < (extra + 1) / 2 + length then min (width - rest) offset
    else extra / 2

/-- The bytes of an excerpt around a match. -/
def excerpt (content : Bytes) (offset length width : Nat) : Bytes :=
  let left := leftContext offset length width content.length
  (content.drop (offset - left)).take (max width length)

/-- The bytes without those that continue a character at their start, if there are few. -/
def dropTails (bytes : Bytes) : Bytes :=
  if (bytes.take 4).all Utf8.isTail then [] else bytes.dropWhile Utf8.isTail

/-- The text of bytes whose ends may cut characters. Bytes that are no text in between, or a text
that gets too short, cannot be shown. -/
def repairText (bytes : Bytes) : String :=
  match Utf8.decode? bytes with
  | some text => text
  | none =>
      let rest := dropTails bytes
      let kept := match Utf8.decode rest with
        | .ok text => text
        | .error ⟨index, none⟩ => ((Utf8.decode (rest.take index)).toOption).getD []
        | .error _ => []
      if minRepairedWidth ≤ Utf8.width kept then String.ofList kept else undecodableText

/-- The text around a match in a file. -/
def snippet (content : Bytes) (offset length width : Nat) : String :=
  repairText (excerpt content offset length width)

/-- The space that a directory takes on a disk. -/
def directorySize : Nat := 4096

namespace Document

/-- The present size of the file of a document. -/
def fileSize (document : Document) (disk : Disk) : Except Fault Nat :=
  match disk.look document.path with
  | .ok (.file content _) => .ok content.length
  | .ok .directory => .ok directorySize
  | .ok _ => .ok 0
  | .error fault => .error (.disk fault)

/-- The first place that no file reaches. -/
def unreachableOffset : Nat := 0x8000000000000000

/-- The text around a match in the file of a document, as the file is now. Where no byte is wanted,
nothing is read. -/
def snippet (document : Document) (disk : Disk) (offset length width : Nat) :
    Except Fault String := do
  let size ← document.fileSize disk
  if unreachableOffset ≤ offset - leftContext offset length width size then
    throw (.disk .badOffset)
  else if max width length = 0 then return ""
  else
    let content ← (disk.read document.path).mapError .disk
    return Concordance.snippet content offset length width

end Document
end Concordance
