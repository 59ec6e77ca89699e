import Concordance.Disk
import Concordance.Document
import Concordance.Extract.Flatten
import Concordance.Extract.Word

/-! What a file gives to the catalog: its words, its metadata and its kind. -/
namespace Concordance.Extract

structure Extraction where
  words : List Word
  metadata : Metadata
  kind : DocumentKind

namespace Extraction

/-- A file without words is not indexed. -/
def isValid (extraction : Extraction) : Bool := !extraction.words.isEmpty

def wordCount (extraction : Extraction) : UInt64 := UInt64.ofNat extraction.words.length

/-- The content of a file by its extension. Only JSON has metadata, and none when it is not well
formed. -/
def ofContent (path : Path) (content : Bytes) : Extraction :=
  let extension := path.fileExtension
  if extension = "json" then
    let metadata := match flattenBytes content with
      | .ok metadata => metadata
      | .error _ => .empty
    ⟨wordsOf jsonSeparators content, metadata, .json⟩
  else ⟨wordsOf proseSeparators content, .empty, .ofExtension extension⟩

def ofFile (disk : Disk) (path : Path) : Except Fault Extraction :=
  match disk.read path with
  | .ok content => .ok (ofContent path content)
  | .error fault => .error (.disk fault)

end Extraction
end Concordance.Extract
