import Concordance.Path
import Concordance.Posting

/-! What is known of a file since it was indexed, and what readers have added. -/
namespace Concordance

/-- What the content of a file is. -/
inductive DocumentKind where
  | prose
  | csv
  | json
  | blob
  | unknown
deriving DecidableEq, Repr

namespace DocumentKind

def all : List DocumentKind := [prose, csv, json, blob, unknown]

def name : DocumentKind → String
  | prose => "normal"
  | csv => "csv"
  | json => "json"
  | blob => "blob"
  | unknown => "unknown"

def tag : DocumentKind → UInt8
  | prose => 0
  | csv => 1
  | json => 2
  | blob => 3
  | unknown => 4

def ofTag (tag : UInt8) : Except Fault DocumentKind :=
  if tag = 0 then .ok prose
  else if tag = 1 then .ok csv
  else if tag = 2 then .ok json
  else if tag = 3 then .ok blob
  else if tag = 4 then .ok unknown
  else .error (.corrupted (.unknownDocumentTag tag))

/-- The kind of file that a lower case extension stands for. -/
def ofExtension (extension : String) : DocumentKind :=
  if extension = "json" then json
  else if extension ∈ ["csv", "tsv"] then csv
  else if extension ∈ ["pdf", "doc", "docx", "xls", "xlsx", "ppt", "pptx"] then blob
  else prose

theorem ofTag_tag (kind : DocumentKind) : ofTag kind.tag = .ok kind := by
  cases kind <;> rfl

def read : Reader DocumentKind := do
  match ofTag (← Codec.readByte) with
  | .ok kind => return kind
  | .error fault => throw fault

instance : Binary DocumentKind := ⟨fun kind => [kind.tag], read⟩

end DocumentKind

structure Comment where
  time : Moment
  text : String
deriving DecidableEq

instance : Binary Comment where
  write comment := write comment.time ++ write comment.text
  read := return ⟨← Binary.read, ← Binary.read⟩

/-- Facts about a file at the time it was indexed. -/
structure DocumentFacts where
  kind : DocumentKind
  modified : Moment
  wordCount : UInt64
deriving DecidableEq

/-- A document. Each user has at most one comment and one rating. -/
structure Document where
  id : DocId
  path : Path
  facts : DocumentFacts
  metadata : Metadata
  comments : OrderedMap String Comment
  ratings : OrderedMap String Number
deriving DecidableEq

namespace Document

def new (id : DocId) (path : Path) (facts : DocumentFacts) (metadata : Metadata) : Document :=
  ⟨id, path, facts, metadata, .empty, .empty⟩

def comment (document : Document) (user : String) (comment : Comment) : Document :=
  { document with comments := document.comments.insert user comment }

def uncomment (document : Document) (user : String) : Document :=
  { document with comments := document.comments.erase user }

def rate (document : Document) (user : String) (score : Number) : Document :=
  { document with ratings := document.ratings.insert user score }

/-- The number of ratings and their mean, 0 when there are none. -/
def ratingMean (document : Document) : Nat × Float :=
  match document.ratings.values with
  | [] => (0, 0.0)
  | scores =>
      let total := (scores.map Number.toFloat).foldl (· + ·) (-0.0)
      (scores.length, total / Float.ofNat scores.length)

def write (document : Document) : Bytes :=
  Concordance.write document.id ++ Concordance.write document.path.text ++
    Concordance.write document.metadata ++ Concordance.write document.facts.kind ++
    Concordance.write document.facts.modified ++ Concordance.write document.facts.wordCount ++
    Concordance.write document.comments ++ Concordance.write document.ratings

def read : Reader Document := do
  let id ← Binary.read
  let path : String ← Binary.read
  let metadata ← Binary.read
  let kind ← Binary.read
  let modified ← Binary.read
  let wordCount ← Binary.read
  let comments ← Binary.read
  let ratings ← Binary.read
  return ⟨id, ⟨path⟩, ⟨kind, modified, wordCount⟩, metadata, comments, ratings⟩

instance : Binary Document := ⟨write, read⟩

end Document
end Concordance
