import Concordance.Catalog
import Concordance.Disk

/-! Catalogs on disk. -/
namespace Concordance

/-- What is kept of a catalog in the file `meta` of its directory. -/
structure Snapshot where
  nextId : DocId
  terms : OrderedMap String Posting
  documents : OrderedMap DocId Document

namespace Snapshot

def write (snapshot : Snapshot) : Bytes :=
  Concordance.write snapshot.nextId ++ Concordance.write snapshot.terms ++
    Concordance.write snapshot.documents

/-- A document after the number it is filed under. -/
def readDocument : Reader (DocId × Document) := do
  let filed : DocId ← Binary.read
  let document : Document ← Binary.read
  if document.id ≠ filed then throw (.corrupted (.misfiledDocument document.id filed))
  else return (filed, document)

/-- The whole of the bytes is one snapshot, and no document has a number that is yet to be taken. -/
def read : Reader Snapshot := do
  let nextId : DocId ← Binary.read
  let terms : OrderedMap String Posting ← Binary.read
  let documents : OrderedMap DocId Document := .ofList (← Codec.readList readDocument)
  let rest ← get
  if !rest.isEmpty then throw (.corrupted (.trailingBytes rest.length))
  else if nextId == 0 || documents.keys.any (nextId ≤ ·) then throw (.corrupted .idBeyondCounter)
  else return ⟨nextId, terms, documents⟩

def ofBytes (bytes : Bytes) : Except Fault Snapshot :=
  match read bytes with
  | .ok snapshot _ => .ok snapshot
  | .error fault _ => .error fault

end Snapshot

namespace Catalog

def snapshot (catalog : Catalog) : Snapshot := ⟨catalog.nextId, catalog.terms, catalog.documents⟩

/-- The catalog with the content of a snapshot. -/
def install (catalog : Catalog) (snapshot : Snapshot) : Catalog :=
  touch { catalog with
    nextId := snapshot.nextId
    terms := snapshot.terms
    documents := snapshot.documents
    vocabulary :=
      snapshot.terms.keys.foldl (fun vocabulary word => vocabulary.insert word.toList) .empty }

def snapshotPath (directory : Path) : Path := directory.child "meta"

def usagePath (directory : Path) : Path := directory.child "telemetry"

/-- The directory is missing, or it is one. -/
def checkDirectory (disk : Disk) (directory : Path) : Except Fault Unit :=
  if disk.holds directory ∧ disk.isDirectory directory = false then
    .error (.databasePath directory.text .notADirectory)
  else .ok ()

def readSnapshot (disk : Disk) (directory : Path) : Except Fault Snapshot := do
  Snapshot.ofBytes (← (disk.read (snapshotPath directory)).mapError .disk)

/-- The log beside a snapshot, empty when it is missing or cannot be read. -/
def readUsage (disk : Disk) (directory : Path) : UsageLog :=
  match disk.read (usagePath directory) with
  | .ok bytes => ((UsageLog.ofBytes bytes).toOption).getD .empty
  | .error _ => .empty

/-- An empty catalog in a directory, which is made where it is missing. -/
def create (directory : Path) : Disk.Action Catalog := do
  let disk ← get
  Disk.check (checkDirectory disk directory)
  Disk.makeDirectories directory
  return .empty directory .empty

/-- The catalog that a directory holds. -/
def load (disk : Disk) (directory : Path) : Except Fault Catalog := do
  checkDirectory disk directory
  if disk.holds directory then
    let snapshot ← readSnapshot disk directory
    return (empty directory (readUsage disk directory)).install snapshot
  else throw (.databasePath directory.text .missing)

/-- The catalog that a directory holds, or an empty one where none has been written. -/
def loadOrCreate (directory : Path) : Disk.Action Catalog := do
  let disk ← get
  if disk.holds (snapshotPath directory) then Disk.check (load disk directory)
  else create directory

/-- Goes back to the content of the file. It is read before anything is replaced. -/
def reload (disk : Disk) : EStateM Fault Catalog Unit := do
  let snapshot ← MonadExcept.ofExcept (readSnapshot disk (← get).directory)
  modify fun catalog => catalog.install snapshot

/-- Writes a file beside its place and then gives it its name. -/
def replaceFile (directory : Path) (name : Bytes) (content : Bytes) (now : Int) :
    Disk.Action Unit := do
  let draft := directory.child (name ++ ".tmp")
  Disk.change fun disk => disk.write draft content now
  Disk.change fun disk => disk.rename draft (directory.child name)

/-- Writes the catalog and its log to its directory. -/
def flush (catalog : Catalog) (now : Int) : Disk.Action Unit := do
  Disk.makeDirectories catalog.directory
  replaceFile catalog.directory "meta" catalog.snapshot.write now
  replaceFile catalog.directory "telemetry" catalog.usage.write now

end Catalog
end Concordance
