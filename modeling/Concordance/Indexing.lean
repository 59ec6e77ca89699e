import Concordance.Catalog
import Concordance.Extract.Content
import Concordance.Settings

/-! How files get into the catalog. -/
namespace Concordance

/-- A file that has been read and is worth a document. -/
structure Indexable where
  path : Path
  modified : Moment
  extraction : Extract.Extraction

namespace Indexable

/-- What a path gives to the catalog. Nothing comes from what is no file, from an ignored extension
and from a file without words. -/
def ofFile (extensions : ExtensionSettings) (disk : Disk) (path : Path) :
    Except Fault (Option Indexable) :=
  match disk.look path with
  | .error fault => .error (.disk fault)
  | .ok (.file content modified) =>
      let extraction := Extract.Extraction.ofContent path content
      if extensions.isIgnored path || !extraction.isValid then .ok none
      else .ok (some ⟨path, disk.zone.moment modified, extraction⟩)
  | .ok _ => .ok none

/-- Files that give something, in the order of their paths in the list. What cannot be read is left
out. -/
def ofFiles (extensions : ExtensionSettings) (disk : Disk) (paths : List Path) : List Indexable :=
  paths.filterMap fun path =>
    match ofFile extensions disk path with
    | .ok item => item
    | .error _ => none

def document (item : Indexable) (id : DocId) : Document :=
  .new id item.path ⟨item.extraction.kind, item.modified, item.extraction.wordCount⟩
    item.extraction.metadata

end Indexable

namespace Catalog

/-- Every word of a list stands in a document. -/
def addWords (catalog : Catalog) (id : DocId) (words : List Extract.Word) : Catalog :=
  words.foldl (fun catalog word => catalog.addPlace word.text id (UInt64.ofNat word.offset)) catalog

/-- A file becomes a document under a fresh number. -/
def register (catalog : Catalog) (item : Indexable) : DocId × Catalog :=
  let (id, catalog) := catalog.allocate
  (id, (catalog.addWords id item.extraction.words).addDocument (item.document id))

def registerAll (catalog : Catalog) : List Indexable → List (Path × DocId) × Catalog
  | [] => ([], catalog)
  | item :: rest =>
      let (id, catalog) := catalog.register item
      let (others, catalog) := catalog.registerAll rest
      ((item.path, id) :: others, catalog)

/-- Indexes the file of a path. -/
def indexFile (catalog : Catalog) (extensions : ExtensionSettings) (disk : Disk) (path : Path) :
    Except Fault (Option DocId × Catalog) := do
  match ← Indexable.ofFile extensions disk path with
  | none => return (none, catalog)
  | some item =>
      let (id, catalog) := catalog.register item
      return (some id, catalog)

/-- Indexes files in the order of a list. -/
def indexFiles (catalog : Catalog) (extensions : ExtensionSettings) (disk : Disk)
    (paths : List Path) : List (Path × DocId) × Catalog :=
  catalog.registerAll (Indexable.ofFiles extensions disk paths)

end Catalog

/-- The order in which the entries of a directory are listed. -/
abbrev Listing := Path → List (Bytes × Entry) → List (Bytes × Entry)

/-- A search for files on its way: the directories that are still to be read, the next one first, and
the files that have been found. -/
structure Gathering where
  pending : List Path
  files : List Path

namespace Gathering

/-- A file, or a link to one, that has an allowed extension. -/
def accepts (extensions : ExtensionSettings) (disk : Disk) (path : Path) : Bool :=
  extensions.isAllowed path && (disk.file? path).isSome

/-- Leaves a directory for later and keeps a file. A link to a directory is no directory. -/
def note (extensions : ExtensionSettings) (disk : Disk) (directory : Path) (gathering : Gathering)
    (entry : Bytes × Entry) : Gathering :=
  let path := directory.child entry.1
  if entry.2 = .directory then { gathering with pending := path :: gathering.pending }
  else if accepts extensions disk path then { gathering with files := gathering.files ++ [path] }
  else gathering

/-- The entries of a directory as they are listed. One that cannot be read is passed over. -/
def entriesOf (listing : Listing) (disk : Disk) (directory : Path) : List (Bytes × Entry) :=
  match disk.readDirectory directory with
  | .ok entries => listing directory entries
  | .error _ => []

/-- Reads the next directory, and again, for so many turns. -/
def run (listing : Listing) (extensions : ExtensionSettings) (disk : Disk) :
    Nat → Gathering → Gathering
  | 0, gathering => gathering
  | _ + 1, ⟨[], files⟩ => ⟨[], files⟩
  | turns + 1, ⟨directory :: pending, files⟩ =>
      run listing extensions disk turns <|
        (entriesOf listing disk directory).foldl (note extensions disk directory) ⟨pending, files⟩

/-- The search below a directory. No directory is read twice, so there are turns for all. -/
def below (listing : Listing) (extensions : ExtensionSettings) (disk : Disk) (root : Path) :
    Gathering :=
  run listing extensions disk (disk.entries.size + 1) ⟨[root], []⟩

end Gathering

/-- The files to index for a path: those with an allowed extension below a directory, in the order of
their paths, and any path that is no directory as it is. -/
def collectListed (listing : Listing) (extensions : ExtensionSettings) (disk : Disk) (root : Path) :
    Except Fault (List Path) :=
  match disk.look root with
  | .error fault => .error (.disk fault)
  | .ok .directory =>
      match disk.readDirectory root with
      | .error fault => .error (.disk fault)
      | .ok _ => .ok (Path.sort (Gathering.below listing extensions disk root).files)
  | .ok _ => .ok [root]

def collectFiles (extensions : ExtensionSettings) (disk : Disk) (root : Path) :
    Except Fault (List Path) :=
  collectListed (fun _ entries => entries) extensions disk root

/-- Indexes a file, or all files below a directory that can be read. -/
def Catalog.index (catalog : Catalog) (extensions : ExtensionSettings) (disk : Disk) (path : Path) :
    Except Fault (List DocId × Catalog) :=
  match disk.look path with
  | .error fault => .error (.disk fault)
  | .ok (.file _ _) => do
      let (id, catalog) ← catalog.indexFile extensions disk path
      return (id.toList, catalog)
  | .ok _ => do
      let (indexed, catalog) :=
        catalog.indexFiles extensions disk (← collectFiles extensions disk path)
      return (indexed.map Prod.snd, catalog)

end Concordance
