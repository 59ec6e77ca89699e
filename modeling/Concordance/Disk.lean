import Concordance.Calendar
import Concordance.Fault
import Concordance.Ordered.Map
import Concordance.Path

/-! A disk: files, directories and links under the names that lead to them from the root. -/
namespace Concordance

/-- The names that lead to an entry from the root. -/
abbrev Location := List Bytes

/-- Locations are ordered name by name. -/
instance : Std.TransOrd Location := inferInstance

/-- What stands at a location. A file and a device bear the second of their last change; a device of
which nothing else is known counts as changed after every file. -/
inductive Entry where
  | file (content : Bytes) (modified : Int)
  | directory
  | link (target : Bytes)
  | device (modified : Int := 0x7fffffff)
deriving DecidableEq

/-- What is stored at each location. The root is always a directory. Relative paths start from the
working directory, and the seconds of files are shown in the time of the zone. -/
structure Disk where
  entries : OrderedMap Location Entry
  workingDirectory : Location
  zone : Zone

namespace Disk

open Path (dot)

def empty : Disk := ⟨.empty, [], .world⟩

def entry? (disk : Disk) (location : Location) : Option Entry :=
  if location = [] then some .directory else disk.entries.get? location

/-- The number of links that are followed for one path. -/
def maxLinks : Nat := 40

/-- The greatest number of bytes in one name. -/
def maxNameWidth : Nat := 255

/-- The greatest number of bytes in a path. -/
def maxPathWidth : Nat := 4095

def isNameTooLong (name : Bytes) : Bool := maxNameWidth < name.length

/-- What a path leads to: an entry, or a free name in a directory. With a slash after it the name is
one for a directory only. -/
inductive Place where
  | taken (location : Location) (entry : Entry)
  | free (location : Location) (hasSlash : Bool)

/-- The place that pieces of a path lead to from a location, where no more links are followed than
are left. -/
def walk (disk : Disk) (links : Nat) (start : Location) : List Bytes → Except DiskFault Place
  | [] => .ok (.taken start .directory)
  | piece :: rest =>
      if piece = [] ∨ piece = [dot] then walk disk links start rest
      else if piece = [dot, dot] then walk disk links start.dropLast rest
      else if isNameTooLong piece then .error .nameTooLong
      else
        let location := start ++ [piece]
        match disk.entry? location with
        | none => if rest.all List.isEmpty then .ok (.free location !rest.isEmpty) else .error .notFound
        | some .directory => walk disk links location rest
        | some (.link target) =>
            match links with
            | 0 => .error .tooManyLinks
            | left + 1 =>
                let path : Path := ⟨target⟩
                walk disk left (if path.isAbsolute then [] else start) (path.pieces ++ rest)
        | some entry =>
            if rest = [] then .ok (.taken location entry) else .error .notADirectory
termination_by pieces => (links, pieces.length)

/-- Bytes that can spell a path at all. -/
def checkSpelling (bytes : Bytes) : Except DiskFault Unit :=
  if 0 ∈ bytes then .error .badName
  else if bytes = [] then .error .notFound
  else if maxPathWidth < bytes.length then .error .nameTooLong
  else .ok ()

/-- The place that pieces lead to from where a path starts. -/
def walkFrom (disk : Disk) (path : Path) (pieces : List Bytes) : Except DiskFault Place :=
  walk disk maxLinks (if path.isAbsolute then [] else disk.workingDirectory) pieces

def resolve (disk : Disk) (path : Path) : Except DiskFault Place := do
  checkSpelling path.bytes
  disk.walkFrom path path.pieces

/-- Where a name is filed, and whether a slash follows it in the path. -/
structure Site where
  location : Location
  hasSlash : Bool

/-- The site of the last name of a path. Links before the name are followed, a link of that name is
not. A path that ends in a root, a dot or two dots names nothing. -/
def site? (disk : Disk) (path : Path) : Except DiskFault (Option Site) := do
  checkSpelling path.bytes
  match path.pieces.reverse.dropWhile List.isEmpty with
  | [] => return none
  | name :: above =>
      match ← disk.walkFrom path above.reverse with
      | .free _ _ => throw .notFound
      | .taken directory .directory =>
          if name = [dot] ∨ name = [dot, dot] then return none
          else if isNameTooLong name then throw .nameTooLong
          else return some ⟨directory ++ [name], path.pieces.getLast? == some []⟩
      | .taken _ _ => throw .notADirectory

/-- The entry that a path leads to when links are followed. -/
def look (disk : Disk) (path : Path) : Except DiskFault Entry :=
  match disk.resolve path with
  | .ok (.taken _ entry) => .ok entry
  | .ok (.free _ _) => .error .notFound
  | .error fault => .error fault

def holds (disk : Disk) (path : Path) : Bool :=
  match disk.look path with
  | .ok _ => true
  | .error _ => false

def isDirectory (disk : Disk) (path : Path) : Bool :=
  match disk.look path with
  | .ok .directory => true
  | _ => false

/-- The content of a file and the second of its last change. -/
def file? (disk : Disk) (path : Path) : Option (Bytes × Int) :=
  match disk.look path with
  | .ok (.file content modified) => some (content, modified)
  | _ => none

/-- The second at which a file or a device has last changed. -/
def modified? (disk : Disk) (path : Path) : Option Int :=
  match disk.look path with
  | .ok (.file _ modified) => some modified
  | .ok (.device modified) => some modified
  | _ => none

/-- The bytes of a file. A device gives none. -/
def read (disk : Disk) (path : Path) : Except DiskFault (Bytes) :=
  match disk.look path with
  | .ok (.file content _) => .ok content
  | .ok .directory => .error .isADirectory
  | .ok _ => .ok []
  | .error fault => .error fault

def put (disk : Disk) (location : Location) (entry : Entry) : Disk :=
  { disk with entries := disk.entries.insert location entry }

/-- The disk without everything below a location. -/
def clear (disk : Disk) (location : Location) : Disk :=
  { disk with entries := disk.entries.filter fun other _ =>
      other == location || !location.isPrefixOf other }

/-- The disk without an entry and everything below it. -/
def drop (disk : Disk) (location : Location) : Disk :=
  { disk with entries := disk.entries.filter fun other _ => !location.isPrefixOf other }

/-- Replaces the content of a file or makes a new one. -/
def write (disk : Disk) (path : Path) (content : Bytes) (modified : Int) :
    Except DiskFault Disk :=
  match disk.resolve path with
  | .ok (.taken location (.file _ _)) => .ok (disk.put location (.file content modified))
  | .ok (.taken _ .directory) => .error .isADirectory
  | .ok (.taken _ _) => .ok disk
  | .ok (.free _ true) => .error .isADirectory
  | .ok (.free location false) => .ok (disk.put location (.file content modified))
  | .error fault => .error fault

/-- Gives a file or a link another name. What had that name is lost. -/
def rename (disk : Disk) (source target : Path) : Except DiskFault Disk := do
  let some old ← disk.site? source | throw .busy
  let some new ← disk.site? target | throw .busy
  match disk.entry? old.location, disk.entry? new.location with
  | none, _ => throw .notFound
  | some _, some .directory => throw .isADirectory
  | some entry, _ =>
      if old.hasSlash ∨ new.hasSlash then throw .notADirectory
      else return (disk.drop old.location).put new.location entry

def makeDirectory (disk : Disk) (path : Path) : Except DiskFault Disk := do
  match ← disk.site? path with
  | none => throw .occupied
  | some site =>
      if (disk.entry? site.location).isSome then throw .occupied
      else return disk.put site.location .directory

def makeLink (disk : Disk) (target : Bytes) (path : Path) : Except DiskFault Disk := do
  checkSpelling target
  match ← disk.site? path with
  | none => throw .occupied
  | some site =>
      if (disk.entry? site.location).isSome then throw .occupied
      else if site.hasSlash then throw .notFound
      else return disk.put site.location (.link target)

/-- Removes a file or a link. -/
def removeFile (disk : Disk) (path : Path) : Except DiskFault Disk := do
  match ← disk.site? path with
  | none => throw .isADirectory
  | some site =>
      match disk.entry? site.location with
      | none => throw .notFound
      | some .directory => throw .isADirectory
      | some _ => if site.hasSlash then throw .notADirectory else return disk.drop site.location

/-- Removes the name of an empty directory. -/
def removeName (disk : Disk) (path : Path) : Except DiskFault Disk := do
  match ← disk.site? path with
  | none => throw .busy
  | some site =>
      match disk.entry? site.location with
      | none => throw .notFound
      | some .directory => return disk.drop site.location
      | some _ => throw .notADirectory

/-- The entries of a directory itself, by name. -/
def children (disk : Disk) (directory : Location) : List (Bytes × Entry) :=
  disk.entries.entries.filterMap fun (location, entry) =>
    match location.getLast? with
    | some name => if location.dropLast = directory then some (name, entry) else none
    | none => none

def readDirectory (disk : Disk) (path : Path) : Except DiskFault (List (Bytes × Entry)) :=
  match disk.resolve path with
  | .ok (.taken location .directory) => .ok (disk.children location)
  | .ok (.taken _ _) => .error .notADirectory
  | .ok (.free _ _) => .error .notFound
  | .error fault => .error fault

/-- What is done to a disk. An action that fails leaves what it has done before. -/
abbrev Action := EStateM Fault Disk

/-- The action that either is done as a whole or not at all. -/
def change (operation : Disk → Except DiskFault Disk) : Action Unit := fun disk =>
  match operation disk with
  | .ok changed => .ok () changed
  | .error fault => .error (.disk fault) disk

/-- An action that changes nothing. -/
def check {α : Type} (result : Except Fault α) : Action α :=
  match result with
  | .ok value => return value
  | .error fault => throw fault

/-- Removes a file, a link, or a directory with all that it holds. The content of a directory goes
first, also where its name has to stay. A link to a directory goes by itself. -/
def remove (path : Path) : Action Unit := do
  let disk ← get
  let isLink : Bool := match disk.site? path with
    | .ok (some ⟨location, false⟩) => (disk.entry? location).any (· != .directory)
    | _ => false
  match disk.resolve path with
  | .ok (.taken location .directory) =>
      if isLink then change (removeFile · path)
      else
        set (disk.clear location)
        change (removeName · path)
  | _ => change (removeFile · path)

/-- Makes a directory unless it is there, and first those that it lies in, whose steps are given from
the last one back. -/
def makeAbove (path : Path) : List Path.Part → Action Unit
  | [] => return
  | _ :: above => fun disk =>
      match disk.makeDirectory path with
      | .ok made => .ok () made
      | .error .notFound =>
          match makeAbove (.ofParts above.reverse) above disk with
          | .ok _ ready =>
              match ready.makeDirectory path with
              | .ok made => .ok () made
              | .error fault =>
                  if ready.isDirectory path then .ok () ready else .error (.disk fault) ready
          | .error fault left => .error fault left
      | .error fault => if disk.isDirectory path then .ok () disk else .error (.disk fault) disk

/-- Makes a directory and those that it lies in, as far as they are missing. -/
def makeDirectories (path : Path) : Action Unit := makeAbove path path.parts.reverse

end Disk
end Concordance
