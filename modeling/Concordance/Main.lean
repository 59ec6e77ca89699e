import Concordance.CommandLine.Run
import Std.Time.DateTime.Timestamp

/-! The program. -/
namespace Concordance.Disk

/-- The text of the path to a location. The names that the system shows are texts. -/
def pathText (location : Location) : String := (Path.descend ⟨"/"⟩ location).text

/-- What is at a location, if it is there and can be read. -/
def fetchEntry (location : Location) : IO (Option Entry) := do
  try
    let path := (← IO.currentDir) / pathText location
    let link ← path.symlinkMetadata
    match link.type with
    | .dir => return some .directory
    | .symlink => return some (.link (← IO.FS.realPath path).toString)
    | .file => return some (.file (← IO.FS.readBinFile path).toList link.modified.sec)
    | .other => return some (.device link.modified.sec)
  catch _ => return none

/-- Copies what lies on the way from a location over the pieces of a path. -/
partial def fetchWay (disk : Disk) (links : Nat) (start : Location) :
    List Bytes → IO (Disk × Location)
  | [] => return (disk, start)
  | piece :: rest => do
      if piece == [] || piece == [Path.dot] then fetchWay disk links start rest
      else if piece == [Path.dot, Path.dot] then fetchWay disk links start.dropLast rest
      else
        let location := start ++ [piece]
        let disk ← match disk.entry? location with
          | some _ => pure disk
          | none => match ← fetchEntry location with
            | some entry => pure (disk.put location entry)
            | none => pure disk
        match disk.entry? location, links with
        | some (.link target), left + 1 =>
            let path : Path := ⟨target⟩
            fetchWay disk left (if path.isAbsolute then [] else start) (path.pieces ++ rest)
        | _, _ => fetchWay disk links location rest

/-- Copies a directory's entries and everything below them. -/
partial def fetchBelow (disk : Disk) (location : Location) : IO Disk := do
  try
    let mut disk := disk
    for entry in ← ((← IO.currentDir) / pathText location).readDir do
      let (fetched, _) ← fetchWay disk Disk.maxLinks location [entry.fileName]
      disk := fetched
      let inner : Location := location ++ [(entry.fileName : Bytes)]
      if fetched.entry? inner == some .directory then disk ← fetchBelow fetched inner
    return disk
  catch _ => return disk

/-- Copies what a path leads to. -/
def fetch (disk : Disk) (path : Path) : IO Disk := do
  let start := if path.isAbsolute then [] else disk.workingDirectory
  let (disk, location) ← fetchWay disk Disk.maxLinks start path.pieces
  if disk.entry? location == some .directory then fetchBelow disk location else return disk

def fetchAll (disk : Disk) (paths : List Path) : IO Disk := paths.foldlM fetch disk

/-- Copies the files and directories that a run has changed back. -/
def store (before after : Disk) : IO Unit := do
  for (location, entry) in after.entries.entries do
    if before.entry? location != some entry then
      match entry with
      | .file content _ => IO.FS.writeBinFile (pathText location) ⟨content.toArray⟩
      | .directory => IO.FS.createDirAll (pathText location)
      | .link _ | .device _ => pure ()
  for (location, entry) in before.entries.entries do
    if (after.entry? location).isNone && entry != .directory then
      IO.FS.removeFile (pathText location)

end Concordance.Disk

namespace Concordance.CommandLine

/-- A directory that the surroundings name. -/
def named (variableName : String) : IO (Option Path) := do
  return (← IO.getEnv variableName).map fun (path : String) => ⟨path⟩

def readInput : IO String := do
  return (String.fromUTF8? (← (← IO.getStdin).readBinToEnd)).getD ""

/-- Runs the program and shows what it has to say. -/
def runOn (surroundings : Surroundings) (disk : Disk) (arguments : List String) (input : String) :
    IO UInt32 := do
  let outcome := run surroundings disk arguments input
  disk.store outcome.disk
  (← IO.getStdout).putStr outcome.output
  (← IO.getStderr).putStr outcome.errors
  return UInt32.ofNat outcome.code

end Concordance.CommandLine

open Concordance CommandLine in
def main (arguments : List String) : IO UInt32 := do
  let start ← IO.monoNanosNow
  let now ← Std.Time.Timestamp.now
  let surroundings : Surroundings := {
    clock := ⟨now.toSecondsSinceUnixEpoch.val, 0, .world⟩
    home := (← named "HOME").getD ⟨"/"⟩
    settingsHome := ← named "XDG_CONFIG_HOME"
    dataHome := ← named "XDG_DATA_HOME"
    preferred := ← named "QUARRY_DB" }
  let place : Path := ⟨(← IO.currentDir).toString⟩
  let disk : Disk := ⟨.empty, place.pieces.filter (· != []), .world⟩
  match Request.ofArguments arguments with
  | .run invocation =>
      let input ← if invocation.command.readsInput then readInput else pure ""
      let lines := (input.splitOn "\n").map (ShellLine.ofText ·.toList)
      let (disk, _) ← disk.fetchWay Disk.maxLinks [] disk.workingDirectory
      let disk ← disk.fetchAll (surroundings.settingsFile invocation :: invocation.sources lines)
      let settings := (Settings.load disk (surroundings.settingsFile invocation)).toOption
      let directory :=
        surroundings.catalogDirectory (settings.getD Settings.standard) invocation
      let directories := invocation.catalogs directory lines
      let disk ← disk.fetchAll directories
      let disk ← disk.fetchAll (documentPaths disk directories)
      let elapsed := (← IO.monoNanosNow) - start
      runOn { surroundings with clock := { surroundings.clock with elapsedNanos := elapsed } } disk
        arguments input
  | _ => runOn surroundings disk arguments ""
