import Concordance.Catalog.Snapshot
import Concordance.Clock
import Concordance.Settings

namespace Concordance.CommandLine

/-- Everything that a run changes. -/
structure Console where
  disk : Disk
  input : List Char
  output : String
  errors : String
  catalogs : OrderedMap Path Catalog

/-- Why a run stops before its end. After a crash nothing more is done, and nothing is written. -/
inductive Failure where
  | fault (cause : Fault)
  | unusable (directory : Path) (cause : Fault)
  | crash

/-- What the program shows of a failure. A fault of the disk is named once more as the cause. -/
def Failure.message : Failure → String
  | fault cause =>
      let origin := match cause with
        | .disk origin => "\nCaused by:\n    " ++ origin.text ++ "\n"
        | _ => ""
      "Error: " ++ cause.message ++ "\n" ++ origin
  | unusable directory cause =>
      s!"Error: {directory.text}: {cause.message}. Remove the directory and index again.\n"
  | crash => ""

/-- A part of a run. What it has done stays done when it fails. -/
abbrev Program := EStateM Failure Console

namespace Program

def print (text : String) : Program Unit :=
  modify fun console => { console with output := console.output ++ text }

def printLine (text : String) : Program Unit := print (text ++ "\n")

def printLines (lines : List String) : Program Unit := lines.forM printLine

def warn (text : String) : Program Unit :=
  modify fun console => { console with errors := console.errors ++ text }

def warnLine (text : String) : Program Unit := warn (text ++ "\n")

/-- A result whose fault ends the run. -/
def require {α : Type} : Except Fault α → Program α
  | .ok value => return value
  | .error fault => throw (.fault fault)

/-- Does something to the disk. -/
def act {α : Type} (action : Disk.Action α) : Program (Except Fault α) := fun console =>
  match action console.disk with
  | .ok value disk => .ok (.ok value) { console with disk := disk }
  | .error fault disk => .ok (.error fault) { console with disk := disk }

/-- The next line of the input without its end, if there is one. -/
def nextLine : Program (Option (List Char)) := fun console =>
  match console.input with
  | [] => .ok none console
  | text =>
      let line := text.takeWhile (· != '\n')
      let trimmed := if line.getLast? = some '\r' ∧ line.length < text.length then line.dropLast else line
      .ok (some trimmed) { console with input := text.drop (line.length + 1) }

/-- The catalog of a directory as the run has it. -/
def catalogAt (directory : Path) : Program Catalog := do
  return ((← get).catalogs.get? directory).getD (.empty directory .empty)

def setCatalog (directory : Path) (catalog : Catalog) : Program Unit :=
  modify fun console => { console with catalogs := console.catalogs.insert directory catalog }

/-- Opens the catalog of a directory unless the run has opened it before. -/
def openCatalog (directory : Path) : Program Unit := do
  if (← get).catalogs.contains directory then return
  else
    match ← act (Catalog.loadOrCreate directory) with
    | .ok catalog => setCatalog directory catalog
    | .error fault =>
        if fault.requiresRebuild then throw (.unusable directory fault) else throw (.fault fault)

/-- Writes the catalog of a directory. -/
def saveCatalog (directory : Path) (now : Int) : Program Unit := do
  require (← act ((← catalogAt directory).flush now))

/-- Writes all open catalogs, those that cannot be written excepted. -/
def closeCatalogs (now : Int) : Program Unit := do
  (← get).catalogs.values.forM fun catalog => do
    let _ ← act (catalog.flush now)

end Program
end Concordance.CommandLine
