import Concordance.CommandLine.Arguments
import Concordance.CommandLine.Console
import Concordance.CommandLine.Report
import Concordance.CommandLine.Shell
import Concordance.CommandLine.Surroundings
import Concordance.Settings.File
import Concordance.Watch

/-! The commands of the program, as programs over a console. -/
namespace Concordance.CommandLine

/-- A search that has no answer stops the run as it was stopped itself. -/
def Failure.ofAbort : Retrieval.Abort → Failure
  | .fault cause => .fault cause
  | .crash => .crash

namespace Program

/-- So many billionths, in parts of a thousand or a hundred of what `unit` billionths make. -/
def durationText (places unit nanos : Nat) : String :=
  String.ofList (Number.fixedFraction places nanos unit)

/-- Indexes a path into an open catalog and writes the catalog. -/
def indexInto (settings : Settings) (clock : Clock) (directory path : Path) : Program Unit := do
  let (ids, catalog) ←
    require ((← catalogAt directory).index settings.extensions (← get).disk path)
  setCatalog directory catalog
  saveCatalog directory clock.seconds
  printLine s!"Indexed {ids.length} documents from {path.text}"
  printLine s!"  Documents:   {catalog.documents.size}"
  printLine s!"  Terms:       {catalog.terms.size}"
  printLine s!"  Time:        {durationText 2 1000000000 clock.elapsedNanos}s"

/-- The answer to a search. -/
def requireAnswer {α : Type} : Except Retrieval.Abort α → Program α
  | .ok value => return value
  | .error abort => throw (.ofAbort abort)

/-- Searches an open catalog. -/
def searchIn (settings : Settings) (clock : Clock) (directory : Path) (query : String)
    (asJson : Bool) : Program Unit := do
  let (hits, catalog) ←
    requireAnswer (Retrieval.search settings (← catalogAt directory) (← get).disk clock query)
  setCatalog directory catalog
  if asJson then printLines (jsonHits hits)
  else
    printLines (hits.flatMap hitLines)
    warnLine ""
    warnLine s!"Found {hits.length} results in {durationText 3 1000000 clock.elapsedNanos}ms"

def search (settings : Settings) (clock : Clock) (directory : Path) (query : String)
    (asJson : Bool) : Program Unit := do
  if (← catalogAt directory).documents.isEmpty then
    warnLine "Store is empty. Run 'quarry index <path>' first."
  else
    searchIn settings clock directory query asJson
    saveCatalog directory clock.seconds

/-- Starts to watch paths one after another. -/
def watchPaths (settings : Settings) (directory : Path) (watch : Watch) :
    List Path → Program Watch
  | [] => return watch
  | path :: rest => do
      let (result, watch, catalog) :=
        watch.add settings (← get).disk (← catalogAt directory) path
      setCatalog directory catalog
      let report ← require result
      printLine s!"✓ Watching {path.text} ({report.added} added, {report.capped} capped)"
      watchPaths settings directory watch rest

/-- Follows the lines of the input while paths are watched, at most so many of them. -/
def watchLines (settings : Settings) (directory : Path) : Nat → Watch → Program Watch
  | 0, watch => return watch
  | fuel + 1, watch => do
      match ← nextLine with
      | none => return watch
      | some line =>
          match String.ofList (Text.trim line) with
          | "q" | "quit" => return watch
          | "rebuild" =>
              let (report, watch, catalog) :=
                watch.rebuild settings (← get).disk (← catalogAt directory)
              setCatalog directory catalog
              printLine s!"Rebuilt: {report.added} documents"
              watchLines settings directory fuel watch
          | "" => watchLines settings directory fuel watch
          | other =>
              printLine s!"Unknown command '{other}'. Use 'rebuild' or 'q'."
              watchLines settings directory fuel watch

/-- Keeps a catalog in step with paths until the input ends. The paths are synced once more before
the input is read. -/
def watch (settings : Settings) (clock : Clock) (directory : Path) (paths : List Path)
    (interval : Option Nat) : Program Unit := do
  let seconds := max 1 (interval.getD settings.watch.intervalSeconds)
  let watch ← watchPaths settings directory .empty paths
  saveCatalog directory clock.seconds
  printLine ""
  printLine s!"Syncing every {seconds}s. Close stdin (Ctrl+D) or type 'q' to stop."
  let (_, watch, catalog) := watch.tick settings (← get).disk (← catalogAt directory)
  setCatalog directory catalog
  let watch ← watchLines settings directory ((← get).input.length + 1) watch
  saveCatalog directory clock.seconds
  printLine "Monitoring stopped."
  watch.extensionCounts.entries.forM fun (extension, count) =>
    let name := if extension = "" then "(none)" else extension
    printLine s!"  {alignLeft 10 name} {count}"

/-- Asks whether so many documents are to be deleted. -/
def confirm (count : Nat) : Program Bool := do
  print s!"This will delete all {count} documents. Are you sure? [y/N] "
  let line := (← nextLine).getD []
  return (Text.trim line).map Char.toLower == ['y']

/-- Forgets all documents of a catalog, after a question unless the answer is given. -/
def clear (clock : Clock) (directory : Path) (isConfirmed : Bool) : Program Unit := do
  let catalog ← catalogAt directory
  if catalog.documents.isEmpty then printLine "Store is empty. Nothing to clear."
  else
    let isWanted ← if isConfirmed then pure true else confirm catalog.documents.size
    if isWanted then
      setCatalog directory catalog.clear
      saveCatalog directory clock.seconds
      printLine "Store cleared."
    else printLine "Cancelled."

/-- A part of a shell line that may fail without an end of the shell. Only a crash ends it. -/
def attempt (program : Program Unit) : Program Unit := fun console =>
  match program console with
  | .ok _ console => .ok () console
  | .error .crash console => .error .crash console
  | .error _ console => .ok () console

/-- Follows the lines of the shell, at most so many of them. -/
def shellLines (settings : Settings) (clock : Clock) : Nat → Program Unit
  | 0 => return
  | fuel + 1 => do
      print "> "
      match ← nextLine with
      | none => return
      | some line =>
          match ShellLine.ofText line with
          | .quit => return
          | .blank => shellLines settings clock fuel
          | .misuse command argument =>
              warnLine s!"usage: {command} <db> <{argument}>"
              shellLines settings clock fuel
          | .unknown command =>
              warnLine s!"unknown command '{command}'"
              shellLines settings clock fuel
          | .index directory path =>
              attempt do
                openCatalog directory
                indexInto settings clock directory path
              shellLines settings clock fuel
          | .search directory query =>
              attempt do
                openCatalog directory
                searchIn settings clock directory query false
              shellLines settings clock fuel

/-- Indexes and searches as the input says, and writes all catalogs at the end. -/
def shell (settings : Settings) (clock : Clock) : Program Unit := do
  shellLines settings clock ((← get).input.length + 1)
  (← get).catalogs.values.forM fun catalog => do
    require (← act (catalog.flush clock.seconds))

def invoke (surroundings : Surroundings) (invocation : Invocation) : Program Unit := do
  let settings ← require (Settings.load (← get).disk (surroundings.settingsFile invocation))
  let clock := surroundings.clock
  let directory := surroundings.catalogDirectory settings invocation
  match invocation.command with
  | .shell => shell settings clock
  | .index path =>
      openCatalog directory
      indexInto settings clock directory path
  | .search query asJson =>
      openCatalog directory
      search settings clock directory query asJson
  | .watch paths interval =>
      openCatalog directory
      watch settings clock directory paths interval
  | .status =>
      openCatalog directory
      printLines (statusLines (← catalogAt directory))
  | .clear isConfirmed =>
      openCatalog directory
      clear clock directory isConfirmed

/-- Shows a failure, unless it is a crash. -/
def handle : Failure → Program Nat
  | .crash => throw .crash
  | failure => do
      warn failure.message
      return 1

/-- The code that a program ends with. -/
def codeOf (program : Program Unit) : Program Nat :=
  tryCatch (do program; return 0) handle

/-- Runs a program and writes the open catalogs back, also after a failure, but not after a crash. -/
def complete (now : Int) (program : Program Unit) : Program Nat := do
  let code ← codeOf program
  closeCatalogs now
  return code

end Program

/-- What a run leaves behind. -/
structure Outcome where
  code : Nat
  output : String
  errors : String
  disk : Disk

def versionText : String := "quarry 0.1.0\n"

def usageText : String :=
  "Usage: quarry [OPTIONS] <COMMAND>\n\n" ++
  "Commands:\n" ++
  "  index <PATH>       Index a file or every allowed file below a directory\n" ++
  "  search <QUERY>     Search the store\n" ++
  "  watch <PATHS>...   Watch paths and keep the store in sync until stdin is closed\n" ++
  "  status             Show store status and statistics\n" ++
  "  shell              Read `index <db> <path>`, `search <db> <query>` and `q` from stdin\n" ++
  "  clear              Remove every document from the store\n"

/-- The code of a program that has crashed. -/
def crashCode : Nat := 134

/-- Runs the program once. -/
def run (surroundings : Surroundings) (disk : Disk) (arguments : List String) (input : String) :
    Outcome :=
  match Request.ofArguments arguments with
  | .version => ⟨0, versionText, "", disk⟩
  | .help => ⟨0, usageText, "", disk⟩
  | .refused => ⟨2, "", usageText, disk⟩
  | .run invocation =>
      let program := Program.complete surroundings.clock.seconds (.invoke surroundings invocation)
      match program ⟨disk, input.toList, "", "", .empty⟩ with
      | .ok code console => ⟨code, console.output, console.errors, console.disk⟩
      | .error _ console => ⟨crashCode, console.output, console.errors, console.disk⟩

end Concordance.CommandLine
