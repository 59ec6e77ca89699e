import Concordance.Disk
import Concordance.Settings
import Concordance.Toml.Reader
import Concordance.Toml.Writer

/-! Settings in a file. -/
namespace Concordance.Settings

open Toml (Item Fields)

/-- The item of a section that stands under a name, or at a place when the section is a list. A
moment is a section that names nothing. -/
def itemAt (table : Item) (place : Nat) (name : String) : Option (Option Item) :=
  match table with
  | .table _ fields => some (Fields.get? fields name)
  | .array items => some items[place]?
  | .rows tables => some ((tables[place]?).map (.table .header))
  | .moment => some none
  | _ => none

/-- A value of a section, or the standard one when the section does not name it. -/
def readField {α : Type} (read : Item → Option α) (table : Item) (place : Nat) (name : String)
    (standard : α) : Option α := do
  match ← itemAt table place name with
  | none => return standard
  | some item => read item

def readText : Item → Option String
  | .text text => some text
  | _ => none

def readTexts : Item → Option (List String)
  | .array items => items.mapM readText
  | _ => none

/-- A number may be written as a whole one. -/
def readNumber : Item → Option Number
  | .float value => some value
  | .integer value =>
      some (.ofMagnitude (value < 0) (Number.nearest value.natAbs 1))
  | _ => none

def readCount : Item → Option Nat
  | .integer value => if 0 ≤ value then some value.toNat else none
  | _ => none

def readGeneral (standard : GeneralSettings) (table : Item) : Option GeneralSettings := do
  let directory ← readField (fun item => (readText item).map fun text => some ⟨text⟩)
    table 0 "data_dir" standard.dataDirectory
  return ⟨directory, ← readField readText table 1 "log_level" standard.logLevel⟩

def readExtensions (standard : ExtensionSettings) (table : Item) : Option ExtensionSettings := do
  return ⟨← readField readTexts table 0 "allowed" standard.allowed,
    ← readField readTexts table 1 "ignored" standard.ignored⟩

def readScoring (standard : ScoringSettings) (table : Item) : Option ScoringSettings := do
  return ⟨← readField readNumber table 0 "k1" standard.k1,
    ← readField readNumber table 1 "k3" standard.k3,
    ← readField readNumber table 2 "b" standard.b,
    ← readField readNumber table 3 "granularity" standard.granularity,
    ← readField readCount table 4 "long_query_terms" standard.longQueryTerms⟩

def readSearch (standard : SearchSettings) (table : Item) : Option SearchSettings := do
  return ⟨← readField readCount table 0 "fuzzy_candidates" standard.fuzzyCandidates,
    ← readField readCount table 1 "fuzzy_limit" standard.fuzzyLimit,
    ← readField readCount table 2 "snippet_width" standard.snippetWidth,
    ← readField readCount table 3 "max_highlights" standard.maxHighlights,
    ← readField readCount table 4 "max_query_size" standard.maxQuerySize,
    ← readField readCount table 5 "max_parser_depth" standard.maxParserDepth⟩

def readWatch (standard : WatchSettings) (table : Item) : Option WatchSettings := do
  return ⟨← readField readCount table 0 "interval_secs" standard.intervalSeconds,
    ← readField readCount table 1 "max_files_per_path" standard.maxFilesPerPath⟩

/-- The settings that tables hold. -/
def ofFields (fields : Fields) : Option Settings := do
  let file : Item := .table .header fields
  return {
    general := ← readField (readGeneral standard.general) file 0 "general" standard.general
    extensions :=
      ← readField (readExtensions standard.extensions) file 1 "extensions" standard.extensions
    scoring := ← readField (readScoring standard.scoring) file 2 "scoring" standard.scoring
    search := ← readField (readSearch standard.search) file 3 "search" standard.search
    watch := ← readField (readWatch standard.watch) file 4 "daemon" standard.watch }

/-- The settings of a file, the standard ones when there is none. -/
def load (disk : Disk) (path : Path) : Except Fault Settings := do
  if disk.holds path then
    let bytes ← (disk.read path).mapError .disk
    match Utf8.decode bytes with
    | .error _ => throw (.disk .notText)
    | .ok text =>
        match (Toml.ofText? text).bind ofFields with
        | some settings => return settings
        | none => throw .configuration
  else return standard

/-- A whole number. Those that need the last of 64 bits cannot be written. -/
def writeCount (count : Nat) : Option String :=
  if count < Toml.wordBound then some (toString count) else none

/-- A path that is text. Others cannot be written. -/
def writePath (path : Path) : Option String :=
  if path.IsText then some (Toml.writeText path.text) else none

def text? (settings : Settings) : Option String := do
  let directory ← settings.general.dataDirectory.mapM writePath
  let general :=
    (directory.map fun text => ("data_dir", text)).toList ++
      [("log_level", Toml.writeText settings.general.logLevel)]
  let extensions :=
    [("allowed", Toml.writeTexts settings.extensions.allowed),
     ("ignored", Toml.writeTexts settings.extensions.ignored)]
  let scoring :=
    [("k1", Toml.writeFloat settings.scoring.k1),
     ("k3", Toml.writeFloat settings.scoring.k3),
     ("b", Toml.writeFloat settings.scoring.b),
     ("granularity", Toml.writeFloat settings.scoring.granularity),
     ("long_query_terms", ← writeCount settings.scoring.longQueryTerms)]
  let search :=
    [("fuzzy_candidates", ← writeCount settings.search.fuzzyCandidates),
     ("fuzzy_limit", ← writeCount settings.search.fuzzyLimit),
     ("snippet_width", ← writeCount settings.search.snippetWidth),
     ("max_highlights", ← writeCount settings.search.maxHighlights),
     ("max_query_size", ← writeCount settings.search.maxQuerySize),
     ("max_parser_depth", ← writeCount settings.search.maxParserDepth)]
  let watch :=
    [("interval_secs", ← writeCount settings.watch.intervalSeconds),
     ("max_files_per_path", ← writeCount settings.watch.maxFilesPerPath)]
  return "\n".intercalate
    [Toml.writeTable "general" general, Toml.writeTable "extensions" extensions,
     Toml.writeTable "scoring" scoring, Toml.writeTable "search" search,
     Toml.writeTable "daemon" watch]

/-- Writes the settings to a file and makes the directories above it. -/
def save (settings : Settings) (path : Path) (now : Int) : Disk.Action Unit := do
  Disk.makeDirectories (.ofParts path.parts.dropLast)
  match settings.text? with
  | none => throw .configuration
  | some text => Disk.change fun disk => disk.write path (Utf8.bytes text) now

end Concordance.Settings
