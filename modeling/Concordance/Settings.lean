import Concordance.Number
import Concordance.Path

/-! Settings of the program. -/
namespace Concordance

structure GeneralSettings where
  dataDirectory : Option Path
  logLevel : String
deriving DecidableEq

/-- Extensions without their dots. Only allowed ones are picked up below a directory, and all are
when none is named. Ignored ones are never read. -/
structure ExtensionSettings where
  allowed : List String
  ignored : List String
deriving DecidableEq

/-- Constants of the score of a document. -/
structure ScoringSettings where
  k1 : Number
  k3 : Number
  b : Number
  granularity : Number
  longQueryTerms : Nat
deriving DecidableEq

/-- A greatest query size of zero sets no limit. -/
structure SearchSettings where
  fuzzyCandidates : Nat
  fuzzyLimit : Nat
  snippetWidth : Nat
  maxHighlights : Nat
  maxQuerySize : Nat
  maxParserDepth : Nat
deriving DecidableEq

/-- A greatest number of files of zero sets no limit. -/
structure WatchSettings where
  intervalSeconds : Nat
  maxFilesPerPath : Nat
deriving DecidableEq

structure Settings where
  general : GeneralSettings
  extensions : ExtensionSettings
  scoring : ScoringSettings
  search : SearchSettings
  watch : WatchSettings
deriving DecidableEq

namespace ExtensionSettings

/-- Two texts that differ at most in the case of letters from `a` to `z`. -/
def sameLetters (first second : String) : Bool :=
  first.toList.map Char.toLower == second.toList.map Char.toLower

def isIgnored (settings : ExtensionSettings) (path : Path) : Bool :=
  settings.ignored.any (sameLetters · path.fileExtension)

/-- A file found below a directory belongs into the catalog. -/
def isAllowed (settings : ExtensionSettings) (path : Path) : Bool :=
  !settings.isIgnored path &&
    (settings.allowed.isEmpty || settings.allowed.any (sameLetters · path.fileExtension))

end ExtensionSettings

namespace Settings

def defaultAllowed : List String :=
  ["txt", "md", "markdown", "rst", "json", "csv", "tsv", "log", "html", "htm", "xml", "yaml", "yml",
   "toml", "ini", "cfg", "conf", "sh", "py", "rs", "c", "h", "cpp", "hpp", "java", "js", "ts", "go",
   "sql"]

def defaultIgnored : List String :=
  ["png", "jpg", "jpeg", "gif", "bmp", "ico", "svg", "webp", "pdf", "zip", "gz", "tgz", "bz2", "xz",
   "tar", "7z", "rar", "exe", "dll", "so", "dylib", "o", "a", "class", "jar", "bin", "iso", "mp3",
   "mp4", "avi", "mov", "wav", "flac", "ds_store", "lock"]

/-- The settings that hold where nothing else is said: `k1` and `k3` are 1.5, `b` is 0.75, and scores
are kept to the millionth. -/
def standard : Settings where
  general := ⟨none, "info"⟩
  extensions := ⟨defaultAllowed, defaultIgnored⟩
  scoring :=
    ⟨⟨0x3ff8000000000000⟩, ⟨0x3ff8000000000000⟩, ⟨0x3fe8000000000000⟩, ⟨0x412e848000000000⟩, 10⟩
  search := ⟨3, 10, 60, 8, 4096, 256⟩
  watch := ⟨5, 5000⟩

/-- A directory of the user: the one that is named if its path is absolute, else the usual one. -/
def userDirectory (named : Option Path) (usual : Path) : Path :=
  match named with
  | some path => if path.isAbsolute then path else usual
  | none => usual

/-- The file that settings are read from when none is named. -/
def defaultFile (home : Path) (named : Option Path) : Path :=
  (userDirectory named (home.child ".config")).descend ["quarry", "quarry.toml"]

/-- The directory of the catalog. -/
def catalogDirectory (settings : Settings) (home : Path) (named : Option Path) : Path :=
  settings.general.dataDirectory.getD
    ((userDirectory named (home.descend [".local", "share"])).descend ["quarry", "db"])

end Settings
end Concordance
