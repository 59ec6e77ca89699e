import Concordance.CommandLine.Arguments
import Concordance.CommandLine.Shell
import Concordance.Catalog.Snapshot
import Concordance.Clock
import Concordance.Settings

/-! What a run finds around it, and the parts of the disk that it reaches. -/
namespace Concordance.CommandLine

/-- What a run can tell from its surroundings: the time, the directories of the user, and the
directory of a catalog that the user prefers to the one of the settings. -/
structure Surroundings where
  clock : Clock
  home : Path
  settingsHome : Option Path
  dataHome : Option Path
  preferred : Option Path

namespace Surroundings

/-- The file that a run takes its settings from. -/
def settingsFile (surroundings : Surroundings) (invocation : Invocation) : Path :=
  invocation.settingsFile.getD
    (Settings.defaultFile surroundings.home surroundings.settingsHome)

/-- The directory of the catalog that a run works with. -/
def catalogDirectory (surroundings : Surroundings) (settings : Settings)
    (invocation : Invocation) : Path :=
  (invocation.directory.or surroundings.preferred).getD
    (settings.catalogDirectory surroundings.home surroundings.dataHome)

end Surroundings

/-- The command asks for lines of the input. -/
def Command.readsInput : Command → Bool
  | .watch _ _ | .shell => true
  | .clear isConfirmed => !isConfirmed
  | .index _ | .search _ _ | .status => false

/-- The files and directories that a run is told to index. -/
def Invocation.sources (invocation : Invocation) (lines : List ShellLine) : List Path :=
  match invocation.command with
  | .index path => [path]
  | .watch paths _ => paths
  | .shell => lines.filterMap fun
      | .index _ path => some path
      | _ => none
  | .search _ _ | .status | .clear _ => []

/-- The directories of the catalogs that a run opens. -/
def Invocation.catalogs (invocation : Invocation) (directory : Path) (lines : List ShellLine) :
    List Path :=
  match invocation.command with
  | .shell => lines.filterMap fun
      | .index directory _ => some directory
      | .search directory _ => some directory
      | _ => none
  | _ => [directory]

/-- The paths of the documents in the catalogs of directories. -/
def documentPaths (disk : Disk) (directories : List Path) : List Path :=
  directories.flatMap fun directory =>
    match Catalog.load disk directory with
    | .ok catalog => catalog.documents.values.map (·.path)
    | .error _ => []

end Concordance.CommandLine
