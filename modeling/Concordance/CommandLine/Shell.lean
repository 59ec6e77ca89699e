import Concordance.Path
import Concordance.Text.Blank

/-! Lines of the shell: a command, the directory of a catalog, and what the command works on. -/
namespace Concordance.CommandLine

inductive ShellLine where
  | index (directory path : Path)
  | search (directory : Path) (query : String)
  | quit
  | blank
  | misuse (command argument : String)
  | unknown (command : String)
deriving DecidableEq

namespace ShellLine

/-- The first word of a text and what follows it after blanks. -/
def splitWord (text : List Char) : List Char × List Char :=
  (text.takeWhile (!Text.isBlank ·), Text.trimStart (text.dropWhile (!Text.isBlank ·)))

def ofText (text : List Char) : ShellLine :=
  let (command, rest) := splitWord (Text.trim text)
  let (directory, argument) := splitWord rest
  let isComplete := !directory.isEmpty && !argument.isEmpty
  match String.ofList command with
  | "" => .blank
  | "q" | "quit" | "exit" => .quit
  | "index" =>
      if isComplete then .index ⟨String.ofList directory⟩ ⟨String.ofList argument⟩
      else .misuse "index" "file_or_dir"
  | "search" =>
      if isComplete then .search ⟨String.ofList directory⟩ (String.ofList argument)
      else .misuse "search" "query"
  | other => .unknown other

end ShellLine
end Concordance.CommandLine
