import Concordance.Path

/-! The arguments of the program: options, a command, and what the command works on. -/
namespace Concordance.CommandLine

inductive Command where
  | index (path : Path)
  | search (query : String) (asJson : Bool)
  | watch (paths : List Path) (interval : Option Nat)
  | status
  | shell
  | clear (isConfirmed : Bool)
deriving DecidableEq

structure Invocation where
  settingsFile : Option Path
  directory : Option Path
  command : Command
deriving DecidableEq

/-- What the arguments ask for. -/
inductive Request where
  | run (invocation : Invocation)
  | version
  | help
  | refused
deriving DecidableEq

inductive CommandName where
  | index
  | search
  | watch
  | status
  | shell
  | clear
deriving DecidableEq

def CommandName.ofText? (text : String) : Option CommandName :=
  if text = "index" then some .index
  else if text = "search" ∨ text = "s" then some .search
  else if text = "watch" then some .watch
  else if text = "status" then some .status
  else if text = "shell" then some .shell
  else if text = "clear" then some .clear
  else none

inductive Switch where
  | settingsFile
  | directory
  | verbose
  | quiet
  | json
  | interval
  | confirmed
  | help
  | version
deriving DecidableEq

namespace Switch

def long : Switch → String
  | settingsFile => "config"
  | directory => "db"
  | verbose => "verbose"
  | quiet => "quiet"
  | json => "json"
  | interval => "interval"
  | confirmed => "yes"
  | help => "help"
  | version => "version"

def short? : Switch → Option Char
  | settingsFile => some 'c'
  | verbose => some 'v'
  | quiet => some 'q'
  | interval => some 'i'
  | confirmed => some 'y'
  | help => some 'h'
  | version => some 'V'
  | directory | json => none

def takesValue (option : Switch) : Bool := option ∈ [settingsFile, directory, interval]

/-- The options that may be given, before a command or after it. -/
def known : Option CommandName → List Switch
  | none => [settingsFile, directory, verbose, quiet, help, version]
  | some .search => [settingsFile, directory, verbose, quiet, help, json]
  | some .watch => [settingsFile, directory, verbose, quiet, help, interval]
  | some .clear => [settingsFile, directory, verbose, quiet, help, confirmed]
  | some _ => [settingsFile, directory, verbose, quiet, help]

end Switch

/-- Options with their values. -/
abbrev Given := List (Switch × String)

/-- The arguments as far as they have been read. An option that waits for its value is kept. -/
structure Reading where
  outer : Given
  command : Option CommandName
  inner : Given
  operands : List String
  waiting : Option Switch
  isEnded : Bool

/-- Why reading stops before the last argument. -/
inductive Stop where
  | version
  | help
  | refused
deriving DecidableEq

namespace Reading

def start : Reading := ⟨[], none, [], [], none, false⟩

def given (reading : Reading) : Given :=
  if reading.command.isSome then reading.inner else reading.outer

/-- A whole number of 64 bits, which may have a plus before it. -/
def count? (text : String) : Option Nat :=
  let digits := match text.toList with
    | '+' :: rest => rest
    | all => all
  if digits.isEmpty || !digits.all Char.isDigit then none
  else
    let value := digits.foldl (fun value c => value * 10 + (c.toNat - 48)) 0
    if value < UInt64.size then some value else none

/-- The value is one that the option takes. Paths are not empty. -/
def isValue (option : Switch) (value : String) : Bool :=
  match option with
  | .settingsFile | .directory => value != ""
  | .interval => (count? value).isSome
  | _ => true

/-- One more option. Only the wish for more output may be repeated. -/
def give (reading : Reading) (option : Switch) (value : String) : Except Stop Reading :=
  if reading.waiting.isSome then .error .refused
  else if option = .help then .error .help
  else if option = .version then .error .version
  else if (option ≠ .verbose ∧ (reading.given.lookup option).isSome) ∨ !isValue option value then
    .error .refused
  else if reading.command.isSome then
    .ok { reading with inner := reading.inner ++ [(option, value)] }
  else .ok { reading with outer := reading.outer ++ [(option, value)] }

/-- An option whose value is the next argument. -/
def wait (reading : Reading) (option : Switch) : Except Stop Reading :=
  if reading.waiting.isSome then .error .refused
  else .ok { reading with waiting := some option }

/-- An argument of two dashes and a name, which may hold a value after an equals sign. -/
def readLong (reading : Reading) (text : List Char) : Except Stop Reading :=
  let name := String.ofList (text.takeWhile (· != '='))
  let value := match text.dropWhile (· != '=') with
    | _ :: value => some (String.ofList value)
    | [] => none
  match (Switch.known reading.command).find? (·.long == name), value with
  | none, _ => .error .refused
  | some option, some value =>
      if option.takesValue then reading.give option value else .error .refused
  | some option, none => if option.takesValue then reading.wait option else reading.give option ""

/-- Letters after one dash. The first that takes a value takes the rest, or the next argument. -/
def readShort (reading : Reading) : List Char → Except Stop Reading
  | [] => .ok reading
  | letter :: rest =>
      match (Switch.known reading.command).find? (·.short? == some letter) with
      | none => .error .refused
      | some option =>
          if option.takesValue then
            match rest with
            | [] => reading.wait option
            | '=' :: value => reading.give option (String.ofList value)
            | value => reading.give option (String.ofList value)
          else do (← reading.give option "").readShort rest

/-- The number of operands that a command takes, where there is a limit. -/
def maxOperands : CommandName → Option Nat
  | .index | .search => some 1
  | .watch => none
  | .status | .shell | .clear => some 0

/-- One more operand of the command. Paths are not empty. -/
def readOperand (reading : Reading) (text : String) : Except Stop Reading :=
  match reading.command with
  | none => .error .refused
  | some command =>
      let isFull := (maxOperands command).any (· ≤ reading.operands.length)
      if isFull || (command != .search && text == "") then .error .refused
      else .ok { reading with operands := reading.operands ++ [text] }

/-- An argument that is no option. -/
def readWord (reading : Reading) (text : String) : Except Stop Reading :=
  match reading.waiting with
  | some option => { reading with waiting := none }.give option text
  | none =>
      match reading.command, CommandName.ofText? text with
      | none, some command => .ok { reading with command := some command }
      | none, none => .error .refused
      | some _, _ => reading.readOperand text

def readArgument (reading : Reading) (text : String) : Except Stop Reading :=
  if reading.isEnded then reading.readOperand text
  else match text.toList with
    | ['-', '-'] => .ok { reading with isEnded := true }
    | '-' :: '-' :: rest => reading.readLong rest
    | '-' :: letter :: rest => reading.readShort (letter :: rest)
    | _ => reading.readWord text

def option? (reading : Reading) (option : Switch) : Option String :=
  (reading.inner.lookup option).or (reading.outer.lookup option)

/-- The command with its operands, when there are enough of them. -/
def command? (reading : Reading) : Option Command := do
  match ← reading.command, reading.operands with
  | .index, [path] => return .index ⟨path⟩
  | .search, [query] => return .search query (reading.option? .json).isSome
  | .watch, path :: more =>
      return .watch ((path :: more).map fun (path : String) => ⟨path⟩)
        ((reading.option? .interval).bind count?)
  | .status, _ => return .status
  | .shell, _ => return .shell
  | .clear, _ => return .clear (reading.option? .confirmed).isSome
  | _, _ => none

def finish (reading : Reading) : Except Stop Invocation :=
  match reading.waiting, reading.command? with
  | none, some command =>
      .ok ⟨(reading.option? .settingsFile).map fun (path : String) => ⟨path⟩,
        (reading.option? .directory).map fun (path : String) => ⟨path⟩, command⟩
  | _, _ => .error .refused

end Reading

/-- A request for help, with or without the name of a command after the word `help`. -/
def helpRequest : List String → Request
  | [] => .help
  | [name] => if name = "help" ∨ (CommandName.ofText? name).isSome then .help else .refused
  | _ => .refused

/-- What arguments ask for. They are read from left to right, and the first that cannot be understood
stops the reading. -/
def readArguments (reading : Reading) : List String → Request
  | [] => match reading.finish with
      | .ok invocation => .run invocation
      | .error _ => .refused
  | text :: rest =>
      if text = "help" ∧ reading.command = none ∧ reading.waiting = none ∧ !reading.isEnded then
        helpRequest rest
      else match reading.readArgument text with
        | .ok reading => readArguments reading rest
        | .error .version => .version
        | .error .help => .help
        | .error .refused => .refused

def Request.ofArguments (arguments : List String) : Request := readArguments .start arguments

end Concordance.CommandLine
