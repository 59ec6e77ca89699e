import Concordance.Toml.Scalar
import Concordance.Text.Utf8

/-! Reading a settings file: headers of tables, keys with values, and comments. -/
namespace Concordance.Toml

/-- Fewer lists and tables than these may stand inside one another. -/
def depthLimit : Nat := 80

/-- A key has fewer parts than these. -/
def keyLimit : Nat := 80

def isBareKey (c : Char) : Bool :=
  ('a' ≤ c && c ≤ 'z') || ('A' ≤ c && c ≤ 'Z') || c.isDigit || c == '-' || c == '_'

def simpleKey : Scan String := do
  spaces
  let key ←
    quoted '"' <|> quoted '\x27' <|> (do
      let first ← Scan.satisfying isBareKey
      return String.ofList (first :: (← Scan.every isBareKey)))
  spaces
  return key

/-- The further parts of a key with dots. -/
def moreKeys : Nat → Scan (List String)
  | 0 => failure
  | fuel + 1 => do
      match ← Scan.optional (Scan.mark '.') with
      | some () =>
          let key ← simpleKey
          return key :: (← moreKeys fuel)
      | none => return []

/-- A key with dots: the parts before the last one, and the last one. -/
def key : Scan (List String × String) := do
  let first ← simpleKey
  let more ← moreKeys (keyLimit - 1)
  let parts := first :: more
  return (parts.dropLast, parts.getLast?.getD first)

mutual

/-- A value at a depth. -/
def value : Nat → Nat → Scan Item
  | 0, _ => failure
  | fuel + 1, depth =>
      scalar <|>
      (if depthLimit ≤ depth + 1 then failure
       else
        (do
          Scan.mark '['
          let items ← listItems fuel (depth + 1)
          return .array items) <|>
        (do
          Scan.mark '\x7b'
          spaces
          if ← Scan.sees (Scan.mark '\x7d') then
            Scan.mark '\x7d'
            return .table .closed []
          else return .table .closed (← tableItems fuel (depth + 1) [])))

/-- What follows the opening bracket of a list, or a comma in it. -/
def listItems : Nat → Nat → Scan (List Item)
  | 0, _ => failure
  | fuel + 1, depth => do
      blanks (← get).length
      match ← Scan.optional (Scan.mark ']') with
      | some () => return []
      | none =>
          let item ← value fuel depth
          blanks (← get).length
          match ← Scan.optional (Scan.mark ',') with
          | some () => return item :: (← listItems fuel depth)
          | none =>
              Scan.mark ']'
              return [item]

/-- The entries of a table between brackets, added to those before. -/
def tableItems : Nat → Nat → Fields → Scan Fields
  | 0, _, _ => failure
  | fuel + 1, depth, fields => do
      let (path, key) ← key
      Scan.mark '='
      spaces
      let item ← value fuel depth
      spaces
      match fields.add .header path key item with
      | none => failure
      | some fields =>
          match ← Scan.optional (Scan.mark ',') with
          | some () => tableItems fuel depth fields
          | none =>
              Scan.mark '\x7d'
              return fields

end

/-- The end of a line, or of the text. -/
def endOfLine : Scan Unit := do
  spaces
  if ← Scan.sees (Scan.mark '#') then comment
  if (← get).isEmpty then return else lineBreak

/-- A file as far as it has been read: its tables and the header that was opened last. -/
structure Draft where
  fields : Fields
  header : List String

/-- The line of a header between one or two pairs of brackets. -/
def headerLine (draft : Draft) : Scan Draft := do
  Scan.mark '['
  match ← Scan.optional (Scan.mark '[') with
  | some () =>
      let (path, key) ← key
      Scan.word [']', ']']
      endOfLine
      match draft.fields.openRow path key with
      | some fields => return ⟨fields, path ++ [key]⟩
      | none => failure
  | none =>
      let (path, key) ← key
      Scan.mark ']'
      endOfLine
      match draft.fields.openTable path key with
      | some fields => return ⟨fields, path ++ [key]⟩
      | none => failure

/-- The line of a key and its value. -/
def entryLine (draft : Draft) : Scan Draft := do
  let (path, key) ← key
  Scan.mark '='
  spaces
  let item ← value ((← get).length + 1) 0
  endOfLine
  match draft.fields.addBelow draft.header path key item with
  | some fields => return { draft with fields := fields }
  | none => failure

/-- Lines until the end of the text. -/
def lines : Nat → Draft → Scan Draft
  | 0, _ => failure
  | fuel + 1, draft => do
      spaces
      match (← get).head? with
      | none => return draft
      | some '#' => do comment; endOfLine; lines fuel draft
      | some '[' => do lines fuel (← headerLine draft)
      | some '\n' | some '\r' => do lineBreak; lines fuel draft
      | some _ => do lines fuel (← entryLine draft)

/-- The tables of a text. A mark of the byte order at its start does not count. -/
def ofText? (text : List Char) : Option Fields :=
  let content := if text.head? = some '\ufeff' then text.drop 1 else text
  (lines (content.length + 1) ⟨[], []⟩ content).map fun (draft, _) => draft.fields

end Concordance.Toml
