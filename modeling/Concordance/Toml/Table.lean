import Concordance.Number

/-! Tables of settings. -/
namespace Concordance.Toml

/-- How a table came about: by its own header, by a longer header, by a key with dots, or between
brackets. -/
inductive Origin where
  | header
  | implied
  | dotted
  | closed
deriving DecidableEq, Repr

inductive Item where
  | text (text : String)
  | integer (value : Int)
  | float (value : Number)
  | boolean (value : Bool)
  | moment
  | array (items : List Item)
  | table (origin : Origin) (fields : List (String × Item))
  | rows (tables : List (List (String × Item)))

abbrev Fields := List (String × Item)

namespace Fields

def get? (fields : Fields) (key : String) : Option Item := fields.lookup key

/-- Replaces the item of a key, or puts it at the end. -/
def set (key : String) (item : Item) : Fields → Fields
  | [] => [(key, item)]
  | (other, old) :: rest =>
      if other = key then (key, item) :: rest else (other, old) :: set key item rest

/-- Changes the table that a path of keys leads to and makes those that are missing. A key with dots
does not lead into a table with a header of its own. -/
def changeAt (change : Origin → Fields → Option Fields) (isDotted : Bool) :
    List String → Origin → Fields → Option Fields
  | [], origin, fields => change origin fields
  | key :: path, _, fields =>
      match get? fields key with
      | none => do
          let origin := if isDotted then .dotted else .implied
          return fields.set key (.table origin (← changeAt change isDotted path origin []))
      | some (.table origin inner) =>
          if origin = .closed ∨ (isDotted ∧ origin = .header) then none
          else do return fields.set key (.table origin (← changeAt change isDotted path origin inner))
      | some (.rows tables) => do
          let row ← changeAt change isDotted path .header (tables.getLast?.getD [])
          return fields.set key (.rows (tables.dropLast ++ [row]))
      | some _ => none

/-- Adds an item under a key with dots, whose last part is given by itself. -/
def add (fields : Fields) (origin : Origin) (path : List String) (key : String) (item : Item) :
    Option Fields :=
  let change (reached : Origin) (inner : Fields) : Option Fields :=
    if (path ≠ [] ∧ reached ≠ .dotted) ∨ (get? inner key).isSome then none
    else some (inner.set key item)
  changeAt change true path origin fields

/-- Opens the table of a header. A table that only longer headers have named is opened with what it
holds. -/
def openTable (fields : Fields) (path : List String) (key : String) : Option Fields :=
  let change (_ : Origin) (inner : Fields) : Option Fields :=
    match get? inner key with
    | none => some (inner.set key (.table .header []))
    | some (.table .implied held) => some (inner.set key (.table .header held))
    | some _ => none
  changeAt change false path .header fields

/-- Adds an empty table to the rows under a header. -/
def openRow (fields : Fields) (path : List String) (key : String) : Option Fields :=
  let change (_ : Origin) (inner : Fields) : Option Fields :=
    match get? inner key with
    | none => some (inner.set key (.rows [[]]))
    | some (.rows tables) => some (inner.set key (.rows (tables ++ [[]])))
    | some _ => none
  changeAt change false path .header fields

/-- Adds an item to the table of the header that was opened last. -/
def addBelow (fields : Fields) (header : List String) (path : List String) (key : String)
    (item : Item) : Option Fields :=
  changeAt (fun origin inner => add inner origin path key item) false header .header fields

end Fields
end Concordance.Toml
