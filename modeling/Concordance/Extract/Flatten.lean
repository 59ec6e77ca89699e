import Concordance.Extract.Json
import Concordance.Value

/-! Metadata of JSON documents. -/
namespace Concordance.Extract

/-- The scalar of a JSON value. A text that spells a moment becomes that moment. -/
def scalarOf : Json → Except Fault Value
  | .null => .ok .null
  | .bool value => .ok (.bool value)
  | .number value => .ok (.number value)
  | .string value =>
      match Moment.ofText? value with
      | some moment => .ok (.moment moment)
      | none => .ok (.text value)
  | .array _ => .error (.badValue .nestedArray)
  | .object _ => .error (.badValue .unexpectedObject)

/-- Moments among texts are written as texts. -/
def demoteMoments (items : List Value) : List Value :=
  if items.any (·.text?.isSome) && items.any (·.moment?.isSome) then
    items.map fun item => match item with
      | .moment moment => .text moment.toText
      | other => other
  else items

/-- The value that a JSON value is filed as. -/
def valueOf : Json → Except Fault Value
  | .array items => do
      let scalars ← items.mapM scalarOf
      Value.ofItems (demoteMoments scalars)
  | other => scalarOf other

/-- File a value under the names on the way to it. A document that is a single value has none. -/
def file (path : List String) (node : Json) (metadata : Metadata) : Except Fault Metadata :=
  if path.isEmpty then .ok metadata
  else do
    let key ← Key.ofSegments path
    return metadata.insert key (← valueOf node)

mutual

/-- File everything below a node. An array with an object among its items files its objects only,
each under its place; any other array is a value. -/
def flattenInto (path : List String) (metadata : Metadata) : Json → Except Fault Metadata
  | .object fields => flattenFields path metadata fields
  | .array items =>
      if items.any Json.isObject then flattenItems path 0 metadata items
      else file path (.array items) metadata
  | node => file path node metadata

def flattenFields (path : List String) (metadata : Metadata) :
    List (String × Json) → Except Fault Metadata
  | [] => .ok metadata
  | (name, child) :: rest => do
      flattenFields path (← flattenInto (path ++ [name]) metadata child) rest

def flattenItems (path : List String) (index : Nat) (metadata : Metadata) :
    List Json → Except Fault Metadata
  | [] => .ok metadata
  | item :: rest => do
      let metadata ←
        if item.isObject then flattenInto (path ++ [String.ofList (Number.decimalDigits index)]) metadata item
        else .ok metadata
      flattenItems path (index + 1) metadata rest

end

/-- The metadata of a JSON document. -/
def flatten (document : Json) : Except Fault Metadata := flattenInto [] .empty document

/-- The metadata of bytes that spell a JSON document. -/
def flattenBytes (bytes : List UInt8) : Except Fault Metadata :=
  match Json.ofBytes? bytes with
  | some document => flatten document
  | none => .error .json

end Concordance.Extract
