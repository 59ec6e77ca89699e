import Concordance.Calendar
import Concordance.Key
import Concordance.Ordered.Map

/-! Values of metadata: scalars, and arrays of scalars of one kind. -/
namespace Concordance

inductive Value where
  | null
  | bool (value : Bool)
  | number (value : Number)
  | text (value : String)
  | moment (value : Moment)
  | numbers (values : List Number)
  | texts (values : List String)
  | moments (values : List Moment)
deriving DecidableEq

/-- What is known about a document beside its words. -/
abbrev Metadata := OrderedMap Key Value

namespace Value

def kind : Value → ScalarKind
  | null => .null
  | bool _ => .bool
  | number _ | numbers _ => .number
  | text _ | texts _ => .text
  | moment _ | moments _ => .moment

def isArray : Value → Bool
  | numbers _ | texts _ | moments _ => true
  | _ => false

/-- The number of elements of an array. -/
def length? : Value → Option Nat
  | numbers values => some values.length
  | texts values => some values.length
  | moments values => some values.length
  | _ => none

def number? : Value → Option Number
  | number value => some value
  | _ => none

def text? : Value → Option String
  | text value => some value
  | _ => none

def moment? : Value → Option Moment
  | moment value => some value
  | _ => none

/-- The array of scalars that are all of the kind of the first. An empty array is one of numbers. -/
def ofItems : List Value → Except Fault Value
  | [] => .ok (numbers [])
  | first :: rest =>
      let all {α : Type} (element? : Value → Option α) (array : List α → Value) :=
        match (first :: rest).mapM element? with
        | some elements => .ok (array elements)
        | none => .error (.badValue (.mixedArray first.kind))
      match first.kind with
      | .number => all number? numbers
      | .text => all text? texts
      | .moment => all moment? moments
      | kind => .error (.badValue (.unsupportedArray kind))

/-- The order of two floats. A float that is no number has no place in it. -/
def compareFloats (first second : Float) : Option Ordering :=
  if first < second then some .lt
  else if first == second then some .eq
  else if second < first then some .gt
  else none

/-- The order of two scalars of one kind. Beside a moment a text stands for the moment it spells.
Arrays and scalars of different kinds are not ordered. -/
def compare? : Value → Value → Option Ordering
  | null, null => some .eq
  | bool first, bool second => some (compare first.toNat second.toNat)
  | number first, number second => compareFloats first.toFloat second.toFloat
  | text first, text second => some (compare first second)
  | moment first, moment second => some (compare first second)
  | moment first, text second => (Moment.ofText? second).map (compare first ·)
  | text first, moment second => (Moment.ofText? first).map (compare · second)
  | _, _ => none

/-- Values with equal content, numbers compared as floats. -/
def same : Value → Value → Bool
  | number first, number second => first.toFloat == second.toFloat
  | numbers first, numbers second =>
      first.length == second.length &&
        (first.zip second).all fun pair => pair.1.toFloat == pair.2.toFloat
  | first, second => first == second

/-- A list between square brackets. -/
def bracketed (items : List String) : String := "[" ++ ", ".intercalate items ++ "]"

/-- The value as a reader sees it. -/
def display : Value → String
  | null => "null"
  | bool value => if value then "true" else "false"
  | number value => value.toText
  | text value => Text.quote value
  | moment value => value.toText
  | numbers values => bracketed (values.map Number.toText)
  | texts values => bracketed (values.map Text.quote)
  | moments values => bracketed (values.map Moment.toText)

end Value
end Concordance
