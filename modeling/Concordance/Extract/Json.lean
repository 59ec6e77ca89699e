import Concordance.Number.Nearest
import Concordance.Ordered.Map
import Concordance.Text.Utf8

/-! JSON documents. -/
namespace Concordance.Extract

inductive Json where
  | null
  | bool (value : Bool)
  | number (value : Number)
  | string (value : String)
  | array (items : List Json)
  | object (fields : List (String × Json))

namespace Json

/-- The greatest depth to which arrays and objects may be nested. -/
def maxDepth : Nat := 127

def isBlank (c : Char) : Bool := c == ' ' || c == '\n' || c == '\t' || c == '\r'

def skipBlanks (text : List Char) : List Char := text.dropWhile isBlank

/-- The greatest whole number of 64 bits. -/
def maxWord : Nat := UInt64.size - 1

/-- Digits are taken as long as the number they make fits into 64 bits. -/
def takeDigits : Nat → List Char → Nat × List Char
  | value, [] => (value, [])
  | value, c :: rest =>
      let next := value * 10 + Number.digitValue c
      if maxWord < next then (value, c :: rest) else takeDigits next rest

/-- A float times a power of ten, where that is no infinity. The power is applied at once, or in two
steps where it is beneath all floats. -/
def scaleFloat : Nat → Float → Int → Option Float
  | 0, value, _ => some value
  | fuel + 1, value, exponent =>
      let power (n : Nat) := (Number.ofMagnitude false (Number.Decimal.mk 1 n).nearest).toFloat
      if exponent.natAbs ≤ 308 then
        if 0 ≤ exponent then
          let scaled := value * power exponent.natAbs
          if scaled.isInf then none else some scaled
        else some (value / power exponent.natAbs)
      else if value == 0.0 then some value
      else if 0 ≤ exponent then none
      else scaleFloat fuel (value / power 308) (exponent + 308)

/-- The number of a sign, its first digits and a power of ten. -/
def numberOf (negative : Bool) (digits : Nat) (exponent : Int) : Option Number :=
  (scaleFloat 4 (Float.ofNat digits) exponent).map fun value =>
    .ofMagnitude negative (Number.ofFloat value).magnitude

/-- The power of ten after the letter `e`, and what follows it. -/
def readExponent (text : List Char) : Option (Int × List Char) :=
  let (negative, rest) := match text with
    | '-' :: rest => (true, rest)
    | '+' :: rest => (false, rest)
    | rest => (false, rest)
  let digits := rest.takeWhile Char.isDigit
  if digits.isEmpty then none
  else
    let value := Number.readDigits 0 digits
    some (if negative then -(value : Int) else value, rest.dropWhile Char.isDigit)

/-- An exponent, if the text has one. -/
def readOptionalExponent (text : List Char) : Option (Int × List Char) :=
  match text with
  | 'e' :: rest => readExponent rest
  | 'E' :: rest => readExponent rest
  | rest => some (0, rest)

/-- The digits after a point, if the text has one. -/
def readFraction (text : List Char) : Option (List Char × List Char) :=
  match text with
  | '.' :: rest =>
      let digits := rest.takeWhile Char.isDigit
      if digits.isEmpty then none else some (digits, rest.dropWhile Char.isDigit)
  | rest => some ([], rest)

/-- A number after its sign. Digits that do not fit into 64 bits only count as places. -/
def readUnsigned (negative : Bool) (text : List Char) : Option (Number × List Char) := do
  let whole := text.takeWhile Char.isDigit
  if whole.isEmpty || (whole.length != 1 && whole.head? == some '0') then none
  let (fraction, rest) ← readFraction (text.dropWhile Char.isDigit)
  let (exponent, rest) ← readOptionalExponent rest
  let (first, dropped) := takeDigits 0 whole
  let (digits, unused) := takeDigits first fraction
  let places : Int := (dropped.length : Int) - (fraction.length - unused.length : Nat)
  let number ← numberOf negative digits (places + exponent)
  some (number, rest)

/-- The value of four hexadecimal digits, and what follows them. -/
def readHex (text : List Char) : Option (Nat × List Char) :=
  let digits := text.take 4
  let valueOf (c : Char) : Option Nat :=
    if c.isDigit then some (c.toNat - 48)
    else if 'a' ≤ c ∧ c ≤ 'f' then some (c.toNat - 87)
    else if 'A' ≤ c ∧ c ≤ 'F' then some (c.toNat - 55)
    else none
  if digits.length ≠ 4 then none
  else (digits.mapM valueOf).map fun values =>
    (values.foldl (fun value digit => value * 16 + digit) 0, text.drop 4)

/-- The character after `\u`, which may take two escapes. -/
def readUnicode (text : List Char) : Option (Char × List Char) := do
  let (first, rest) ← readHex text
  if first < 0xd800 ∨ 0xdfff < first then some (Char.ofNat first, rest)
  else if 0xdc00 ≤ first then none
  else match rest with
    | '\\' :: 'u' :: rest =>
        let (second, rest) ← readHex rest
        if second < 0xdc00 ∨ 0xdfff < second then none
        else some (Char.ofNat (0x10000 + (first - 0xd800) * 1024 + (second - 0xdc00)), rest)
    | _ => none

/-- The characters up to the closing quotation mark, and what follows it. -/
def readString : Nat → List Char → Option (List Char × List Char)
  | 0, _ => none
  | fuel + 1, text =>
      match text with
      | [] => none
      | '"' :: rest => some ([], rest)
      | '\\' :: 'u' :: rest => do
          let (c, rest) ← readUnicode rest
          let (more, rest) ← readString fuel rest
          some (c :: more, rest)
      | '\\' :: c :: rest => do
          let c ← match c with
            | '"' => some '"'
            | '\\' => some '\\'
            | '/' => some '/'
            | 'b' => some '\x08'
            | 'f' => some '\x0c'
            | 'n' => some '\n'
            | 'r' => some '\r'
            | 't' => some '\t'
            | _ => none
          let (more, rest) ← readString fuel rest
          some (c :: more, rest)
      | c :: rest =>
          if c.toNat < 0x20 ∨ c = '\\' then none
          else do
            let (more, rest) ← readString fuel rest
            some (c :: more, rest)

/-- What follows a word at the start of a text. -/
def skipWord (word text : List Char) : Option (List Char) :=
  if word.isPrefixOf text then some (text.drop word.length) else none

mutual

/-- The value that a text starts with. -/
def readValue : Nat → Nat → List Char → Option (Json × List Char)
  | 0, _, _ => none
  | fuel + 1, depth, text =>
      match skipBlanks text with
      | '\x7b' :: rest =>
          if depth = 0 then none
          else match skipBlanks rest with
            | '\x7d' :: rest => some (object [], rest)
            | rest => (readFields fuel (depth - 1) [] rest).map fun (fields, rest) =>
                (object fields, rest)
      | '[' :: rest =>
          if depth = 0 then none
          else match skipBlanks rest with
            | ']' :: rest => some (array [], rest)
            | rest => (readItems fuel (depth - 1) rest).map fun (items, rest) =>
                (array items, rest)
      | '"' :: rest => (readString (rest.length + 1) rest).map fun (value, rest) =>
          (string (String.ofList value), rest)
      | '-' :: rest => (readUnsigned true rest).map fun (value, rest) => (number value, rest)
      | 'n' :: rest => (skipWord ['u', 'l', 'l'] rest).map fun rest => (null, rest)
      | 't' :: rest => (skipWord ['r', 'u', 'e'] rest).map fun rest => (bool true, rest)
      | 'f' :: rest => (skipWord ['a', 'l', 's', 'e'] rest).map fun rest => (bool false, rest)
      | rest => (readUnsigned false rest).map fun (value, rest) => (number value, rest)

/-- The items of an array up to its end. -/
def readItems : Nat → Nat → List Char → Option (List Json × List Char)
  | 0, _, _ => none
  | fuel + 1, depth, text => do
      let (item, rest) ← readValue fuel depth text
      match skipBlanks rest with
      | ',' :: rest =>
          let (items, rest) ← readItems fuel depth rest
          some (item :: items, rest)
      | ']' :: rest => some ([item], rest)
      | _ => none

/-- The fields of an object up to its end, joined to the fields before them. -/
def readFields : Nat → Nat → List (String × Json) → List Char →
    Option (List (String × Json) × List Char)
  | 0, _, _, _ => none
  | fuel + 1, depth, fields, text =>
      match skipBlanks text with
      | '"' :: rest => do
          let (name, rest) ← readString (rest.length + 1) rest
          match skipBlanks rest with
          | ':' :: rest =>
              let (value, rest) ← readValue fuel depth rest
              let fields := OrderedMap.put (String.ofList name) value fields
              match skipBlanks rest with
              | ',' :: rest => readFields fuel depth fields rest
              | '\x7d' :: rest => some (fields, rest)
              | _ => none
          | _ => none
      | _ => none

end

/-- The document that a text is. -/
def ofText? (text : List Char) : Option Json := do
  let (value, rest) ← readValue (2 * text.length + 2) maxDepth text
  if (skipBlanks rest).isEmpty then some value else none

/-- The document that bytes spell. -/
def ofBytes? (bytes : List UInt8) : Option Json :=
  match Utf8.decode bytes with
  | .ok text => ofText? text
  | .error _ => none

def isObject : Json → Bool
  | object _ => true
  | _ => false

end Json
end Concordance.Extract
