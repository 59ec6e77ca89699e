import Concordance.Calendar
import Concordance.Toml.Table

/-! The single values of a settings file. -/
namespace Concordance.Toml

/-- A reader of the start of a text. -/
abbrev Scan := StateT (List Char) Option

namespace Scan

def satisfying (test : Char → Bool) : Scan Char := fun text =>
  match text with
  | [] => none
  | c :: rest => if test c then some (c, rest) else none

def mark (c : Char) : Scan Unit := do let _ ← satisfying (· == c)

/-- A sequence of characters, all or nothing. -/
def word : List Char → Scan Unit
  | [] => return
  | c :: rest => do mark c; word rest

/-- All characters that a test accepts, until the first that it does not. -/
def every (test : Char → Bool) : Scan (List Char) := fun text =>
  some (text.takeWhile test, text.dropWhile test)

/-- What a reader takes, or nothing. -/
def optional {α : Type} (scan : Scan α) : Scan (Option α) := fun text =>
  match scan text with
  | some (value, rest) => some (some value, rest)
  | none => some (none, text)

/-- Whether a reader would succeed. Nothing is taken. -/
def sees {α : Type} (scan : Scan α) : Scan Bool := fun text => some ((scan text).isSome, text)

end Scan

def isSpace (c : Char) : Bool := c == ' ' || c == '\t'

/-- A character that may stand in comments and texts: no control character but the tab. -/
def isVisible (c : Char) : Bool := c == '\t' || (0x20 ≤ c.toNat && c.toNat != 0x7f)

def spaces : Scan Unit := do let _ ← Scan.every isSpace

def lineBreak : Scan Unit := Scan.mark '\n' <|> Scan.word ['\r', '\n']

def comment : Scan Unit := do
  Scan.mark '#'
  let _ ← Scan.every isVisible

/-- Spaces, line breaks and comments. -/
def blanks : Nat → Scan Unit
  | 0 => spaces
  | fuel + 1 => do
      spaces
      if ← Scan.sees (Scan.mark '#') then comment
      match ← Scan.optional lineBreak with
      | some () => blanks fuel
      | none => return

/-- Spaces and line breaks. -/
def gap : Nat → Scan Unit
  | 0 => spaces
  | fuel + 1 => do
      spaces
      match ← Scan.optional lineBreak with
      | some () => gap fuel
      | none => return

def hexValue? (c : Char) : Option Nat :=
  if c.isDigit then some (c.toNat - 48)
  else if 'a' ≤ c ∧ c ≤ 'f' then some (c.toNat - 87)
  else if 'A' ≤ c ∧ c ≤ 'F' then some (c.toNat - 55)
  else none

/-- The character that so many hexadecimal digits stand for. -/
def codePoint : Nat → Nat → Scan Char
  | 0, value => fun text =>
      if valid : value.isValidChar then some (Char.ofNatAux value valid, text) else none
  | count + 1, value => do
      let c ← Scan.satisfying fun c => (hexValue? c).isSome
      codePoint count (value * 16 + (hexValue? c).getD 0)

/-- The character after a backslash. -/
def escape : Scan Char := do
  match ← Scan.satisfying fun _ => true with
  | 'b' => return '\x08'
  | 't' => return '\t'
  | 'n' => return '\n'
  | 'f' => return '\x0c'
  | 'r' => return '\r'
  | '"' => return '"'
  | '\\' => return '\\'
  | 'u' => codePoint 4 0
  | 'U' => codePoint 8 0
  | _ => failure

/-- The rest of a text on one line, with its closing quote. Only double quotes have escapes. -/
def lineText (quote : Char) : Nat → Scan (List Char)
  | 0 => failure
  | fuel + 1 => do
      let c ← Scan.satisfying isVisible
      if c = quote then return []
      else if c = '\\' ∧ quote = '"' then
        let escaped ← escape
        return escaped :: (← lineText quote fuel)
      else return c :: (← lineText quote fuel)

/-- The rest of a text of several lines. Up to two quotes may stand before the three that close it,
and a backslash at the end of a line joins it to the next character that is no blank. -/
def blockText (quote : Char) : Nat → Scan (List Char)
  | 0 => failure
  | fuel + 1 => do
      match ← Scan.optional lineBreak with
      | some () => return '\n' :: (← blockText quote fuel)
      | none =>
          let quotes := ((← get).takeWhile (· == quote)).take 5
          if quotes ≠ [] then
            set ((← get).drop quotes.length)
            if quotes.length < 3 then return quotes ++ (← blockText quote fuel)
            else return quotes.drop 3
          else
            let c ← Scan.satisfying isVisible
            if c = '\\' ∧ quote = '"' then
              match ← Scan.optional (do spaces; lineBreak) with
              | some () =>
                  gap fuel
                  blockText quote fuel
              | none =>
                  let escaped ← escape
                  return escaped :: (← blockText quote fuel)
            else return c :: (← blockText quote fuel)

/-- A text on one line between two quotes. -/
def quoted (quote : Char) : Scan String := do
  Scan.mark quote
  return String.ofList (← lineText quote ((← get).length + 1))

/-- A text of several lines between three quotes. A line break at its start does not count. -/
def block (quote : Char) : Scan String := do
  Scan.word [quote, quote, quote]
  let _ ← Scan.optional lineBreak
  return String.ofList (← blockText quote ((← get).length + 1))

def text : Scan String := block '"' <|> block '\x27' <|> quoted '"' <|> quoted '\x27'

/-- Digits, of which any two may have one underscore between them. -/
def takeDigits (isDigit : Char → Bool) : List Char → List Char × List Char
  | [] => ([], [])
  | ['_'] => ([], ['_'])
  | '_' :: c :: rest =>
      if isDigit c then
        let (digits, rest) := takeDigits isDigit rest
        (c :: digits, rest)
      else ([], '_' :: c :: rest)
  | c :: rest =>
      if isDigit c then
        let (digits, rest) := takeDigits isDigit rest
        (c :: digits, rest)
      else ([], c :: rest)

/-- At least one digit. The first character is no underscore. -/
def digits (isDigit : Char → Bool) : Scan (List Char) := do
  let first ← Scan.satisfying isDigit
  let rest := takeDigits isDigit (← get)
  set rest.2
  return first :: rest.1

/-- A sign, if there is one. The result is whether it is a minus. -/
def sign : Scan Bool := do
  match ← Scan.optional (Scan.satisfying fun c => c == '+' || c == '-') with
  | some c => return c == '-'
  | none => return false

/-- Digits of a whole number: zero alone, or digits that do not start with zero. -/
def wholeDigits : Scan (List Char) := do
  if ← Scan.sees (Scan.mark '0') then
    Scan.mark '0'
    return ['0']
  else digits Char.isDigit

/-- The power of ten after the letter `e`. -/
def exponent : Scan Int := do
  let _ ← Scan.satisfying fun c => c == 'e' || c == 'E'
  let isNegative ← sign
  let value := Number.readDigits 0 (← digits Char.isDigit)
  return if isNegative then -(value : Int) else value

/-- A number with a fraction, an exponent or both. No number stands for plus infinity this way. -/
def fraction : Scan Number := do
  let isNegative ← sign
  let whole ← wholeDigits
  let places ← Scan.optional (do Scan.mark '.'; digits Char.isDigit)
  let power ← if places.isSome then Scan.optional exponent else some <$> exponent
  let decimal := Number.Decimal.ofDigits whole (places.getD [])
  let magnitude :=
    ({ decimal with exponent := decimal.exponent + power.getD 0 } : Number.Decimal).nearestOfAny
  if magnitude = Number.infinity ∧ isNegative = false then failure
  else return .ofMagnitude isNegative magnitude

/-- The names of infinity and of what is no number. -/
def specialFloat : Scan Number := do
  let isNegative ← sign
  (do Scan.word ['i', 'n', 'f']; return .ofMagnitude isNegative Number.infinity) <|>
  (do Scan.word ['n', 'a', 'n']; return .ofMagnitude isNegative Number.notANumber)

/-- The first whole number that does not fit into 64 bits with a sign. -/
def wordBound : Nat := 0x8000000000000000

/-- The whole numbers that fit into 64 bits with a sign. -/
def inWord (value : Int) : Bool := -(wordBound : Int) ≤ value && value < (wordBound : Int)

/-- A whole number in a base after its mark. -/
def based (base : Nat) (letter : Char) : Scan Int := do
  Scan.word ['0', letter]
  let isDigit (c : Char) : Bool := (hexValue? c).any (· < base)
  let value := (← digits isDigit).foldl (fun value c => value * base + (hexValue? c).getD 0) 0
  if inWord value then return value else failure

def decimal : Scan Int := do
  let isNegative ← sign
  let value := Number.readDigits 0 (← wholeDigits)
  let signed : Int := if isNegative then -(value : Int) else value
  if inWord signed then return signed else failure

def integer : Scan Int := do
  if ← Scan.sees (Scan.mark '0' *> Scan.satisfying fun c => c == 'x' || c == 'o' || c == 'b') then
    based 16 'x' <|> based 8 'o' <|> based 2 'b'
  else decimal

/-- So many digits, as a number. -/
def fixed (count : Nat) : Scan Nat := do
  let digits := (← get).take count
  if digits.length = count ∧ digits.all Char.isDigit then
    set ((← get).drop count)
    return Number.readDigits 0 digits
  else failure

/-- A number of two digits up to a greatest one. -/
def pair (least greatest : Nat) : Scan Nat := do
  let value ← fixed 2
  if least ≤ value ∧ value ≤ greatest then return value else failure

/-- A day of the calendar. -/
def date : Scan Unit := do
  let year ← fixed 4
  Scan.mark '-'
  let month ← pair 1 12
  Scan.mark '-'
  let _ ← pair 1 (daysInMonth year month)

/-- A time of day, to any part of a second. -/
def time : Scan Unit := do
  let _ ← pair 0 23
  Scan.mark ':'
  let _ ← pair 0 59
  Scan.mark ':'
  let _ ← pair 0 60
  let _ ← Scan.optional (do Scan.mark '.'; let _ ← Scan.satisfying Char.isDigit; Scan.every Char.isDigit)

/-- The distance of a time from the one at the prime meridian. -/
def zone : Scan Unit :=
  (do let _ ← Scan.satisfying fun c => c == 'Z' || c == 'z') <|>
  (do
    let _ ← Scan.satisfying fun c => c == '+' || c == '-'
    let _ ← pair 0 23
    Scan.mark ':'
    let _ ← pair 0 59)

/-- A date, a time, or both. -/
def moment : Scan Unit :=
  (do
    date
    let _ ← Scan.optional do
      let _ ← Scan.satisfying fun c => c == 'T' || c == 't' || c == ' '
      time
      let _ ← Scan.optional zone) <|>
  time

def boolean : Scan Bool :=
  (do Scan.word ['t', 'r', 'u', 'e']; return true) <|>
  (do Scan.word ['f', 'a', 'l', 's', 'e']; return false)

/-- A value without parts. -/
def scalar : Scan Item :=
  (do return .text (← text)) <|> (do moment; return .moment) <|> (do return .float (← fraction)) <|>
  (do return .float (← specialFloat)) <|> (do return .integer (← integer)) <|>
  (do return .boolean (← boolean))

end Concordance.Toml
