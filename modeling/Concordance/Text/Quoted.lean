import Concordance.Text.Printable

/-! Quoted text as messages show it. -/
namespace Concordance.Text

/-- The hexadecimal digits of a number, with no leading zero. -/
def hexDigits (n : Nat) : List Char := Nat.toDigits 16 n

/-- One character inside a quotation. -/
def escape (c : Char) : List Char :=
  if c = '\x00' then ['\\', '0']
  else if c = '\t' then ['\\', 't']
  else if c = '\n' then ['\\', 'n']
  else if c = '\r' then ['\\', 'r']
  else if c = '"' ∨ c = '\\' then ['\\', c]
  else if isPrintable c then [c]
  else ['\\', 'u', '\x7b'] ++ hexDigits c.toNat ++ ['\x7d']

def quoteChars (text : List Char) : List Char := '"' :: text.flatMap escape ++ ['"']

/-- The text between double quotes. -/
def quote (text : String) : String := String.ofList (quoteChars text.toList)

end Concordance.Text
