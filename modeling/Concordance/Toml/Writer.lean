import Concordance.Number.Shortest
import Concordance.Toml.Table

/-! The written form of settings. -/
namespace Concordance.Toml

/-- How a text is quoted: on one line or on several, with escapes or as it is. -/
inductive Quoting where
  | basic
  | literal
  | blockBasic
  | blockLiteral
deriving DecidableEq, Repr

namespace Quoting

def isBlock : Quoting → Bool
  | blockBasic | blockLiteral => true
  | basic | literal => false

def mark : Quoting → List Char
  | basic => ['"']
  | literal => ['\x27']
  | blockBasic => ['"', '"', '"']
  | blockLiteral => ['\x27', '\x27', '\x27']

end Quoting

/-- The length of the longest run of one character, where `run` of it stand before the text. -/
def longestRun (mark : Char) : Nat → List Char → Nat
  | run, [] => run
  | run, c :: rest =>
      if c = mark then longestRun mark (run + 1) rest else max run (longestRun mark 0 rest)

/-- A control character that can only be written with an escape. -/
def needsEscape (c : Char) : Bool :=
  c != '\t' && c != '\n' && (c.toNat ≤ 0x1f || c.toNat == 0x7f)

/-- A text stands between double quotes where nothing in it asks for an escape, then between single
ones, and then in a block of either. -/
def Quoting.ofText (text : List Char) : Quoting :=
  let isPlain := !text.any needsEscape
  let isStraight := isPlain && !text.contains '\\'
  let hasBreak := text.contains '\n'
  let doubles := longestRun '"' 0 text
  let singles := longestRun '\x27' 0 text
  if isStraight && doubles == 0 && !hasBreak then .basic
  else if isPlain && singles == 0 && !hasBreak then .literal
  else if isStraight && doubles ≤ 2 then .blockBasic
  else if isPlain && singles ≤ 2 then .blockLiteral
  else if hasBreak then .blockBasic
  else .basic

/-- A character between double quotes, other than a double quote. -/
def escapeChar (isBlock : Bool) (c : Char) : List Char :=
  if c = '\x08' then ['\\', 'b']
  else if c = '\t' then ['\\', 't']
  else if c = '\n' then (if isBlock then ['\n'] else ['\\', 'n'])
  else if c = '\x0c' then ['\\', 'f']
  else if c = '\r' then ['\\', 'r']
  else if c = '\\' then ['\\', '\\']
  else if needsEscape c then
    let digits := (Nat.toDigits 16 c.toNat).map Char.toUpper
    ['\\', 'u'] ++ List.replicate (4 - digits.length) '0' ++ digits
  else [c]

/-- A text between double quotes, after a run of double quotes. In a block two of them may stand in a
row. -/
def escapeText (isBlock : Bool) : Nat → List Char → List Char
  | _, [] => []
  | run, c :: rest =>
      if c = '"' then
        if isBlock && run < 2 then c :: escapeText isBlock (run + 1) rest
        else '\\' :: '"' :: escapeText isBlock 0 rest
      else escapeChar isBlock c ++ escapeText isBlock 0 rest

def writeText (text : String) : String :=
  let chars := text.toList
  let quoting := Quoting.ofText chars
  let lineStart := if quoting.isBlock && chars.contains '\n' then ['\n'] else []
  let body := match quoting with
    | .literal | .blockLiteral => chars
    | .basic | .blockBasic => escapeText quoting.isBlock 0 chars
  String.ofList (quoting.mark ++ lineStart ++ body ++ quoting.mark)

/-- A number always shows that it is no whole one: by a point, or by its name. -/
def writeFloat (x : Number) : String :=
  if x.isNaN then "nan"
  else if x.isInfinite then x.toText
  else if x.text.contains '.' then x.toText
  else x.toText ++ ".0"

/-- Texts between brackets. More than one of them are written one a line. -/
def writeTexts (texts : List String) : String :=
  match texts with
  | [] => "[]"
  | [text] => "[" ++ writeText text ++ "]"
  | texts => "[" ++ String.join (texts.map fun text => "\n    " ++ writeText text ++ ",") ++ "\n]"

/-- A header with the lines of its table. -/
def writeTable (name : String) (fields : List (String × String)) : String :=
  "[" ++ name ++ "]\n" ++ String.join (fields.map fun field => field.1 ++ " = " ++ field.2 ++ "\n")

end Concordance.Toml
