import Concordance.Query.Basic
import Concordance.Query.Lexer

namespace Concordance.Query

/-- A text inside quotation marks, with the marks in it doubled and backslashes escaped. -/
def quoteWith (mark : Char) (text : List Char) : List Char :=
  mark :: text.flatMap (fun c =>
    if c = '\\' then ['\\', '\\'] else if c = mark then [c, c] else [c]) ++ [mark]

def quoteLiteral (text : String) : String := String.ofList (quoteWith apostrophe text.toList)

/-- A text that is one bare word. -/
def isBareWord : List Char → Bool
  | [] => false
  | c :: rest => isWordStart c && rest.all isWordChar

/-- A segment of a key, quoted unless it is a bare word that is not reserved, or digits after a
dot. -/
def segmentText (isFirst : Bool) (segment : String) : String :=
  if (!isFirst && segment.toList.all Char.isDigit) ||
      (isBareWord segment.toList && segment ∉ reserved) then segment
  else String.ofList (quoteWith backquote segment.toList)

def segmentTexts : List String → List String
  | [] => []
  | first :: rest => segmentText true first :: rest.map (segmentText false)

def keyText (key : Key) : String := ".".intercalate (segmentTexts key.segments)

def valueText : Value → String
  | .null => "NULL"
  | .bool value => if value then "TRUE" else "FALSE"
  | .number value => value.toText
  | .text value => quoteLiteral value
  | .moment value => quoteLiteral value.toText
  | value => value.display

def Target.text (target : Target) : String :=
  match target.aggregate with
  | some aggregate => aggregate.name ++ "(" ++ keyText target.key ++ ")"
  | none => keyText target.key

def Condition.text (condition : Condition) : String :=
  match condition.test with
  | .compare comparison value =>
      condition.target.text ++ " " ++ comparison.symbol ++ " " ++ valueText value
  | .within negated values =>
      condition.target.text ++ (if negated then " NOT IN (" else " IN (") ++
        ", ".intercalate (values.map valueText) ++ ")"

namespace Formula

variable {α : Type}

mutual

/-- A formula with its groups in round brackets. -/
def render (leafText : α → String) : Formula α → String
  | leaf l => leafText l
  | negation inner => "NOT " ++ inner.render leafText
  | conjunction parts => "(" ++ renderParts leafText " AND " parts ++ ")"
  | disjunction parts => "(" ++ renderParts leafText " OR " parts ++ ")"

def renderParts (leafText : α → String) (word : String) : List (Formula α) → String
  | [] => ""
  | [part] => part.render leafText
  | part :: next :: rest =>
      part.render leafText ++ word ++ renderParts leafText word (next :: rest)

end

end Formula

/-- The query as text. -/
def text (query : Query) : String :=
  let words := query.words.map (·.render quoteLiteral)
  let having := query.having.map fun formula => "HAVING " ++ formula.render Condition.text
  let limit := query.limit.map fun n => "LIMIT " ++ String.ofList (Number.decimalDigits n)
  " ".intercalate ([words, having, limit].filterMap id)

end Concordance.Query
