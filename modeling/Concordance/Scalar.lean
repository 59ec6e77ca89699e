namespace Concordance

inductive ScalarKind where
  | null
  | bool
  | number
  | text
  | moment
deriving DecidableEq, Repr

namespace ScalarKind

def name : ScalarKind → String
  | null => "null"
  | bool => "bool"
  | number => "number"
  | text => "string"
  | moment => "datetime"

/-- The byte that marks a kind in a written value. -/
def tag : ScalarKind → UInt8
  | null => 0
  | bool => 1
  | number => 2
  | text => 3
  | moment => 4

def ofTag? (tag : UInt8) : Option ScalarKind :=
  if tag = 0 then some null
  else if tag = 1 then some bool
  else if tag = 2 then some number
  else if tag = 3 then some text
  else if tag = 4 then some moment
  else none

end ScalarKind
end Concordance
