import Concordance.Value

/-! Conditions on the metadata of a document, and when they hold. -/
namespace Concordance.Query

/-- What is made of an array before it is compared. -/
inductive Aggregate where
  | sum
  | count
  | average
  | largest
  | smallest
deriving DecidableEq, Repr

namespace Aggregate

def name : Aggregate → String
  | sum => "sum"
  | count => "count"
  | average => "avg"
  | largest => "max"
  | smallest => "min"

def ofName? (name : String) : Option Aggregate :=
  if name = "sum" then some sum
  else if name = "count" then some count
  else if name = "avg" then some average
  else if name = "max" then some largest
  else if name = "min" then some smallest
  else none

theorem ofName?_name (aggregate : Aggregate) : ofName? aggregate.name = some aggregate := by
  cases aggregate <;> decide

end Aggregate

/-- The sum of floats, added from left to right to a negative zero. -/
def sumFloats (values : List Float) : Float := values.foldl (· + ·) (-0.0)

/-- The first element that no later one surpasses, when `surpasses` compares an element with the
best one before it. -/
def best? {α : Type} (surpasses : α → α → Bool) : List α → Option α
  | [] => none
  | first :: rest => some (rest.foldl (fun best x => if surpasses x best then x else best) first)

/-- The extreme element of an array in the wanted direction. -/
def extreme (direction : Ordering) : Value → Option Value
  | .numbers values =>
      (best? (fun x best => (Value.compareFloats x.toFloat best.toFloat).getD .eq == direction)
        values).map .number
  | .texts values => (best? (fun x best => compare x best == direction) values).map .text
  | .moments values => (best? (fun x best => compare x best == direction) values).map .moment
  | _ => none

/-- The scalar that an aggregate makes of a value. A scalar stays as it is. Only numbers are summed
up, and an empty array has no average and no extremes. -/
def Aggregate.apply (aggregate : Aggregate) (value : Value) : Option Value :=
  if !value.isArray then some value
  else match aggregate, value with
    | .count, value => value.length?.map fun length => .number (.ofFloat (Float.ofNat length))
    | .sum, .numbers values =>
        some (.number (.ofFloat (sumFloats (values.map Number.toFloat))))
    | .average, .numbers (first :: rest) =>
        let total := sumFloats ((first :: rest).map Number.toFloat)
        some (.number (.ofFloat (total / Float.ofNat (rest.length + 1))))
    | .largest, value => extreme .gt value
    | .smallest, value => extreme .lt value
    | _, _ => none

inductive Comparison where
  | equal
  | notEqual
  | less
  | greater
  | lessOrEqual
  | greaterOrEqual
deriving DecidableEq, Repr

namespace Comparison

def symbol : Comparison → String
  | equal => "="
  | notEqual => "!="
  | less => "<"
  | greater => ">"
  | lessOrEqual => "<="
  | greaterOrEqual => ">="

/-- The comparison is true of two values in this order. -/
def accepts : Comparison → Ordering → Bool
  | equal, order => order == .eq
  | notEqual, order => order != .eq
  | less, order => order == .lt
  | greater, order => order == .gt
  | lessOrEqual, order => order != .gt
  | greaterOrEqual, order => order != .lt

end Comparison

/-- The value that a condition looks at. -/
structure Target where
  key : Key
  aggregate : Option Aggregate
deriving DecidableEq

inductive Test where
  | compare (comparison : Comparison) (value : Value)
  | within (negated : Bool) (values : List Value)
deriving DecidableEq

structure Condition where
  target : Target
  test : Test
deriving DecidableEq

namespace Condition

/-- The scalar that a target selects. An array needs an aggregate. -/
def select (target : Target) (metadata : Metadata) : Option Value :=
  match metadata.get? target.key with
  | none => none
  | some value =>
      match target.aggregate with
      | some aggregate => aggregate.apply value
      | none => if value.isArray then none else some value

def accepts (test : Test) (value : Value) : Bool :=
  match test with
  | .compare comparison other => (value.compare? other).any comparison.accepts
  | .within negated values =>
      (values.any fun other => value.compare? other == some .eq) != negated

/-- A condition holds when its target selects a scalar that passes the test. -/
def holds (metadata : Metadata) (condition : Condition) : Bool :=
  (select condition.target metadata).any (accepts condition.test)

end Condition
end Concordance.Query
