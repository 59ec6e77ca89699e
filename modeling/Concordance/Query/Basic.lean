import Concordance.Query.Condition
import Concordance.Query.Formula

/-! What a query asks for: words, conditions on metadata, and how many documents are wanted. -/
namespace Concordance

structure Query where
  words : Option (Query.Formula String)
  having : Option (Query.Formula Query.Condition)
  limit : Option Nat
deriving DecidableEq

namespace Query

/-- The query that asks for nothing. -/
def empty : Query := ⟨none, none, none⟩

/-- A list without the repetitions of elements that stood before. -/
def distinct {α : Type} [DecidableEq α] (elements : List α) : List α :=
  elements.foldl (fun seen element => if element ∈ seen then seen else seen ++ [element]) []

/-- The distinct words of a query in the order of their first appearance. -/
def terms (query : Query) : List String :=
  match query.words with
  | some words => distinct words.leaves
  | none => []

/-- The words with a meaning in the grammar. They are no names of keys. -/
def reserved : List String :=
  ["HAVING", "LIMIT", "AND", "OR", "NOT", "IN", "TRUE", "FALSE", "NULL"]

end Query
end Concordance
