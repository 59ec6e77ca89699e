import Concordance.IdSet
import Concordance.Retrieval.Score

/-! How a query is answered: stages that each take a selection of documents and give another. -/
namespace Concordance.Retrieval

/-- Why there is no answer. A fault is given back to whoever asks; a crash ends the program at once,
where a set is asked for a word that it does not have. -/
inductive Abort where
  | fault (cause : Fault)
  | crash

/-- A result that is there unless looking it up has failed. -/
def require {α : Type} : Option α → Except Abort α
  | some value => .ok value
  | none => .error .crash

/-- Documents on the way from a query to its answer. -/
inductive Selection where
  | chosen (ids : OrderedSet DocId)
  | ranked (ranking : Ranking)

namespace Selection

def size : Selection → Nat
  | chosen ids => ids.size
  | ranked ranking => ranking.size

def isEmpty (selection : Selection) : Bool := selection.size == 0

def kind : Selection → String
  | chosen _ => "doc ids"
  | ranked _ => "scored docs"

/-- The selection as an answer. What has not been ranked scores nothing. -/
def ranking : Selection → Ranking
  | chosen ids => .ofPairs (ids.toList.map fun id => (0, id))
  | ranked ranking => ranking

end Selection

mutual

/-- The documents up to a greatest number that the words of a query select, gone ones included. -/
def select (catalog : Catalog) (greatest : Nat) : Query.Formula String → Option IdSet
  | .leaf word =>
      match catalog.posting? word with
      | some posting => IdSet.ofIds? greatest (posting.documents.map UInt64.toNat)
      | none => some (.empty greatest)
  | .negation inner => (select catalog greatest inner).map IdSet.complement
  | .conjunction [] => some (.empty greatest)
  | .conjunction (first :: rest) => do
      selectAll catalog greatest (← select catalog greatest first) rest
  | .disjunction [] => some (.empty greatest)
  | .disjunction (first :: rest) => do
      selectAny catalog greatest (← select catalog greatest first) rest

def selectAll (catalog : Catalog) (greatest : Nat) (set : IdSet) :
    List (Query.Formula String) → Option IdSet
  | [] => some set
  | part :: rest => do
      selectAll catalog greatest (set.inter (← select catalog greatest part)) rest

def selectAny (catalog : Catalog) (greatest : Nat) (set : IdSet) :
    List (Query.Formula String) → Option IdSet
  | [] => some set
  | part :: rest => do
      selectAny catalog greatest (set.union (← select catalog greatest part)) rest

end

inductive Stage where
  | terms (words : Option (Query.Formula String))
  | having (conditions : Option (Query.Formula Query.Condition))
  | score (words : List QueryTerm)
  | limit (count : Option Nat)

namespace Stage

def name : Stage → String
  | terms _ => "terms"
  | having _ => "having"
  | score _ => "score"
  | limit _ => "limit"

/-- A stage does not take a selection of this kind. -/
def unexpected (stage : Stage) (selection : Selection) : Fault :=
  .internal s!"{stage.name} stage received {selection.kind}"

/-- The numbers of documents that are in a set, where the words for all of them are found. -/
def keepSelected (selected : IdSet) (live : OrderedSet DocId) : Option (OrderedSet DocId) :=
  if live.toList.any fun id => selected.lacksWord id.toNat then none
  else some (live.filter fun id => selected.contains id.toNat)

/-- The documents that the words of a query select, all of them when it has none. -/
def choose (catalog : Catalog) (words : Option (Query.Formula String)) :
    Option (OrderedSet DocId) :=
  match words with
  | none => some catalog.live
  | some words => do
      keepSelected (← select catalog catalog.greatestId.toNat words) catalog.live

/-- A document meets the conditions of a query. -/
def meets (catalog : Catalog) (conditions : Query.Formula Query.Condition) (id : DocId) : Bool :=
  (catalog.document? id).any fun document =>
    conditions.evaluate fun condition => condition.holds document.metadata

/-- What a stage makes of a selection. Words choose anew, whatever was selected before. -/
def run (settings : ScoringSettings) (catalog : Catalog) (stage : Stage) (selection : Selection) :
    Except Abort Selection :=
  match stage, selection with
  | terms words, _ => do return .chosen (← require (choose catalog words))
  | having none, selection => .ok selection
  | having (some conditions), .chosen ids => .ok (.chosen (ids.filter (meets catalog conditions)))
  | score words, .chosen ids => .ok (.ranked (rank settings catalog words ids.toList))
  | limit none, selection => .ok selection
  | limit (some count), .ranked ranking => .ok (.ranked (ranking.truncate count))
  | stage, selection => .error (.fault (stage.unexpected selection))

end Stage

/-- Stages one after another. -/
def runStages (settings : ScoringSettings) (catalog : Catalog) :
    List Stage → Selection → Except Abort Selection
  | [], selection => .ok selection
  | stage :: rest, selection => do
      runStages settings catalog rest (← stage.run settings catalog selection)

/-- The answer that stages give when they start from nothing. -/
def answer (settings : ScoringSettings) (catalog : Catalog) (stages : List Stage) :
    Except Abort Ranking := do
  return (← runStages settings catalog stages (.chosen .empty)).ranking

/-- The stages of a query, always the same four. -/
def stagesOf (query : Query) : List Stage :=
  [.terms query.words, .having query.having, .score (queryTerms query), .limit query.limit]

/-- The stages that rank one word and keep the best documents. -/
def stagesOfWord (word : String) (limit : Nat) : List Stage :=
  [.terms (some (.leaf word)), .having none, .score [(word, 1)], .limit (some limit)]

/-- The documents that answer a query, the best first. -/
def execute (settings : ScoringSettings) (catalog : Catalog) (query : Query) :
    Except Abort Ranking :=
  answer settings catalog (stagesOf query)

end Concordance.Retrieval
