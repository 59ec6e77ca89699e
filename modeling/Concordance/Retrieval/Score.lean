import Concordance.Catalog
import Concordance.Query.Basic
import Concordance.Ranking
import Concordance.Settings

/-! The score of a document for the words of a query. -/
namespace Concordance.Retrieval

/-- A word with the number of times that a query names it. -/
abbrev QueryTerm := String × Nat

/-- Counts one more mention of a word. -/
def mention (word : String) : List QueryTerm → List QueryTerm
  | [] => [(word, 1)]
  | (other, count) :: rest =>
      if other = word then (other, count + 1) :: rest else (other, count) :: mention word rest

/-- The words of a query in the order of their first mention. -/
def queryTerms (query : Query) : List QueryTerm :=
  match query.words with
  | some words => words.leaves.foldl (fun terms word => mention word terms) []
  | none => []

/-- A word of a query that the catalog has: where it stands, how rare it is, and how much the query
asks for it. -/
structure WeightedTerm where
  posting : Posting
  rarity : Float
  demand : Float

/-- The weight of a word by the number of documents that have it. A word that none has counts as one
that all have. -/
def rarity (total : Float) (frequency : Nat) : Float :=
  let having := if frequency = 0 then total else Float.ofNat frequency
  Float.log ((total - having + 0.5) / (having + 0.5))

/-- In a long query a word that is named often weighs more. -/
def demand (settings : ScoringSettings) (isLong : Bool) (count : Nat) : Float :=
  let k3 := settings.k3.toFloat
  if isLong then (k3 + 1.0) * Float.ofNat count / (k3 + Float.ofNat count) else 1.0

def weigh (settings : ScoringSettings) (catalog : Catalog) (terms : List QueryTerm) :
    List WeightedTerm :=
  let isLong : Bool := settings.longQueryTerms ≤ terms.length
  terms.filterMap fun (word, count) =>
    (catalog.posting? word).map fun posting =>
      ⟨posting, rarity catalog.greatestId.toFloat posting.frequency, demand settings isLong count⟩

/-- How much a document is longer than the mean. -/
def lengthNorm (settings : ScoringSettings) (wordCount mean : Float) : Float :=
  let b := settings.b.toFloat
  settings.k1.toFloat * (1.0 - b + b * wordCount / mean)

/-- The share of one word in the score of a document where it stands so many times. -/
def termScore (settings : ScoringSettings) (norm wordCount : Float) (term : WeightedTerm)
    (occurrences : Nat) : Float :=
  let density := Float.ofNat occurrences / wordCount
  let saturated := (settings.k1.toFloat + 1.0) * density / (norm + density)
  term.rarity * saturated * term.demand

/-- The shares of words added to a score from left to right. -/
def addScores (settings : ScoringSettings) (norm wordCount : Float) (id : DocId) (score : Float) :
    List WeightedTerm → Float
  | [] => score
  | term :: rest =>
      let occurrences := ((term.posting.offsets? id).getD .empty).size
      addScores settings norm wordCount id
        (if occurrences = 0 then score
         else score + termScore settings norm wordCount term occurrences) rest

/-- The score of a document for weighted words. A document without words scores nothing. -/
def scoreWith (settings : ScoringSettings) (catalog : Catalog) (terms : List WeightedTerm)
    (id : DocId) : Option Float :=
  (catalog.document? id).map fun document =>
    let wordCount := document.facts.wordCount.toFloat
    if wordCount == 0.0 then 0.0
    else
      let norm := lengthNorm settings wordCount catalog.meanWordCount
      addScores settings norm wordCount id 0.0 terms

def score (settings : ScoringSettings) (catalog : Catalog) (terms : List QueryTerm) (id : DocId) :
    Option Float :=
  scoreWith settings catalog (weigh settings catalog terms) id

/-- The whole number nearest to a score at a scale. Halves go away from zero. -/
def roundScore (scale score : Float) : Int := (score * scale).round.toInt64.toInt

/-- The score that a whole number stands for. -/
def unscale (settings : ScoringSettings) (score : Int) : Float :=
  Float.ofInt score / settings.granularity.toFloat

/-- Documents in the order of their scores. -/
def rank (settings : ScoringSettings) (catalog : Catalog) (terms : List QueryTerm)
    (ids : List DocId) : Ranking :=
  let weighted := weigh settings catalog terms
  .ofPairs <| ids.filterMap fun id =>
    (scoreWith settings catalog weighted id).map fun score =>
      (roundScore settings.granularity.toFloat score, id)

end Concordance.Retrieval
