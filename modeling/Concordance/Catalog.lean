import Concordance.Document
import Concordance.UsageLog
import Concordance.Vocabulary

/-! The catalog: for every word the places where it stands, for every number its document. -/
namespace Concordance

/-- A catalog in memory. The mean number of words is kept with the generation it was computed at. -/
structure Catalog where
  directory : Path
  terms : OrderedMap String Posting
  vocabulary : Vocabulary
  documents : OrderedMap DocId Document
  nextId : DocId
  keptMean : Option (UInt64 × Float)
  generation : UInt64
  usage : UsageLog

namespace Catalog

/-- A catalog without words and documents. Numbers start from 1. -/
def empty (directory : Path) (usage : UsageLog) : Catalog :=
  ⟨directory, .empty, .empty, .empty, 1, none, 0, usage⟩

def touch (catalog : Catalog) : Catalog := { catalog with generation := catalog.generation + 1 }

/-- Takes the next number for a new document. -/
def allocate (catalog : Catalog) : DocId × Catalog :=
  (catalog.nextId, { catalog with nextId := catalog.nextId + 1 })

/-- The greatest number taken so far, 0 when there is none. -/
def greatestId (catalog : Catalog) : DocId := catalog.nextId - 1

def document? (catalog : Catalog) (id : DocId) : Option Document := catalog.documents.get? id

def isLive (catalog : Catalog) (id : DocId) : Bool := catalog.documents.contains id

/-- The numbers of all documents. -/
def live (catalog : Catalog) : OrderedSet DocId :=
  ⟨catalog.documents.keys, List.pairwise_map.mpr catalog.documents.ascending⟩

def addDocument (catalog : Catalog) (document : Document) : Catalog :=
  touch { catalog with documents := catalog.documents.insert document.id document }

/-- Replaces what readers have added to a document. -/
def annotate (catalog : Catalog) (document : Document) : Catalog :=
  { catalog with documents := catalog.documents.insert document.id document }

/-- Forgets a document. The places of its words stay. -/
def removeDocument (catalog : Catalog) (id : DocId) : Catalog :=
  if catalog.isLive id then
    touch { catalog with
      documents := catalog.documents.erase id
      usage := catalog.usage.forget id }
  else catalog

/-- The mean number of words of all documents, 0 when there are none. -/
def computeMean (catalog : Catalog) : Float :=
  match catalog.documents.values with
  | [] => 0.0
  | documents =>
      let counts := documents.map fun document => document.facts.wordCount.toFloat
      counts.foldl (· + ·) (-0.0) / Float.ofNat documents.length

/-- The mean number of words. It is computed only when the catalog has changed since. -/
def meanWordCount (catalog : Catalog) : Float :=
  match catalog.keptMean with
  | some (generation, mean) =>
      if generation = catalog.generation then mean else catalog.computeMean
  | none => catalog.computeMean

/-- The catalog that remembers its mean. -/
def keepMean (catalog : Catalog) : Catalog :=
  { catalog with keptMean := some (catalog.generation, catalog.meanWordCount) }

/-- The kinds of documents that there are, with their numbers. -/
def kindCounts (catalog : Catalog) : List (DocumentKind × Nat) :=
  DocumentKind.all.filterMap fun kind =>
    let count := catalog.documents.values.countP fun document => document.facts.kind == kind
    if count = 0 then none else some (kind, count)

def posting? (catalog : Catalog) (word : String) : Option Posting := catalog.terms.get? word

/-- A word stands in a document at an offset. -/
def addPlace (catalog : Catalog) (word : String) (id : DocId) (offset : UInt64) : Catalog :=
  touch <| match catalog.posting? word with
    | some posting => { catalog with terms := catalog.terms.insert word (posting.add id offset) }
    | none =>
        { catalog with
          terms := catalog.terms.insert word (Posting.empty.add id offset)
          vocabulary := catalog.vocabulary.insert word.toList }

/-- Forgets the places of a word in documents that are gone, and the word itself when it has no
others. The number of these documents is returned. -/
def tidy (catalog : Catalog) (word : String) : Nat × Catalog :=
  match catalog.posting? word with
  | none => (0, catalog)
  | some posting =>
      if posting.documents.all catalog.isLive then (0, catalog)
      else
        let kept := posting.retain catalog.isLive
        let changed :=
          if kept.isEmpty then
            { catalog with
              terms := catalog.terms.erase word
              vocabulary := catalog.vocabulary.erase word.toList }
          else { catalog with terms := catalog.terms.insert word kept }
        (posting.frequency - kept.frequency, changed.touch)

/-- Tidies words one after another. The numbers are added up. -/
def tidyWords (catalog : Catalog) : List String → Nat × Catalog
  | [] => (0, catalog)
  | word :: rest =>
      let (removed, catalog) := catalog.tidy word
      let (more, catalog) := catalog.tidyWords rest
      (removed + more, catalog)

def tidyAll (catalog : Catalog) : Nat × Catalog := catalog.tidyWords catalog.terms.keys

/-- Words that start in a given way, at most so many. -/
def complete (catalog : Catalog) (start : String) (limit : Nat) : List String :=
  (catalog.vocabulary.complete start.toList limit).map String.ofList

/-- Forgets all words and documents. Numbers that were taken stay taken. -/
def clear (catalog : Catalog) : Catalog :=
  touch { catalog with
    terms := .empty
    vocabulary := .empty
    documents := .empty
    usage := .empty }

end Catalog
end Concordance
