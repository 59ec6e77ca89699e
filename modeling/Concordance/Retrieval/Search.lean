import Concordance.Clock
import Concordance.Query.Parser
import Concordance.Retrieval.Stage
import Concordance.Snippet
import Concordance.Text.Blank

/-! Searching: from the text of a query to documents with excerpts of their files. -/
namespace Concordance.Retrieval

/-- A place in a file where a word of a query stands, with the text around it. -/
structure Highlight where
  term : String
  offset : UInt64
  length : Nat
  text : String

structure Hit where
  id : DocId
  path : Path
  score : Float
  highlights : List Highlight

/-- What is shown for a document that no word has selected. -/
def noMatch : Highlight := ⟨"", 0, 0, "no match text"⟩

def unreadableText : String := "<unable to read file>"

/-- Earlier places come first, and at one place the words in their order. -/
def isBefore (first second : UInt64 × String) : Bool :=
  (compareLex (compareOn Prod.fst) (compareOn Prod.snd) first second).isLE

/-- All places in a document where words stand, the earliest first. -/
def placesOf (catalog : Catalog) (words : List String) (id : DocId) : List (UInt64 × String) :=
  let places := words.flatMap fun word =>
    match (catalog.posting? word).bind fun posting => posting.offsets? id with
    | some offsets => offsets.toList.map fun offset => (offset, word)
    | none => []
  places.mergeSort isBefore

/-- The first places in a document where words stand, each with the text around it. -/
def highlightsOf (settings : SearchSettings) (catalog : Catalog) (disk : Disk) (words : List String)
    (document : Document) : List Highlight :=
  match (placesOf catalog words document.id).take settings.maxHighlights with
  | [] => [noMatch]
  | places => places.map fun (offset, word) =>
      let length := (Utf8.bytes word).length
      let text := match document.snippet disk offset.toNat length settings.snippetWidth with
        | .ok text => text
        | .error _ => unreadableText
      ⟨word, offset, length, text⟩

def hit? (settings : Settings) (catalog : Catalog) (disk : Disk) (words : List String)
    (score : Int) (id : DocId) : Option Hit :=
  (catalog.document? id).map fun document =>
    ⟨id, document.path, unscale settings.scoring score,
      highlightsOf settings.search catalog disk words document⟩

/-- The documents that answer a query. -/
def searchQuery (settings : Settings) (catalog : Catalog) (disk : Disk) (query : Query) :
    Except Abort (List Hit) := do
  let ranking ← execute settings.scoring catalog query
  return ranking.toList.filterMap fun entry =>
    hit? settings catalog disk query.terms entry.score entry.id

/-- A text without blanks that does not start as a query does. -/
def isWordStart (text : List Char) : Bool :=
  !text.any Text.isBlank && !(text.head?.any fun c => c == '\x27' || c == '(' || c == '\x60')

/-- The best score of each document and the words that found it. -/
abbrev Findings := OrderedMap DocId (Int × List String)

/-- The findings with the documents that one more word has found. -/
def mergeRanking (word : String) (findings : Findings) (ranking : Ranking) : Findings :=
  ranking.toList.foldl (fun findings entry =>
    let (score, words) := (findings.get? entry.id).getD (entry.score, [])
    findings.insert entry.id (max score entry.score, words ++ [word])) findings

/-- The documents that words find, each word by itself. -/
def findWords (settings : Settings) (catalog : Catalog) :
    List String → Findings → Except Abort Findings
  | [], findings => .ok findings
  | word :: rest, findings => do
      let ranking ← answer settings.scoring catalog (stagesOfWord word settings.search.fuzzyLimit)
      findWords settings catalog rest (mergeRanking word findings ranking)

/-- Better scores come first, and of equal ones the lower number. -/
def isBetter (first second : DocId × Int × List String) : Bool :=
  (compare second.2.1 first.2.1).then (compare first.1 second.1) |>.isLE

/-- The documents with a word that starts in a given way. -/
def searchStart (settings : Settings) (catalog : Catalog) (disk : Disk) (start : String) :
    Except Abort (List Hit) := do
  let findings ←
    findWords settings catalog (catalog.complete start settings.search.fuzzyCandidates) .empty
  return (findings.entries.mergeSort isBetter).filterMap fun (id, score, words) =>
    hit? settings catalog disk words score id

/-- The documents that answer a text. A text that is no query has no answer. -/
def searchText (settings : Settings) (catalog : Catalog) (disk : Disk) (text : String) :
    Except Abort (List Hit) :=
  let trimmed := Text.trim text.toList
  if trimmed.isEmpty then .ok []
  else if isWordStart trimmed then searchStart settings catalog disk (String.ofList trimmed)
  else
    let limits := settings.search
    match Query.parse (String.ofList trimmed) limits.maxQuerySize limits.maxParserDepth with
    | .parsed query => searchQuery settings catalog disk query
    | _ => .ok []

/-- The catalog that remembers a query and what it has found. -/
def remember (catalog : Catalog) (clock : Clock) (text : String) (hits : List Hit) : Catalog :=
  let entry : QueryRecord :=
    ⟨clock.now, 0, text, UsageLog.microsOf 0 clock.elapsedNanos, UInt64.ofNat hits.length⟩
  { catalog with
    usage := hits.foldl (fun log hit => log.countQuery hit.id) (catalog.usage.record entry) }

/-- Answers a text and remembers that it was asked. -/
def search (settings : Settings) (catalog : Catalog) (disk : Disk) (clock : Clock) (text : String) :
    Except Abort (List Hit × Catalog) := do
  let hits ← searchText settings catalog disk text
  return (hits, remember catalog clock text hits)

end Concordance.Retrieval
