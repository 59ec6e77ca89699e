import Concordance.Number.Fixed
import Concordance.Retrieval.Search

/-! The lines that the program shows. -/
namespace Concordance.CommandLine

open Retrieval (Hit Highlight)

/-- The text after as many spaces as fill the width. -/
def alignRight (width : Nat) (text : String) : String :=
  String.ofList (List.replicate (width - text.length) ' ') ++ text

/-- The text before as many spaces as fill the width. -/
def alignLeft (width : Nat) (text : String) : String :=
  text ++ String.ofList (List.replicate (width - text.length) ' ')

/-- The text on one line. -/
def oneLine (text : String) : String :=
  String.ofList (text.toList.map fun c => if c = '\n' ∨ c = '\r' then ' ' else c)

def highlightLine (highlight : Highlight) : String :=
  let text := oneLine highlight.text
  if highlight.term = "" then "            " ++ text
  else "            @" ++ alignLeft 8 (toString highlight.offset.toNat) ++ " " ++ text

/-- A hit with its score to four places, and a line for each of its highlights. -/
def hitLines (hit : Hit) : List String :=
  let score := alignRight 10 (String.ofList ((Number.ofFloat hit.score).fixed 4))
  s!"{score}  [{hit.id.toNat}] {hit.path.text}" :: hit.highlights.map highlightLine

/-- A character inside a text for other programs. -/
def jsonChar (c : Char) : List Char :=
  if c = '"' ∨ c = '\\' then ['\\', c]
  else if c = '\x08' then ['\\', 'b']
  else if c = '\x0c' then ['\\', 'f']
  else if c = '\n' then ['\\', 'n']
  else if c = '\r' then ['\\', 'r']
  else if c = '\t' then ['\\', 't']
  else if c.toNat < 0x20 then ['\\', 'u', '0', '0', if c.toNat < 0x10 then '0' else '1'] ++
    (Nat.toDigits 16 (c.toNat % 16))
  else [c]

def jsonText (text : String) : String :=
  String.ofList ('"' :: text.toList.flatMap jsonChar ++ ['"'])

/-- A number for other programs, which know neither infinity nor what is no number. -/
def jsonNumber (x : Number) : String :=
  if x.isNaN || x.isInfinite then "null" else String.ofList x.pointedText

/-- Lines with a comma after all but the last of the groups that they form. -/
def separated : List (List String) → List String
  | [] => []
  | [group] => group
  | group :: more =>
      group.dropLast ++ (group.getLast?.map (· ++ ",")).toList ++ separated more

/-- Fields between curly brackets, one a line. -/
def jsonObject (indent : String) (fields : List (String × List String)) : List String :=
  let lines := fields.map fun (name, value) =>
    match value with
    | [] => []
    | first :: rest => (indent ++ "  " ++ jsonText name ++ ": " ++ first) :: rest
  (indent ++ "\x7b") :: separated lines ++ [indent ++ "\x7d"]

def jsonHighlight (highlight : Highlight) : List String :=
  jsonObject "      " [
    ("term", [jsonText highlight.term]),
    ("offset", [toString highlight.offset.toNat]),
    ("len", [toString highlight.length]),
    ("text", [jsonText highlight.text])]

def jsonHit (hit : Hit) : List String :=
  jsonObject "  " [
    ("id", [toString hit.id.toNat]),
    ("path", [jsonText hit.path.text]),
    ("score", [jsonNumber (.ofFloat hit.score)]),
    ("highlights", ["["] ++ separated (hit.highlights.map jsonHighlight) ++ ["    ]"])]

/-- Hits for other programs. -/
def jsonHits (hits : List Hit) : List String :=
  if hits.isEmpty then ["[]"] else ["["] ++ separated (hits.map jsonHit) ++ ["]"]

/-- The number of queries that the state of a catalog shows. -/
def recentQueries : Nat := 5

/-- The number of documents in demand that the state of a catalog shows. -/
def topDocuments : Nat := 5

def queryLine (record : QueryRecord) : String :=
  let hits := alignRight 6 (toString record.results.toNat)
  let micros := alignRight 8 (toString record.micros.toNat)
  s!"  {record.time.toText}  {hits} hits  {micros}us  {record.query}"

def accessLine (catalog : Catalog) (id : DocId) (access : Access) : String :=
  let path := match catalog.document? id with
    | some document => document.path.text
    | none => "<deleted>"
  s!"  [{id.toNat}] {path} ({access.downloads.toNat} downloads, {access.queries.toNat} queries)"

/-- Kinds of documents, those with most documents first and equal ones by name. -/
def rankedKinds (catalog : Catalog) : List (DocumentKind × Nat) :=
  catalog.kindCounts.mergeSort fun first second =>
    (compare second.2 first.2).then (compare first.1.name second.1.name) |>.isLE

/-- A heading over lines, after an empty line. Nothing stands where there are no lines. -/
def headed (heading : String) (lines : List String) : List String :=
  if lines.isEmpty then [] else ["", heading] ++ lines

/-- The state of a catalog. -/
def statusLines (catalog : Catalog) : List String :=
  let title := ["Quarry Store Status", "===================", ""]
  let place := ["", "Data directory: " ++ catalog.directory.text]
  if catalog.documents.isEmpty then
    title ++ ["Store is empty. Run 'quarry index <path>' to add documents."] ++ place
  else
    let mean := String.ofList ((Number.ofFloat catalog.meanWordCount).fixed 1)
    let summary := [
      "Summary:",
      s!"  Documents:         {catalog.documents.size}",
      s!"  Terms:             {catalog.terms.size}",
      s!"  Highest doc id:    {catalog.greatestId.toNat}",
      s!"  Avg word count:    {mean}"]
    let kinds := (rankedKinds catalog).map fun (kind, count) => s!"  {kind.name} {count}"
    let queries := (catalog.usage.records.toList.reverse.take recentQueries).map queryLine
    let demand := (catalog.usage.ranking.take topDocuments).map fun (id, access) =>
      accessLine catalog id access
    title ++ summary ++ headed "Document Types:" kinds ++ headed "Recent Queries:" queries ++
      headed "Most Accessed Documents:" demand ++ place

end Concordance.CommandLine
