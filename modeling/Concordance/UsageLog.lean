import Concordance.Posting

/-! What readers ask for: the last queries, and how often each document was found and fetched. -/
namespace Concordance

/-- The number of queries that are remembered. -/
def maxQueryRecords : Nat := 10000

/-- A query with the time it was asked, to the billionth of a second, how long it took and what it
found. -/
structure QueryRecord where
  time : Moment
  nanos : Nat
  query : String
  micros : UInt64
  results : UInt64
deriving DecidableEq

/-- How often a document was fetched and found. -/
structure Access where
  downloads : UInt64
  queries : UInt64
deriving DecidableEq

def Access.none : Access := ⟨0, 0⟩

structure UsageLog where
  records : Array QueryRecord
  accesses : OrderedMap DocId Access

namespace UsageLog

def empty : UsageLog := ⟨#[], .empty⟩

/-- A query joins the log. The oldest one leaves it when the log is full. -/
def record : UsageLog → QueryRecord → UsageLog
  | ⟨records, accesses⟩, entry =>
      let kept := if maxQueryRecords ≤ records.size then records.extract 1 records.size else records
      ⟨kept.push entry, accesses⟩

def access (log : UsageLog) (id : DocId) : Access := (log.accesses.get? id).getD Access.none

def countQuery (log : UsageLog) (id : DocId) : UsageLog :=
  let access := log.access id
  { log with accesses := log.accesses.insert id { access with queries := access.queries + 1 } }

def countDownload (log : UsageLog) (id : DocId) : UsageLog :=
  let access := log.access id
  { log with accesses := log.accesses.insert id { access with downloads := access.downloads + 1 } }

def forget (log : UsageLog) (id : DocId) : UsageLog :=
  { log with accesses := log.accesses.erase id }

/-- More downloads come first, then more queries, then the lower number. -/
def precedes (first second : DocId × Access) : Bool :=
  if first.2.downloads ≠ second.2.downloads then second.2.downloads < first.2.downloads
  else if first.2.queries ≠ second.2.queries then second.2.queries < first.2.queries
  else first.1 ≤ second.1

/-- The counters of all documents, those in most demand first. -/
def ranking (log : UsageLog) : List (DocId × Access) :=
  log.accesses.entries.mergeSort precedes

/-- The time that passed, in whole millionths of a second as far as they fit. -/
def microsOf (seconds nanos : Nat) : UInt64 :=
  UInt64.ofNat (min (UInt64.size - 1) (seconds * 1000000 + nanos / 1000))

instance : Binary QueryRecord where
  write entry :=
    Codec.writeText (String.ofList (entry.time.isoText entry.nanos)) ++ write entry.query ++
      write entry.micros ++ write entry.results
  read := do
    let text ← Binary.read
    let some (time, nanos) := Moment.readIso (String.toList text) | throw .usageLog
    return ⟨time, nanos, ← Binary.read, ← Binary.read, ← Binary.read⟩

instance : Binary Access where
  write access := write access.downloads ++ write access.queries
  read := return ⟨← Binary.read, ← Binary.read⟩

def write (log : UsageLog) : Bytes :=
  Concordance.write log.records.toList ++ Concordance.write log.accesses

/-- The log that bytes hold at their start. What follows it does not matter. -/
def ofBytes (bytes : Bytes) : Except Fault UsageLog :=
  let read : Reader UsageLog := do
    let records : List QueryRecord ← Binary.read
    return ⟨records.toArray, ← Binary.read⟩
  match read bytes with
  | .ok log _ => .ok log
  | .error _ _ => .error .usageLog

end UsageLog
end Concordance
