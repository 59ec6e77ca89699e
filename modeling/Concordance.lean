import Concordance.Calendar
import Concordance.Catalog
import Concordance.Catalog.Snapshot
import Concordance.Clock
import Concordance.Codec
import Concordance.CommandLine.Arguments
import Concordance.CommandLine.Console
import Concordance.CommandLine.Report
import Concordance.CommandLine.Run
import Concordance.CommandLine.Shell
import Concordance.CommandLine.Surroundings
import Concordance.Disk
import Concordance.Document
import Concordance.Extract.Content
import Concordance.Extract.Flatten
import Concordance.Extract.Json
import Concordance.Extract.Line
import Concordance.Extract.Word
import Concordance.Fault
import Concordance.IdSet
import Concordance.Indexing
import Concordance.Key
import Concordance.Main
import Concordance.Number
import Concordance.Number.Fixed
import Concordance.Number.Nearest
import Concordance.Number.Shortest
import Concordance.Ordered.Map
import Concordance.Ordered.Set
import Concordance.Path
import Concordance.Posting
import Concordance.Proofs.Calendar
import Concordance.Proofs.Codec
import Concordance.Proofs.Ordered.Map
import Concordance.Proofs.Ordered.Set
import Concordance.Proofs.Text.Utf8
import Concordance.Query.Basic
import Concordance.Query.Condition
import Concordance.Query.Formula
import Concordance.Query.Lexer
import Concordance.Query.Parser
import Concordance.Query.Printer
import Concordance.Query.Token
import Concordance.Query.TokenStream
import Concordance.Ranking
import Concordance.Ranking.Tiers
import Concordance.Retrieval.Score
import Concordance.Retrieval.Search
import Concordance.Retrieval.Stage
import Concordance.Scalar
import Concordance.Settings
import Concordance.Settings.File
import Concordance.Snippet
import Concordance.Summary
import Concordance.Text.Blank
import Concordance.Text.Casing
import Concordance.Text.Printable
import Concordance.Text.Quoted
import Concordance.Text.Ranges
import Concordance.Text.Split
import Concordance.Text.Utf8
import Concordance.Toml.Reader
import Concordance.Toml.Scalar
import Concordance.Toml.Table
import Concordance.Toml.Writer
import Concordance.UsageLog
import Concordance.Value
import Concordance.Vocabulary
import Concordance.Watch
import Concordance.Proofs.Posting
import Concordance.Proofs.Document
import Concordance.Proofs.Catalog.Snapshot
import Concordance.Proofs.Path
import Concordance.Proofs.Catalog.Flush
import Concordance.Proofs.Catalog.Places
import Concordance.Proofs.Indexing
import Concordance.Proofs.Catalog.Faithful
import Concordance.Proofs.Catalog.History
import Concordance.Proofs.IdSet
import Concordance.Proofs.IdSet.Word
import Concordance.Proofs.IdSet.Members
import Concordance.Proofs.Ranking
import Concordance.Proofs.Query.Parser
import Concordance.Proofs.Retrieval.Stage
import Concordance.Proofs.Retrieval.Search
import Concordance.Proofs.Vocabulary
import Concordance.Proofs.Catalog.Words
import Concordance.Proofs.Catalog.RoundTrip
import Concordance.Proofs.Gist
import Concordance.Proofs.Watch.Sweep
import Concordance.Proofs.Watch.Sync
import Concordance.Proofs.Watch.Tick
import Concordance.Proofs.Retrieval.Paths
import Concordance.Proofs.Watch.Upkeep
import Concordance.Proofs.Query.Grammar
import Concordance.Proofs.Query.Unambiguous
import Concordance.Proofs.Query.Reading
import Concordance.Proofs.Query.Descent
import Concordance.Proofs.Query.Rules
import Concordance.Proofs.Query.Acceptance
import Concordance.Proofs.Query.Tokens
import Concordance.Proofs.Query.Stream
import Concordance.Proofs.Query.Cutting
import Concordance.Proofs.Query.Writing
import Concordance.Proofs.Query.Printing
import Concordance.Proofs.Number
import Concordance.Proofs.Query.KeyText
import Concordance.Proofs.Query.ConditionText
import Concordance.Proofs.Watch.Below
import Concordance.Proofs.Watch.Known
import Concordance.Proofs.Watch.Vigil
import Concordance.Proofs.Catalog.Numbers
import Concordance.Proofs.Watch.Queue
import Concordance.Proofs.Watch.Tracking
import Concordance.Proofs.Watch.Retention
import Concordance.Proofs.Watch.Settling
import Concordance.Proofs.Watch.Ledger
import Concordance.Proofs.Truncation
import Concordance.Proofs.Catalog.Operation
import Concordance.Proofs.Catalog.Damage
import Concordance.Proofs.Catalog.Interleaving
import Concordance.Proofs.Catalog.Opening
import Concordance.Proofs.Watch.Numbering
import Concordance.Proofs.Vocabulary.Forest
import Concordance.Proofs.Vocabulary.Listing
import Concordance.Proofs.Vocabulary.Marking
import Concordance.Proofs.Vocabulary.Edits
import Concordance.Proofs.Text.ByteOrder
import Concordance.Proofs.Catalog.Completion
import Concordance.Proofs.Retrieval.Tidying
import Concordance.Proofs.Query.Nesting
import Concordance.Proofs.Query.Limits
import Concordance.Proofs.Query.Start
import Concordance.Proofs.Retrieval.WordStart
import Concordance.Proofs.Catalog.Calls
import Concordance.Proofs.Catalog.Generation
import Concordance.Proofs.Retrieval.Merging
import Concordance.Proofs.Disk.Tree
import Concordance.Proofs.Catalog.Storing
import Concordance.Proofs.Catalog.Growth
import Concordance.Proofs.CommandLine.Desk
import Concordance.Proofs.CommandLine.Session
import Concordance.Proofs.CommandLine.Shell
import Concordance.Proofs.Text.Decoding
import Concordance.Proofs.Text.Boundary
import Concordance.Proofs.Snippet
import Concordance.Proofs.Extract.Words
import Concordance.Proofs.Catalog.Registration
import Concordance.Proofs.Catalog.Provenance
import Concordance.Proofs.Retrieval.Highlights
import Concordance.Proofs.Watch.Memory
import Concordance.Proofs.Extract.Leaves
import Concordance.Proofs.Extract.Values
import Concordance.Proofs.Extract.Flatten
import Concordance.Proofs.Extract.Pathwise
import Concordance.Proofs.Extract.Segments
import Concordance.Proofs.Query.OwnText
import Concordance.Proofs.Retrieval.Algebra
import Concordance.Proofs.Columns
import Concordance.Proofs.Disk.Reach
import Concordance.Proofs.Collecting
import Concordance.Proofs.Query.Refusal.Judging
import Concordance.Proofs.Query.Refusal.Formulas
import Concordance.Proofs.Query.Refusal.Keys
import Concordance.Proofs.Query.Refusal.Conditions
import Concordance.Proofs.Query.Refusal.Queries
import Concordance.Proofs.Query.Refusal.Respelling
import Concordance.Proofs.Query.Refusal.Position
import Concordance.Text.Slice
import Concordance.Query.Scanner
import Concordance.Proofs.Query.Lettering
import Concordance.Proofs.Query.Partition
import Concordance.Proofs.Catalog.Counter
import Concordance.Proofs.UsageLog
import Concordance.Proofs.Codec.Items
