import ArchiveIndex.Bits
import ArchiveIndex.Block
import ArchiveIndex.Calendar
import ArchiveIndex.CommandLine.Arguments
import ArchiveIndex.CommandLine.Folder
import ArchiveIndex.CommandLine.Run
import ArchiveIndex.CommandLine.Usage
import ArchiveIndex.Decimal.Binary64
import ArchiveIndex.Decimal.Notation
import ArchiveIndex.Decimal.Shortest
import ArchiveIndex.Dump.Load
import ArchiveIndex.Dump.Schema
import ArchiveIndex.Dump.Writer
import ArchiveIndex.Entry
import ArchiveIndex.Footer
import ArchiveIndex.Glob.Compiled
import ArchiveIndex.Glob.Parser
import ArchiveIndex.Glob.Pattern
import ArchiveIndex.Glob.Regex
import ArchiveIndex.Index.Basic
import ArchiveIndex.Index.Build
import ArchiveIndex.Index.History
import ArchiveIndex.Index.Kind
import ArchiveIndex.Index.Live
import ArchiveIndex.Index.Procedure
import ArchiveIndex.Index.Session
import ArchiveIndex.Json.Display
import ArchiveIndex.Json.Number
import ArchiveIndex.Json.Reader
import ArchiveIndex.Json.Value
import ArchiveIndex.Json.Writer
import ArchiveIndex.Listing
import ArchiveIndex.Main
import ArchiveIndex.Numeral
import ArchiveIndex.Path
import ArchiveIndex.Permission
import ArchiveIndex.Proofs.Calendar
import ArchiveIndex.Proofs.CommandLine.Counting
import ArchiveIndex.Proofs.CommandLine.Outcomes
import ArchiveIndex.Proofs.CommandLine.Parsing
import ArchiveIndex.Proofs.CommandLine.Selecting
import ArchiveIndex.Proofs.Dump.Loading
import ArchiveIndex.Proofs.Dump.Schema
import ArchiveIndex.Proofs.Fallible
import ArchiveIndex.Proofs.Glob.Compilation
import ArchiveIndex.Proofs.Glob.Expression
import ArchiveIndex.Proofs.Glob.Faults
import ArchiveIndex.Proofs.Glob.Grammar
import ArchiveIndex.Proofs.Glob.Matching
import ArchiveIndex.Proofs.Glob.Separator
import ArchiveIndex.Proofs.Glob.Tokens
import ArchiveIndex.Proofs.Index.Agreement
import ArchiveIndex.Proofs.Index.Building
import ArchiveIndex.Proofs.Index.Compaction
import ArchiveIndex.Proofs.Index.Fate
import ArchiveIndex.Proofs.Index.FeedingOrder
import ArchiveIndex.Proofs.Index.Finality
import ArchiveIndex.Proofs.Index.KeptView
import ArchiveIndex.Proofs.Index.Mismatches
import ArchiveIndex.Proofs.Index.Names
import ArchiveIndex.Proofs.Index.Reconciliation
import ArchiveIndex.Proofs.Index.Refeeding
import ArchiveIndex.Proofs.Index.Refusals
import ArchiveIndex.Proofs.Index.Representation
import ArchiveIndex.Proofs.Index.Runs
import ArchiveIndex.Proofs.Index.Separation
import ArchiveIndex.Proofs.Json.Documents
import ArchiveIndex.Proofs.Json.Scalars
import ArchiveIndex.Proofs.Listing
import ArchiveIndex.Proofs.Path
import ArchiveIndex.Proofs.Text.Encoding
import ArchiveIndex.Proofs.Text.Proper
import ArchiveIndex.Text.CodePoint
import ArchiveIndex.Text.DecimalDigit
import ArchiveIndex.Text.Encodable
import ArchiveIndex.Text.Newline
import ArchiveIndex.Text.Position
import ArchiveIndex.Text.Printable
import ArchiveIndex.Text.Quoted
import ArchiveIndex.Text.Utf8
