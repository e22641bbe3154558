import ReplyLedger.Applier
import ReplyLedger.Binary64.Basic
import ReplyLedger.Binary64.Shortest
import ReplyLedger.CommandLine.Invocation
import ReplyLedger.CommandLine.Options
import ReplyLedger.CommandLine.Program
import ReplyLedger.CommandLine.Prompt
import ReplyLedger.CommandLine.WholeNumber
import ReplyLedger.Console
import ReplyLedger.Failure
import ReplyLedger.FilePath
import ReplyLedger.FileSystem.Basic
import ReplyLedger.FileSystem.Copy
import ReplyLedger.FileSystem.CurrentDirectory
import ReplyLedger.FileSystem.Move
import ReplyLedger.FileSystem.Resolve
import ReplyLedger.FileSystem.Walk
import ReplyLedger.Git.Commands
import ReplyLedger.Host.Basic
import ReplyLedger.Host.Files
import ReplyLedger.Journal
import ReplyLedger.Json.Parser
import ReplyLedger.Json.Printer
import ReplyLedger.Json.Value
import ReplyLedger.Ledger.Basic
import ReplyLedger.Ledger.Records
import ReplyLedger.Ledger.Reply
import ReplyLedger.Ledger.Steps
import ReplyLedger.Main
import ReplyLedger.Operation.Basic
import ReplyLedger.Operation.CanonicalPath
import ReplyLedger.Operation.Record
import ReplyLedger.Reply.Block
import ReplyLedger.Reply.Header
import ReplyLedger.Reply.Payload
import ReplyLedger.Reply.Reading
import ReplyLedger.Settings
import ReplyLedger.Task.Basic
import ReplyLedger.Task.Record
import ReplyLedger.Text.Basic
import ReplyLedger.Text.Blank
import ReplyLedger.Text.Lines
import ReplyLedger.Text.Printable
import ReplyLedger.Text.Quoted
import ReplyLedger.Text.Utf8
import ReplyLedger.Timestamp.Basic
import ReplyLedger.Timestamp.Date
import ReplyLedger.Timestamp.Iso
import ReplyLedger.Workspace
import ReplyLedger.Proofs.FileSystem.Ways
import ReplyLedger.Proofs.Text.Segments
import ReplyLedger.Proofs.FileSystem.Lookup
import ReplyLedger.Proofs.FileSystem.Resolution
import ReplyLedger.Proofs.Host.Outcome
import ReplyLedger.Proofs.Applier.Containment
import ReplyLedger.Proofs.Reply.Header
import ReplyLedger.Proofs.Reply.Sections
import ReplyLedger.Proofs.Text.Strip
import ReplyLedger.Proofs.Reply.Rendering
import ReplyLedger.Proofs.Json.RoundTrip
import ReplyLedger.Proofs.Task.RoundTrip
import ReplyLedger.Proofs.Text.Utf8
import ReplyLedger.Proofs.FileSystem.Directory
import ReplyLedger.Proofs.Host.Directory
import ReplyLedger.Proofs.Ledger.Store
import ReplyLedger.Proofs.Ledger.Listing
import ReplyLedger.Proofs.Ledger.Starting
import ReplyLedger.Proofs.Ledger.Runs
import ReplyLedger.Proofs.Ledger.Tracking
import ReplyLedger.Proofs.Ledger.Chronology
import ReplyLedger.Proofs.Ledger.Naming
import ReplyLedger.Proofs.Host.Sparing
import ReplyLedger.Proofs.Ledger.Session
import ReplyLedger.Proofs.Ledger.Order
import ReplyLedger.Proofs.Ledger.Steps
import ReplyLedger.Proofs.Ledger.Restart
import ReplyLedger.Proofs.Ledger.Histories
import ReplyLedger.Proofs.Reply.Concatenation
import ReplyLedger.Proofs.FileSystem.Links
import ReplyLedger.Proofs.FileSystem.Agreement
import ReplyLedger.Proofs.Host.Contracts
import ReplyLedger.Proofs.Applier.Unlinked
import ReplyLedger.Proofs.Applier.Effects
import ReplyLedger.Proofs.Applier.Batches
import ReplyLedger.Proofs.Applier.Outside
import ReplyLedger.Proofs.Applier.Agreement
import ReplyLedger.Proofs.FileSystem.Copying
import ReplyLedger.Proofs.Applier.Preparing
import ReplyLedger.Proofs.Applier.Interruptions
import ReplyLedger.Proofs.Ledger.Recording
import ReplyLedger.Proofs.Ledger.Account
import ReplyLedger.Proofs.Ledger.Splitting
import ReplyLedger.Proofs.CommandLine.Apply
import ReplyLedger.Proofs.FileSystem.NewDirectories
import ReplyLedger.Proofs.FileSystem.Ancestors
import ReplyLedger.Proofs.Host.NewDirectories
import ReplyLedger.Proofs.Text.Decoding
import ReplyLedger.Proofs.Text.Replacing
import ReplyLedger.Proofs.Applier.Failing
import ReplyLedger.Proofs.Applier.Transcript
import ReplyLedger.Proofs.Applier.Accounting
import ReplyLedger.Proofs.Applier.Exactness
import ReplyLedger.Proofs.Git.Calls
import ReplyLedger.Proofs.Ledger.Runner
import ReplyLedger.Proofs.Ledger.Stored
import ReplyLedger.Proofs.Ledger.Settling
import ReplyLedger.Proofs.Ledger.Moves
import ReplyLedger.Proofs.Ledger.Settlement
import ReplyLedger.Proofs.FileSystem.Rereading
import ReplyLedger.Proofs.Ledger.Saving
import ReplyLedger.Proofs.Ledger.Skipping
import ReplyLedger.Proofs.Ledger.Coherence
import ReplyLedger.Proofs.Reply.Fences
import ReplyLedger.Proofs.Ledger.Views
import ReplyLedger.Proofs.CommandLine.Sources
import ReplyLedger.Proofs.CommandLine.Views
import ReplyLedger.Proofs.Text.Undoing
import ReplyLedger.Proofs.Applier.Undoing
import ReplyLedger.Proofs.Reply.WellFormed
import ReplyLedger.Proofs.Applier.Locating
import ReplyLedger.Proofs.Applier.Keeping
import ReplyLedger.Proofs.Operation.Records
import ReplyLedger.Proofs.Operation.CanonicalPaths
import ReplyLedger.Proofs.Timestamp.Reading
import ReplyLedger.Proofs.Task.Normalizing
import ReplyLedger.Proofs.Git.Requests
import ReplyLedger.Proofs.Ledger.Granting
import ReplyLedger.Proofs.Ledger.NamedPaths
import ReplyLedger.Proofs.Ledger.Sorting
import ReplyLedger.Proofs.Workspace.RelativePaths
import ReplyLedger.Proofs.Ledger.Including
import ReplyLedger.Proofs.Text.Lines
import ReplyLedger.Proofs.Host.Journal
import ReplyLedger.Proofs.Applier.Wording
import ReplyLedger.Proofs.Applier.Journalling
import ReplyLedger.Proofs.Applier.Entries
import ReplyLedger.Proofs.Text.Spelling
import ReplyLedger.Proofs.Host.TextFiles
import ReplyLedger.Proofs.Workspace.NamingSegments
import ReplyLedger.Proofs.Ledger.Straying
import ReplyLedger.Proofs.Ledger.Enrolment
import ReplyLedger.Proofs.Ledger.Lookups
