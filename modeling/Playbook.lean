import Playbook.Backend.Basic
import Playbook.Backend.Echo
import Playbook.Backend.Rehearsal
import Playbook.CommandLine.Complaint
import Playbook.CommandLine.Form
import Playbook.CommandLine.Help
import Playbook.CommandLine.Order
import Playbook.CommandLine.Outline
import Playbook.CommandLine.Reach
import Playbook.CommandLine.Work
import Playbook.Decimal.Binary64
import Playbook.Decimal.Shortest
import Playbook.Digest.Seal
import Playbook.Digest.Sha256
import Playbook.Event.Basic
import Playbook.Event.Json
import Playbook.Event.Marker
import Playbook.Event.ToolUse
import Playbook.Failure.Basic
import Playbook.Failure.Cause
import Playbook.Failure.Kind
import Playbook.Http.Exchange
import Playbook.Json.Basic
import Playbook.Json.Decode
import Playbook.Json.Printer
import Playbook.Json.Reader
import Playbook.Json.Token
import Playbook.KeyMap
import Playbook.Main
import Playbook.Manifest
import Playbook.Messages.Config
import Playbook.Messages.Frames
import Playbook.Messages.Reply
import Playbook.Messages.Service
import Playbook.Messages.StreamEvent
import Playbook.Outbox.Basic
import Playbook.Outbox.Batch
import Playbook.Outbox.Clock
import Playbook.Outbox.Collector
import Playbook.Outbox.Config
import Playbook.Outbox.Sink
import Playbook.Program.Basic
import Playbook.Program.Fault
import Playbook.Program.Json
import Playbook.Program.Line
import Playbook.Program.Parser
import Playbook.Program.Phrase
import Playbook.Proofs.Outbox.Action
import Playbook.Proofs.Outbox.Ledger
import Playbook.Proofs.Outbox.Packing
import Playbook.Proofs.Outbox.Conservation
import Playbook.Proofs.Outbox.Course
import Playbook.Proofs.Outbox.Stop
import Playbook.Proofs.Outbox.Signing
import Playbook.Proofs.Run.Simulation
import Playbook.Proofs.Run.Floor
import Playbook.Proofs.Run.Heard
import Playbook.Proofs.Run.Noted
import Playbook.Proofs.Run.Forwarding
import Playbook.Proofs.Run.Cancellation
import Playbook.Run.Context
import Playbook.Run.Execution
import Playbook.Run.Launch
import Playbook.Run.Plan
import Playbook.Run.Progress
import Playbook.Run.Report
import Playbook.Run.Scope
import Playbook.Run.Script
import Playbook.Run.Session
import Playbook.Run.State
import Playbook.Run.Statement
import Playbook.Run.Thread
import Playbook.Session.Prompt
import Playbook.Session.Tally
import Playbook.Settings
import Playbook.Store.Basic
import Playbook.Store.FileStore
import Playbook.Store.FileTree
import Playbook.Store.Memory
import Playbook.Store.Pathname
import Playbook.Text.Blank
import Playbook.Text.Hex
import Playbook.Text.Search
import Playbook.Text.Utf8
import Playbook.Timestamp
import Playbook.Toml.Document
import Playbook.Toml.Reader
import Playbook.Toml.Scalar
import Playbook.Toml.Table
import Playbook.Toml.Text
import Playbook.Proofs.Json.Compact
import Playbook.Proofs.Json.Normal
import Playbook.Proofs.Json.Faithful
import Playbook.Proofs.Manifest.Tamper
import Playbook.Proofs.Messages.Naming
import Playbook.Proofs.Program.Layout
import Playbook.Proofs.Program.Printer
import Playbook.Proofs.Program.Rereading
import Playbook.Proofs.Program.Roundtrip
import Playbook.Proofs.Run.Gate
import Playbook.Proofs.Run.Bindings
import Playbook.Proofs.Run.Attempt
import Playbook.Proofs.Run.Parallel
import Playbook.Proofs.Run.Resuming
import Playbook.Proofs.Run.Continuity
import Playbook.Proofs.CommandLine.Commands
import Playbook.Proofs.CommandLine.Sealing
import Playbook.Proofs.Run.Owners
import Playbook.Proofs.Store.Latest
import Playbook.Proofs.Messages.Transcript
import Playbook.Proofs.Run.Bridge
import Playbook.Proofs.Run.Mirror
import Playbook.Proofs.Run.CallLog
import Playbook.Proofs.Run.Edits
import Playbook.Proofs.Run.Books
import Playbook.Proofs.Run.Bookkeeping
import Playbook.Proofs.Run.Timing
import Playbook.Proofs.Messages.Framing
import Playbook.Proofs.Messages.Speech
import Playbook.Proofs.Program.Stripping
import Playbook.Proofs.Program.Literals
import Playbook.Proofs.Program.Accepting
import Playbook.Proofs.Program.Branches
import Playbook.Proofs.Program.Uncommented
import Playbook.Proofs.Program.Comments
import Playbook.Proofs.Program.Sourcing
import Playbook.Proofs.Program.Blame
import Playbook.Proofs.Program.Renumbering
import Playbook.Proofs.Program.Spacing
import Playbook.Proofs.Program.Definitions
import Playbook.Proofs.Program.Prompting
import Playbook.Proofs.Program.Enclosing
import Playbook.Proofs.Messages.Blocks
import Playbook.Proofs.Store.Confinement
import Playbook.Proofs.Event.Markers
import Playbook.Proofs.Outbox.Legible
import Playbook.Proofs.Session.Tally
import Playbook.Proofs.Session.Echo
