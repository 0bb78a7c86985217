import CallThunk.Call.Activation
import CallThunk.Call.Caller
import CallThunk.Call.Description
import CallThunk.Call.Plan
import CallThunk.Call.Session
import CallThunk.Checked.Check
import CallThunk.Checked.Conversion
import CallThunk.Checked.Problem
import CallThunk.Checked.Tree
import CallThunk.Command.Arguments
import CallThunk.Command.Builtin
import CallThunk.Command.Config
import CallThunk.Command.Files
import CallThunk.Command.Run
import CallThunk.Diagnostic
import CallThunk.Host.Function
import CallThunk.Ieee.Arithmetic
import CallThunk.Ieee.Format
import CallThunk.Ieee.Reading
import CallThunk.Ieee.Shortest
import CallThunk.Machine.Code
import CallThunk.Machine.Execution
import CallThunk.Machine.Lowering
import CallThunk.Main
import CallThunk.Numeral
import CallThunk.Numeral.Integer
import CallThunk.Process.Context
import CallThunk.Process.Debuggee
import CallThunk.Process.Memory
import CallThunk.Process.Watched
import CallThunk.Proofs.Call.Alignment
import CallThunk.Proofs.Call.Compiling
import CallThunk.Proofs.Call.EndToEnd
import CallThunk.Proofs.Call.Endings
import CallThunk.Proofs.Call.Frames
import CallThunk.Proofs.Call.Images
import CallThunk.Proofs.Call.Isolation
import CallThunk.Proofs.Call.Layouts
import CallThunk.Proofs.Call.Lifecycle
import CallThunk.Proofs.Call.Marshaling
import CallThunk.Proofs.Call.Operations
import CallThunk.Proofs.Call.Ownership
import CallThunk.Proofs.Call.Partition
import CallThunk.Proofs.Call.Progress
import CallThunk.Proofs.Call.Protocol
import CallThunk.Proofs.Call.Reading
import CallThunk.Proofs.Call.Release
import CallThunk.Proofs.Call.Reports
import CallThunk.Proofs.Call.Results
import CallThunk.Proofs.Call.Returning
import CallThunk.Proofs.Call.Sessions
import CallThunk.Proofs.Call.Spans
import CallThunk.Proofs.Call.Steps
import CallThunk.Proofs.Call.Structs
import CallThunk.Proofs.Call.Validation
import CallThunk.Proofs.Call.Writing
import CallThunk.Proofs.Checked.Alignment
import CallThunk.Proofs.Checked.Coherence
import CallThunk.Proofs.Checked.Consistency
import CallThunk.Proofs.Checked.Declarations
import CallThunk.Proofs.Checked.Evaluation
import CallThunk.Proofs.Checked.Items
import CallThunk.Proofs.Checked.Resolution
import CallThunk.Proofs.Checked.Runs
import CallThunk.Proofs.Checked.Soundness
import CallThunk.Proofs.Checked.Structs
import CallThunk.Proofs.Checked.Typing
import CallThunk.Proofs.Checked.Uses
import CallThunk.Proofs.Machine.Acceptance
import CallThunk.Proofs.Machine.Accesses
import CallThunk.Proofs.Machine.Simulation
import CallThunk.Proofs.Machine.Typing
import CallThunk.Proofs.Numeral
import CallThunk.Proofs.Process.Accounts
import CallThunk.Proofs.Process.Debuggee
import CallThunk.Proofs.Process.History
import CallThunk.Proofs.Process.Memory
import CallThunk.Proofs.Process.Services
import CallThunk.Proofs.Record.Placement
import CallThunk.Proofs.Record.Shape
import CallThunk.Proofs.Record.Table
import CallThunk.Proofs.Runs
import CallThunk.Proofs.Source.Derivation
import CallThunk.Proofs.Source.Grammar
import CallThunk.Proofs.Source.Lexing
import CallThunk.Proofs.Source.Parsing
import CallThunk.Proofs.Source.Pieces
import CallThunk.Proofs.Source.Progress
import CallThunk.Proofs.Source.Recovery
import CallThunk.Proofs.Source.Tiling
import CallThunk.Proofs.Source.Unambiguity
import CallThunk.Proofs.Ty.Mentions
import CallThunk.Proofs.Ty.Spelling
import CallThunk.Proofs.Ty.WellFormed
import CallThunk.Proofs.Value.Admission
import CallThunk.Proofs.Value.RoundTrip
import CallThunk.Proofs.Wrapper.Agreement
import CallThunk.Proofs.Wrapper.Alignment
import CallThunk.Proofs.Wrapper.Body
import CallThunk.Proofs.Wrapper.Checking
import CallThunk.Proofs.Wrapper.Completeness
import CallThunk.Proofs.Wrapper.Failures
import CallThunk.Proofs.Wrapper.Layout
import CallThunk.Proofs.Wrapper.Passing
import CallThunk.Proofs.Wrapper.Printing
import CallThunk.Proofs.Wrapper.Recovering
import CallThunk.Proofs.Wrapper.Settling
import CallThunk.Proofs.Wrapper.Spelling
import CallThunk.Record.Layout
import CallThunk.Source.Parser
import CallThunk.Source.Span
import CallThunk.Source.Token
import CallThunk.Source.Tree
import CallThunk.Target
import CallThunk.Text.Blank
import CallThunk.Text.Column
import CallThunk.Text.Combining
import CallThunk.Text.Invisible
import CallThunk.Text.Quoted
import CallThunk.Text.Ranges
import CallThunk.Text.Split
import CallThunk.Toml.Basic
import CallThunk.Toml.Date
import CallThunk.Toml.Document
import CallThunk.Toml.Number
import CallThunk.Toml.Scan
import CallThunk.Toml.Text
import CallThunk.Ty.Basic
import CallThunk.Ty.Printer
import CallThunk.Ty.Reader
import CallThunk.Ty.Records
import CallThunk.Value.Basic
import CallThunk.Value.Image
import CallThunk.Value.Printer
import CallThunk.Value.Reader
import CallThunk.Wrapper.Compiler
import CallThunk.Wrapper.Layout
import CallThunk.Wrapper.Slots
import CallThunk.Wrapper.Source
import CallThunk.Proofs.Source.Lines
import CallThunk.Proofs.Ty.Signatures
import CallThunk.Proofs.Checked.Places
