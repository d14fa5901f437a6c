import DosMonitor.Assembly.Encoding
import DosMonitor.Assembly.Listing
import DosMonitor.Command.Dispatch
import DosMonitor.Command.Parse
import DosMonitor.Console
import DosMonitor.Debug.Breakpoints
import DosMonitor.Debug.Program
import DosMonitor.Debug.TraceRecord
import DosMonitor.Debug.Watch
import DosMonitor.Disk
import DosMonitor.Error
import DosMonitor.Execution.Context
import DosMonitor.Execution.Effect
import DosMonitor.Execution.Execute
import DosMonitor.Execution.Interrupt
import DosMonitor.Execution.Units
import DosMonitor.Flags
import DosMonitor.Host.Fault
import DosMonitor.Host.FileTree
import DosMonitor.Host.Path
import DosMonitor.Host.Request
import DosMonitor.Instruction
import DosMonitor.Machine.Debugging
import DosMonitor.Machine.Run
import DosMonitor.Machine.State
import DosMonitor.Machine.Storage
import DosMonitor.Main
import DosMonitor.Memory.Block
import DosMonitor.Memory.Bus
import DosMonitor.Memory.Logged
import DosMonitor.Memory.Paged
import DosMonitor.Opcode
import DosMonitor.Proofs.Hexadecimal
import DosMonitor.Register
import DosMonitor.Register.File
import DosMonitor.Session.Options
import DosMonitor.Session.Prompt
import DosMonitor.Session.Session
import DosMonitor.Source.Line
import DosMonitor.Source.Token
import DosMonitor.Text.Blank
import DosMonitor.Text.Dump
import DosMonitor.Text.Letters
import DosMonitor.Text.Numeral
import DosMonitor.Text.Split
import DosMonitor.Text.Utf8
import DosMonitor.Proofs.Execution
import DosMonitor.Proofs.Observation
import DosMonitor.Proofs.Agreement
import DosMonitor.Proofs.Call
import DosMonitor.Proofs.Step
import DosMonitor.Proofs.Tracing
import DosMonitor.Proofs.Scheduling
import DosMonitor.Proofs.Stopping
import DosMonitor.Proofs.Actions
import DosMonitor.Proofs.ByteRuns
import DosMonitor.Proofs.Services
import DosMonitor.Proofs.Atomicity
import DosMonitor.Proofs.Literal
import DosMonitor.Proofs.Pieces
import DosMonitor.Proofs.Grammar
import DosMonitor.Proofs.Decoding
import DosMonitor.Proofs.Printing
import DosMonitor.Proofs.Loading
import DosMonitor.Proofs.Listing
import DosMonitor.Proofs.AccessLog
import DosMonitor.Proofs.Operation
import DosMonitor.Proofs.WellFormed
import DosMonitor.Proofs.Isolation
import DosMonitor.Proofs.Arithmetic
import DosMonitor.Proofs.Words
import DosMonitor.Proofs.PageRanges
import DosMonitor.Proofs.Ranges
import DosMonitor.Proofs.CommandWord
import DosMonitor.Proofs.Rejection
import DosMonitor.Proofs.Invocation
import DosMonitor.Proofs.Accounts
import DosMonitor.Proofs.Course
import DosMonitor.Proofs.Limits
import DosMonitor.Proofs.Stack
import DosMonitor.Proofs.ChangeReport
import DosMonitor.Proofs.Output
import DosMonitor.Proofs.Watching
import DosMonitor.Proofs.LineInput
import DosMonitor.Proofs.StringOutput
import DosMonitor.Proofs.Positions
import DosMonitor.Proofs.Labels
import DosMonitor.Proofs.Locations
import DosMonitor.Proofs.BlockWrites
import DosMonitor.Proofs.Scanning
import DosMonitor.Proofs.Transfers
import DosMonitor.Proofs.Files
import DosMonitor.Proofs.Persistence
import DosMonitor.Proofs.Arguments
import DosMonitor.Proofs.WatchList
import DosMonitor.Proofs.QuotedText
import DosMonitor.Proofs.Dumps
import DosMonitor.Proofs.MemoryMap
import DosMonitor.Proofs.Assignment
