import ScriptToolchain.Bytes.Basic
import ScriptToolchain.Bytes.Buffer
import ScriptToolchain.Bytes.Checksum
import ScriptToolchain.Bytes.Field
import ScriptToolchain.Bytes.Reader
import ScriptToolchain.Bytes.Slot
import ScriptToolchain.Code.Emitter
import ScriptToolchain.Code.Function
import ScriptToolchain.Code.Instruction
import ScriptToolchain.Code.Label
import ScriptToolchain.Code.Listing
import ScriptToolchain.Code.Opcode
import ScriptToolchain.Code.Stack
import ScriptToolchain.Code.Validation
import ScriptToolchain.CommandLine
import ScriptToolchain.Compile.Compiler
import ScriptToolchain.Compile.Diagnostic
import ScriptToolchain.Compile.Directive
import ScriptToolchain.Compile.Draft
import ScriptToolchain.Compile.Frame
import ScriptToolchain.Compile.Generate
import ScriptToolchain.Compile.Host
import ScriptToolchain.Compile.Program
import ScriptToolchain.Compile.ScriptedHost
import ScriptToolchain.Compile.Variables
import ScriptToolchain.Container.Build
import ScriptToolchain.Container.Encoding
import ScriptToolchain.Container.FunctionImage
import ScriptToolchain.Container.ProgramImage
import ScriptToolchain.Container.View
import ScriptToolchain.Debug.Address
import ScriptToolchain.Debug.Breakpoints
import ScriptToolchain.Debug.Channel
import ScriptToolchain.Debug.Codec
import ScriptToolchain.Debug.Control
import ScriptToolchain.Debug.Hooks
import ScriptToolchain.Debug.Message
import ScriptToolchain.Debug.Reply
import ScriptToolchain.Debug.Session
import ScriptToolchain.Debug.Snapshot
import ScriptToolchain.Debug.Stepping
import ScriptToolchain.Debug.Stored
import ScriptToolchain.Debug.Target
import ScriptToolchain.Duration
import ScriptToolchain.Json.Field
import ScriptToolchain.Json.Number
import ScriptToolchain.Json.Parser
import ScriptToolchain.Json.Printer
import ScriptToolchain.Json.Value
import ScriptToolchain.Main
import ScriptToolchain.Number.Binary
import ScriptToolchain.Number.Fixed
import ScriptToolchain.Number.Numeral
import ScriptToolchain.Number.Power
import ScriptToolchain.Number.Shortest
import ScriptToolchain.Number.Word
import ScriptToolchain.Path
import ScriptToolchain.SortedMap
import ScriptToolchain.Source
import ScriptToolchain.Text.Blank
import ScriptToolchain.Text.Digits
import ScriptToolchain.Text.Hidden
import ScriptToolchain.Text.Interner
import ScriptToolchain.Text.Quoted
import ScriptToolchain.Tree.Build
import ScriptToolchain.Tree.Equality
import ScriptToolchain.Tree.Flags
import ScriptToolchain.Tree.Node
import ScriptToolchain.Tree.Operator
import ScriptToolchain.Tree.Stored
import ScriptToolchain.Proofs.Bytes
import ScriptToolchain.Proofs.Encoding
import ScriptToolchain.Proofs.Effects
import ScriptToolchain.Proofs.Emission
import ScriptToolchain.Proofs.Linking
import ScriptToolchain.Proofs.Assembly
import ScriptToolchain.Proofs.Agreement
import ScriptToolchain.Proofs.DebugBuild
import ScriptToolchain.Proofs.StackSafety
import ScriptToolchain.Proofs.Correctness
import ScriptToolchain.Proofs.Simulation
import ScriptToolchain.Proofs.UnitRuns
import ScriptToolchain.Proofs.Checksum
import ScriptToolchain.Proofs.Refusal
import ScriptToolchain.Proofs.Acceptance
import ScriptToolchain.Proofs.Blame
import ScriptToolchain.Proofs.Reading
import ScriptToolchain.Proofs.FunctionRoundTrip
import ScriptToolchain.Proofs.ProgramRoundTrip
import ScriptToolchain.Proofs.Fields
import ScriptToolchain.Proofs.MessageRoundTrip
import ScriptToolchain.Proofs.Traffic
import ScriptToolchain.Proofs.Holding
import ScriptToolchain.Proofs.Suspension
import ScriptToolchain.Proofs.Steps
import ScriptToolchain.Proofs.Corruption
import ScriptToolchain.Proofs.CodeRoundTrip
import ScriptToolchain.Proofs.Mentions
import ScriptToolchain.Proofs.Lookups
import ScriptToolchain.Proofs.Closure
import ScriptToolchain.Proofs.Batches
import ScriptToolchain.Proofs.Acknowledgements
import ScriptToolchain.Proofs.Closed
import ScriptToolchain.Proofs.Endings
import ScriptToolchain.Proofs.Tours
import ScriptToolchain.Proofs.Walks
import ScriptToolchain.Proofs.Protocol
import ScriptToolchain.Proofs.Bisection
import ScriptToolchain.Proofs.LineTables
import ScriptToolchain.Proofs.ManyUnits
import ScriptToolchain.Proofs.Markers
import ScriptToolchain.Proofs.Parallel
import ScriptToolchain.Proofs.Numerals
import ScriptToolchain.Proofs.JsonText
import ScriptToolchain.Proofs.FlagText
import ScriptToolchain.Proofs.StoredTrees
import ScriptToolchain.Proofs.SlotOrder
import ScriptToolchain.Proofs.Backpatching
import ScriptToolchain.Proofs.Uses
import ScriptToolchain.Proofs.Touches
import ScriptToolchain.Proofs.UsedNodes
import ScriptToolchain.Proofs.Storage
import ScriptToolchain.Proofs.Receivers
import ScriptToolchain.Proofs.Tape
import ScriptToolchain.Proofs.Puts
import ScriptToolchain.Proofs.ReadBounds
import ScriptToolchain.Proofs.Checks
import ScriptToolchain.Proofs.MachineWords
import ScriptToolchain.Proofs.Remainder
import ScriptToolchain.Proofs.Sources
import ScriptToolchain.Proofs.ErrorCounts
import ScriptToolchain.Proofs.Listings
import ScriptToolchain.Proofs.FilledLines
import ScriptToolchain.Proofs.Replies
