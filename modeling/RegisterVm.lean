import RegisterVm.Builtin.Function
import RegisterVm.Builtin.Method
import RegisterVm.Bytecode.Chunk
import RegisterVm.Bytecode.Document
import RegisterVm.Bytecode.Listing
import RegisterVm.Bytecode.Loop
import RegisterVm.Bytecode.Opcode
import RegisterVm.Bytecode.Verifier
import RegisterVm.CommandLine
import RegisterVm.CommandLine.Options
import RegisterVm.Config
import RegisterVm.Demo
import RegisterVm.ErrorKind
import RegisterVm.Failure
import RegisterVm.Fault
import RegisterVm.Heap
import RegisterVm.Heap.Arithmetic
import RegisterVm.Heap.Attribute
import RegisterVm.Heap.Comparison
import RegisterVm.Heap.Container
import RegisterVm.Heap.Exception
import RegisterVm.Heap.Hash
import RegisterVm.Heap.Iteration
import RegisterVm.Heap.Shown
import RegisterVm.Json.Decoder
import RegisterVm.Json.Document
import RegisterVm.Json.Number
import RegisterVm.Json.Printer
import RegisterVm.Json.Reader
import RegisterVm.Loop.Compiled
import RegisterVm.Loop.HotCounter
import RegisterVm.Loop.Record
import RegisterVm.Loop.WordArithmetic
import RegisterVm.Machine
import RegisterVm.Machine.Call
import RegisterVm.Machine.Effect
import RegisterVm.Machine.Frame
import RegisterVm.Machine.Inline
import RegisterVm.Machine.Library
import RegisterVm.Machine.Native
import RegisterVm.Machine.Step
import RegisterVm.Main
import RegisterVm.Number.Binary64
import RegisterVm.Number.Bits
import RegisterVm.Number.Decimal
import RegisterVm.Number.Reading
import RegisterVm.Number.Word
import RegisterVm.Object
import RegisterVm.Object.Builtin
import RegisterVm.Object.Dict
import RegisterVm.Object.HashKey
import RegisterVm.Object.IntRange
import RegisterVm.Operator
import RegisterVm.Proofs.Builtin.Changes
import RegisterVm.Proofs.Builtin.Failure
import RegisterVm.Proofs.Builtin.Soundness
import RegisterVm.Proofs.Bytecode.Document
import RegisterVm.Proofs.Bytecode.Loop
import RegisterVm.Proofs.Bytecode.Verifier
import RegisterVm.Proofs.Heap.Changes
import RegisterVm.Proofs.Heap.Comparisons
import RegisterVm.Proofs.Heap.Containers
import RegisterVm.Proofs.Heap.Exceptions
import RegisterVm.Proofs.Heap.Failure
import RegisterVm.Proofs.Heap.Growth
import RegisterVm.Proofs.Heap.Indexing
import RegisterVm.Proofs.Heap.IntegerSize
import RegisterVm.Proofs.Heap.Integers
import RegisterVm.Proofs.Heap.Iteration
import RegisterVm.Proofs.Heap.Keys
import RegisterVm.Proofs.Heap.Lineage
import RegisterVm.Proofs.Heap.Membership
import RegisterVm.Proofs.Heap.Methods
import RegisterVm.Proofs.Heap.NumberOrder
import RegisterVm.Proofs.Heap.Operators
import RegisterVm.Proofs.Heap.Shown
import RegisterVm.Proofs.Heap.Slicing
import RegisterVm.Proofs.Heap.Soundness
import RegisterVm.Proofs.Heap.Substrings
import RegisterVm.Proofs.Heap.Tables
import RegisterVm.Proofs.Heap.Walks
import RegisterVm.Proofs.Json.Decoder
import RegisterVm.Proofs.Json.Number
import RegisterVm.Proofs.Json.Text
import RegisterVm.Proofs.Loop.Compiled
import RegisterVm.Proofs.Loop.NativeForm
import RegisterVm.Proofs.Loop.Protocol
import RegisterVm.Proofs.Loop.WordArithmetic
import RegisterVm.Proofs.Machine.Calls
import RegisterVm.Proofs.Machine.Changes
import RegisterVm.Proofs.Machine.Consistency
import RegisterVm.Proofs.Machine.Control
import RegisterVm.Proofs.Machine.ControlFlow
import RegisterVm.Proofs.Machine.Depth
import RegisterVm.Proofs.Machine.Effect
import RegisterVm.Proofs.Machine.Executions
import RegisterVm.Proofs.Machine.Exhaustion
import RegisterVm.Proofs.Machine.Footprint
import RegisterVm.Proofs.Machine.Handlers
import RegisterVm.Proofs.Machine.History
import RegisterVm.Proofs.Machine.InUse
import RegisterVm.Proofs.Machine.Inline
import RegisterVm.Proofs.Machine.Library
import RegisterVm.Proofs.Machine.Lineage
import RegisterVm.Proofs.Machine.Native
import RegisterVm.Proofs.Machine.Operation
import RegisterVm.Proofs.Machine.Permanence
import RegisterVm.Proofs.Machine.Promotion
import RegisterVm.Proofs.Machine.Reachability
import RegisterVm.Proofs.Machine.RegisterSafety
import RegisterVm.Proofs.Machine.Registers
import RegisterVm.Proofs.Machine.Settled
import RegisterVm.Proofs.Machine.SharedLoops
import RegisterVm.Proofs.Machine.Signals
import RegisterVm.Proofs.Machine.Simulation
import RegisterVm.Proofs.Machine.Stacking
import RegisterVm.Proofs.Machine.Unwinding
import RegisterVm.Proofs.Machine.Values
import RegisterVm.Proofs.Number.Bits
import RegisterVm.Proofs.Number.FloatOrder
import RegisterVm.Proofs.Number.Integer
import RegisterVm.Proofs.Number.Length
import RegisterVm.Proofs.Number.Rounding
import RegisterVm.Proofs.Number.WholeFloat
import RegisterVm.Proofs.Object.Dict
import RegisterVm.Proofs.Object.IntRange
import RegisterVm.Proofs.Object.WideRange
import RegisterVm.Proofs.Text.Search
import RegisterVm.Proofs.Value.Slot
import RegisterVm.Report
import RegisterVm.Text.Blank
import RegisterVm.Text.CaseTable
import RegisterVm.Text.Escaped
import RegisterVm.Text.LetterCase
import RegisterVm.Text.PrintTable
import RegisterVm.Text.Quoted
import RegisterVm.Text.Ranges
import RegisterVm.Text.Search
import RegisterVm.Value
import RegisterVm.Value.Primitive
import RegisterVm.Value.Slot
import RegisterVm.Proofs.Loop.WordDecision
import RegisterVm.Proofs.Text.Quoted
import RegisterVm.Proofs.Text.Split
import RegisterVm.Proofs.Heap.Splitting
import RegisterVm.Proofs.Number.DecimalText
import RegisterVm.Proofs.Number.Shown
import RegisterVm.Proofs.Heap.Repetition
import RegisterVm.Proofs.Heap.Boxing
import RegisterVm.Proofs.Machine.Unobserved
import RegisterVm.Proofs.Machine.RegisterFiles
import RegisterVm.Proofs.Machine.Reports
import RegisterVm.Proofs.Machine.Points
import RegisterVm.Proofs.Demo
import RegisterVm.Proofs.Loop.Discovery
import RegisterVm.Proofs.Machine.HelperSteps
import RegisterVm.Proofs.Machine.CallPoints
import RegisterVm.Proofs.Demo.Fibonacci
