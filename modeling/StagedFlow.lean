import StagedFlow.Bindings
import StagedFlow.Exec.Attempt
import StagedFlow.Exec.Builtin
import StagedFlow.Exec.Error
import StagedFlow.Exec.Expr
import StagedFlow.Exec.Iteration
import StagedFlow.Exec.Run
import StagedFlow.Fault
import StagedFlow.Flow.Block
import StagedFlow.Flow.Carried
import StagedFlow.Flow.Convert
import StagedFlow.Flow.Definite
import StagedFlow.Flow.Folding
import StagedFlow.Flow.Liveness
import StagedFlow.Flow.Text
import StagedFlow.Flow.Typing
import StagedFlow.Flow.Usage
import StagedFlow.Graph.Basic
import StagedFlow.Graph.Eval
import StagedFlow.Graph.Text
import StagedFlow.Graph.Verify
import StagedFlow.Iteration.Domain
import StagedFlow.Json.Basic
import StagedFlow.Json.Parser
import StagedFlow.NDArray.Basic
import StagedFlow.NDArray.Kron
import StagedFlow.Names
import StagedFlow.Op.Abstract
import StagedFlow.Op.Arithmetic
import StagedFlow.Op.Basic
import StagedFlow.Op.Concrete
import StagedFlow.Options
import StagedFlow.Program.Compact
import StagedFlow.Program.Constant
import StagedFlow.Program.Json
import StagedFlow.Program.Source
import StagedFlow.Program.Span
import StagedFlow.Program.Syntax
import StagedFlow.Program.Text
import StagedFlow.Proofs.Agreement
import StagedFlow.Proofs.Contract
import StagedFlow.Proofs.Conversion
import StagedFlow.Proofs.Evaluation
import StagedFlow.Proofs.Evolution
import StagedFlow.Proofs.Execution
import StagedFlow.Proofs.Fallback
import StagedFlow.Proofs.GraphRuns
import StagedFlow.Proofs.Growth
import StagedFlow.Proofs.Histories
import StagedFlow.Proofs.HostOps
import StagedFlow.Proofs.HostRuns
import StagedFlow.Proofs.Lookup
import StagedFlow.Proofs.Primitives
import StagedFlow.Proofs.Reading
import StagedFlow.Proofs.Recording
import StagedFlow.Proofs.Refinement
import StagedFlow.Proofs.ScalarProgram
import StagedFlow.Proofs.ScalarSteps
import StagedFlow.Proofs.Scoping
import StagedFlow.Proofs.StagedBlocks
import StagedFlow.Proofs.StagedCalls
import StagedFlow.Proofs.Strictness
import StagedFlow.Proofs.Threading
import StagedFlow.Proofs.Tracing
import StagedFlow.Proofs.WellTyped
import StagedFlow.Report.Diagnostic
import StagedFlow.Report.Location
import StagedFlow.Report.Violation
import StagedFlow.Step
import StagedFlow.Text.Basic
import StagedFlow.Text.Decimal
import StagedFlow.Text.Numeral
import StagedFlow.Text.Printable
import StagedFlow.Toml.Basic
import StagedFlow.Toml.Parser
import StagedFlow.Toml.Scalar
import StagedFlow.Toml.Text
import StagedFlow.Tracer.Basic
import StagedFlow.Tracer.Primitive
import StagedFlow.TypeClass.Basic
import StagedFlow.TypeClass.Infer
import StagedFlow.Value.Basic
import StagedFlow.Value.Convert
import StagedFlow.Value.Counting
import StagedFlow.Value.ElemType
import StagedFlow.Value.Json
import StagedFlow.Value.Scalar
import StagedFlow.Value.Text
import StagedFlow.Workbench.Basic
import StagedFlow.Workbench.Registry
import StagedFlow.Proofs.LiveRuns
import StagedFlow.Proofs.Dataflow
import StagedFlow.Proofs.Availability
import StagedFlow.Proofs.MissingNames
import StagedFlow.Proofs.Scripts
import StagedFlow.Proofs.Atomicity
import StagedFlow.Proofs.SingleAssignment
import StagedFlow.Proofs.Simulation
import StagedFlow.Proofs.Silence
import StagedFlow.Proofs.ArrayOps
import StagedFlow.Proofs.TypedOps
import StagedFlow.Proofs.Formed
import StagedFlow.Proofs.ProperNodes
import StagedFlow.Proofs.ProperRuns
import StagedFlow.Proofs.TypeSoundness
import StagedFlow.Proofs.LoopSources
import StagedFlow.Proofs.ResultTypes
import StagedFlow.Proofs.Ledger
import StagedFlow.Proofs.Constants
import StagedFlow.Proofs.WatchedRuns
import StagedFlow.Proofs.CountedRanges
import StagedFlow.Proofs.Materialization
import StagedFlow.Proofs.UniformItems
import StagedFlow.Proofs.FuelRuns
import StagedFlow.Proofs.ConstantFolding
import StagedFlow.Proofs.IntegerLaws
import StagedFlow.Proofs.ClassSoundness
import StagedFlow.Proofs.Kronecker
import StagedFlow.Proofs.BuiltArrays
import StagedFlow.Proofs.ClassMerging
import StagedFlow.Proofs.LiveHeads
import StagedFlow.Proofs.ProgramParts
import StagedFlow.Proofs.JsonText
import StagedFlow.Proofs.JsonForms
import StagedFlow.Proofs.JsonDepth
import StagedFlow.Proofs.SingleLines
import StagedFlow.Proofs.SourcePlaces
import StagedFlow.Proofs.ExprReading
import StagedFlow.Proofs.FlowPaths
import StagedFlow.Proofs.BlockNotes
import StagedFlow.Proofs.BlockPlaces
