import StagedFlow.Exec.Run
import StagedFlow.Graph.Eval
import StagedFlow.Graph.Verify
import StagedFlow.Workbench.Registry

/-!
The workbench: register functions, convert them, trace them into graphs, run the graphs, or call
the functions on the host. Main definitions: `Workbench`, `Workbench.convert`, `Workbench.trace`,
`Workbench.run`, `Workbench.call`.
-/
set_option autoImplicit false

namespace StagedFlow

inductive WorkbenchError
  | violations (vs : List Violation)
  | registry (f : RegistryFault)
  | session (f : SessionFault)
  | run (e : RunError)
  /-- The graph is not well formed, or it failed when it ran. -/
  | evaluation (f : Fault)

namespace WorkbenchError

def message : WorkbenchError → String
  | violations vs => Violation.textOf vs
  | registry f => f.message
  | session f => f.message
  | run e => e.message
  | evaluation f => "graph evaluation failed: " ++ f.message

/-- The name of the kind of an error. -/
def kind : WorkbenchError → String
  | violations _ => "Analysis"
  | registry f => f.kind
  | session f => f.kind
  | run e => "Execution." ++ e.kind
  | evaluation f => "Evaluation." ++ f.kind

def ofRun : RunError → WorkbenchError
  | .violations vs => violations vs
  | .fault (.session f) => session f
  | e => run e

end WorkbenchError

/-- An argument of a traced call: a value as it is, or an input of the graph with the value that it
has when the graph runs. -/
inductive Argument
  | fixed (v : Value)
  | dynamic (v : Value)

namespace Argument

def value : Argument → Value
  | fixed v => v
  | dynamic v => v

def dynamic? : Argument → Option Value
  | dynamic v => some v
  | fixed _ => none

/-- The arguments as the function gets them. -/
def bindAll : List Argument → Step Tracer Fault (List Value)
  | [] => return []
  | fixed v :: rest => do
    let values ← bindAll rest
    return v :: values
  | dynamic v :: rest => do
    let type ← Step.ofFault v.arrayType
    let input ← fun t => let (input, t) := t.input type; (.ok input, t)
    let values ← bindAll rest
    return input :: values

end Argument

/-- Registered functions with the options to convert them, whether a session is active, and how
many warnings were given. -/
structure Workbench where
  options : Options := {}
  registry : Registry := {}
  session : Bool := false
  warnings : Nat := 0
  deriving Inhabited

/-- A traced call: the graph with its output in terms of graph values, and the warnings. -/
structure Trace where
  graph : Graph
  output : Value
  diagnostics : List Diagnostic

/-- What is left of a traced call. -/
structure TraceRun where
  result : Except (Halt WorkbenchError) (Value × List Diagnostic)
  tracer : Tracer
  journal : Journal

/-- The result of the graph of a call. -/
structure RunResult where
  value : Value
  diagnostics : List Diagnostic
  graph : Graph

namespace Workbench

def register (w : Workbench) (f : FunctionDef) : Nat × Workbench :=
  let (handle, registry) := w.registry.register f
  (handle, { w with registry })

/-! ## The session -/

def enter (w : Workbench) : Except SessionFault Workbench :=
  if w.session then .error .reentry else .ok { w with session := true }

def leave (w : Workbench) : Workbench :=
  { w with session := false }

/-! ## Conversion -/

/-- Convert a function, unless that was done before. -/
def convert (handle : Nat) : Step Workbench WorkbenchError FlowFunction := fun w =>
  match w.registry.converted? handle with
  | some f => (.ok f, w)
  | none =>
    match w.registry.function handle with
    | .error f => (.error (.error (.registry f)), w)
    | .ok f =>
      let conversion := f.convert w.options
      let registry := w.registry.attempt handle f.name
      (conversion.result.mapError (Halt.map .violations),
        { w with
          registry := registry.record handle f.name conversion.result
          warnings := w.warnings + conversion.warnings })

/-! ## Calls -/

/-- Trace a call of a converted function with a new tracer in a session. -/
def traceCall (setting : Setting) (fuel : Nat) (plan : Option FaultPlan) (args : List Argument) :
    TraceRun :=
  let values := ((Argument.bindAll args).mapError WorkbenchError.evaluation).onFirst
  let call := fun values => (setting.call fuel plan values).mapError WorkbenchError.ofRun
  match (values >>= call) (Tracer.start true, {}) with
  | (result, (t, j)) =>
    ⟨result.map fun v => (v, setting.function.diagnostics ++ j.diagnostics), t.leave, j⟩

/-- Trace a call, with a fault if one is planned. -/
def traceWith (fuel : Nat) (plan : Option FaultPlan) (handle : Nat) (args : List Argument)
    (w : Workbench) : TraceRun × Workbench :=
  match convert handle w with
  | (.error h, w) => (⟨.error h, Tracer.start false, {}⟩, w)
  | (.ok f, w) =>
    match w.enter with
    | .error f => (⟨.error (.error (.session f)), Tracer.start true, {}⟩, w)
    | .ok entered =>
      let traced := traceCall ⟨f, w.options, .staged⟩ fuel plan args
      (traced, { entered with warnings := entered.warnings + traced.journal.warnings }.leave)

/-- Trace a call into a graph. -/
def trace (fuel : Nat) (handle : Nat) (args : List Argument) :
    Step Workbench WorkbenchError Trace := fun w =>
  let (traced, w) := traceWith fuel none handle args w
  match traced.result with
  | .error h => (.error h, w)
  | .ok (output, diagnostics) =>
    match traced.tracer.graph.verify with
    | .error f => (.error (.error (.evaluation f)), w)
    | .ok _ => (.ok ⟨traced.tracer.graph, output, diagnostics⟩, w)

/-- Trace a call, then run the graph on the dynamic arguments. -/
def run (fuel : Nat) (handle : Nat) (args : List Argument) :
    Step Workbench WorkbenchError RunResult := do
  let traced ← trace fuel handle args
  let inputs := args.filterMap Argument.dynamic?
  let value ←
    (Step.ofExcept (traced.graph.evaluate fuel inputs traced.output)).mapError
      WorkbenchError.evaluation
  return ⟨value, traced.diagnostics, traced.graph⟩

/-- Call a function on the host. -/
def call (fuel : Nat) (handle : Nat) (args : List Value) : Step Workbench WorkbenchError Value :=
  fun w =>
    match convert handle w with
    | (.error h, w) => (.error h, w)
    | (.ok f, w) =>
      let setting : Setting := ⟨f, w.options, .eager⟩
      match (setting.call fuel none args).mapError WorkbenchError.ofRun (Tracer.start w.session, {})
      with
      | (result, (_, j)) => (result, { w with warnings := w.warnings + j.warnings })

end Workbench

end StagedFlow
