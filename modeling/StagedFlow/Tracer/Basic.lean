import StagedFlow.Graph.Basic
import StagedFlow.Op.Abstract
import StagedFlow.Op.Concrete
import StagedFlow.Step

/-!
The tracer: a graph in the making. It has one root region and a stack of regions that are being
traced; nodes go to the innermost one. Operations on host values are carried out at once, and those
with a placeholder among their operands become nodes. Main definitions: `Tracer`, `Tracer.input`,
`Tracer.apply`, `Tracer.bindNode`, `Tracer.retract`, `Tracer.graph`.
-/
set_option autoImplicit false

namespace StagedFlow

structure Tracer where
  /-- Whether a tracing session is active. -/
  session : Bool := false
  nextValue : Nat := 0
  nextNode : Nat := 0
  types : TypeTable := []
  inputs : List Nat := []
  root : Region := .opened []
  /-- The regions being traced, the innermost first. -/
  openRegions : List Region := []
  deriving Inhabited

namespace Tracer

/-- A tracer that has recorded nothing. -/
def start (session : Bool) : Tracer :=
  { session }

/-- The graph recorded in the root region. -/
def graph (t : Tracer) : Graph :=
  ⟨t.inputs, t.root, t.types⟩

def depth (t : Tracer) : Nat :=
  t.openRegions.length

/-- The region that nodes go to. -/
def current (t : Tracer) : Region :=
  t.openRegions.headD t.root

/-- Change the region that nodes go to. -/
def mapCurrent (t : Tracer) (f : Region → Region) : Tracer :=
  match t.openRegions with
  | [] => { t with root := f t.root }
  | region :: rest => { t with openRegions := f region :: rest }

/-- The newest node of the current region. -/
def lastNode? (t : Tracer) : Option Nat :=
  t.current.nodes.getLast?.map Node.id

/-! ## Values -/

/-- A new graph value of a type. -/
def fresh (t : Tracer) (type : ArrayType) : Nat × Tracer :=
  (t.nextValue,
    { t with nextValue := t.nextValue + 1, types := t.types.declare t.nextValue type })

/-- New graph values, one for each type. -/
def freshAll (t : Tracer) : List ArrayType → List Nat × Tracer
  | [] => ([], t)
  | type :: rest =>
    let (id, t) := t.fresh type
    let (ids, t) := freshAll t rest
    (id :: ids, t)

/-- The placeholders for graph values. -/
def placeholders (ids : List Nat) (types : List ArrayType) : List Value :=
  List.zipWith Value.traced ids types

/-- A new input of the graph. -/
def input (t : Tracer) (type : ArrayType) : Value × Tracer :=
  let (id, t) := t.fresh type
  (.traced id type, { t with inputs := t.inputs ++ [id] })

/-- A value as an operand, with its type. -/
def operandOf : Value → Except Fault (Operand × ArrayType)
  | .traced id type => .ok (.var id, type)
  | v => v.arrayType.map fun type => (.const v, type)

/-- Several values as operands; the first without a type is an error. -/
def operandsOf : List Value → Except Fault (List Operand × List ArrayType)
  | [] => .ok ([], [])
  | v :: vs => do
    let (operand, type) ← operandOf v
    let (operands, types) ← operandsOf vs
    return (operand :: operands, type :: types)

/-! ## Nodes -/

/-- Record a node with outputs of the given types, and give its number and its outputs. -/
def bindNode (t : Tracer) (kind : NodeKind) (inputs : List Operand) (types : List ArrayType) :
    (Nat × List Value) × Tracer :=
  let id := t.nextNode
  let (ids, t) := { t with nextNode := id + 1 }.freshAll types
  let node : Node := ⟨id, kind, inputs, ids⟩
  ((id, placeholders ids types), t.mapCurrent fun r => { r with nodes := r.nodes ++ [node] })

/-- Whether a known index lies outside an axis of a known length. -/
def outsideAxis (types : List ArrayType) (args : List Value) : Option (Int64 × Nat) := do
  let length ← (← types.head?).leading?
  let i ← (← args[1]?).toInt?
  let signed := NDArray.signedLength length
  if signed ≤ i.toInt ∨ i.toInt < -signed then return (i, length) else none

/-- Carry out an operation, or record it. An index that is known to lie outside is refused now. -/
def apply (op : Op) (args : List Value) : Step Tracer Fault Value := fun t =>
  if args.any Value.isTraced then
    match operandsOf args with
    | .error f => (Outcome.fault f, t)
    | .ok (operands, types) =>
      match if op = .index then outsideAxis types args else none with
      | some (i, length) => (Outcome.fault (.bounds i length), t)
      | none =>
        match op.resultType types with
        | .error h => (.error h, t)
        | .ok type =>
          let ((_, outputs), t) := t.bindNode (.apply op) operands [type]
          (.ok (outputs.headD .none), t)
  else (op.apply args, t)

/-- Take a node of the current region back, with the types of its outputs. -/
def retract (id : Nat) : Step Tracer Fault Unit := fun t =>
  match t.current.nodes.find? fun node => node.id == id with
  | none => (Outcome.fault (.malformed (.nodeNotInRegion id)), t)
  | some node =>
    let t := t.mapCurrent fun r => { r with nodes := r.nodes.eraseP fun n => n.id == id }
    (.ok ⟨⟩, { t with types := node.outputs.foldl Bindings.erase t.types })

/-! ## Regions -/

/-- Open a region with parameters of the given types. -/
def openRegion (t : Tracer) (types : List ArrayType) : List Value × Tracer :=
  let (ids, t) := t.freshAll types
  (placeholders ids types, { t with openRegions := .opened ids :: t.openRegions })

/-- Close the innermost region. -/
def closeRegion (t : Tracer) : Region × Tracer :=
  (t.openRegions.headD default, { t with openRegions := t.openRegions.tail })

/-! ## The session -/

/-- Begin a session; there is no second one inside it. -/
def enter (t : Tracer) : Except SessionFault Tracer :=
  if t.session then .error .reentry else .ok { t with session := true }

def leave (t : Tracer) : Tracer :=
  { t with session := false }

/-- Fail with a message unless a session is active. -/
def checkActive (t : Tracer) (message : String) : Except SessionFault Unit :=
  if t.session then .ok ⟨⟩ else .error (.notTracing message)

end Tracer

end StagedFlow
