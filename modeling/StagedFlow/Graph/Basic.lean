import StagedFlow.Bindings
import StagedFlow.Value.Convert

/-!
Graphs: regions of nodes in the order in which they were recorded. A control-flow node owns nested
regions, whose nodes may use every value that is defined around them. Main definitions: `Node`,
`Region`, `Graph`, `Region.allNodes`.
-/
set_option autoImplicit false

namespace StagedFlow

/-- An input of a node: a graph value, or a constant that is part of the graph. -/
inductive Operand
  | var (id : Nat)
  | const (v : Value)
  deriving Inhabited

def Operand.text : Operand → String
  | var id => s!"%{id}"
  | const v => v.text

mutual

/-- A node computes the values `outputs`. Its inputs are the operands of an operation; a predicate
and what both branches take; three bounds and the carried values of a counted loop; or the carried
values of a conditional loop. -/
structure Node where
  id : Nat
  kind : NodeKind
  inputs : List Operand
  outputs : List Nat

/-- What a node computes. The body of a counted loop takes the index before the carried values. -/
inductive NodeKind
  | apply (op : Op)
  | cond (thenRegion elseRegion : Region)
  | forLoop (body : Region)
  | whileLoop (cond body : Region)

/-- A sequence of nodes with parameters and results. -/
structure Region where
  params : List Nat
  nodes : List Node
  results : List Operand

end

namespace NodeKind

def name : NodeKind → String
  | apply op => op.text
  | cond _ _ => Primitive.cond.text
  | forLoop _ => Primitive.forLoop.text
  | whileLoop _ _ => Primitive.whileLoop.text

end NodeKind

namespace Region

/-- A region that takes `params` and holds nothing yet. -/
def opened (params : List Nat) : Region :=
  ⟨params, [], []⟩

instance : Inhabited Region :=
  ⟨opened []⟩

end Region

mutual

/-- All nodes of a region, a node before those nested in it. -/
def Region.allNodes : Region → List Node
  | ⟨_, nodes, _⟩ => nodesBelow nodes

def nodesBelow : List Node → List Node
  | [] => []
  | ⟨id, kind, inputs, outputs⟩ :: rest =>
    ⟨id, kind, inputs, outputs⟩ :: (kind.allNodes ++ nodesBelow rest)

def NodeKind.allNodes : NodeKind → List Node
  | .apply _ => []
  | .cond thenRegion elseRegion => thenRegion.allNodes ++ elseRegion.allNodes
  | .forLoop body => body.allNodes
  | .whileLoop cond body => cond.allNodes ++ body.allNodes

end

/-- Types of graph values; of two entries for one value the first counts. -/
abbrev TypeTable := Bindings Nat ArrayType

namespace TypeTable

/-- The type of a value that is new in the table. -/
def declare (table : TypeTable) (id : Nat) (type : ArrayType) : TypeTable :=
  (id, type) :: table

/-- The entries that count, by increasing value. -/
def sorted (table : TypeTable) : List (Nat × ArrayType) :=
  let ids := (table.map Prod.fst).eraseDups.mergeSort
  ids.filterMap fun id => (Bindings.find? table id).map fun type => (id, type)

end TypeTable

/-- A program recorded by tracing. -/
structure Graph where
  inputs : List Nat
  body : Region
  types : TypeTable
  deriving Inhabited

namespace Graph

/-- The type of an operand. -/
def operandType (g : Graph) : Operand → Except Fault ArrayType
  | .var id =>
    match Bindings.find? g.types id with
    | some type => .ok type
    | none => .error (.malformed (.undefinedValue id))
  | .const v => v.arrayType

def nodeCount (g : Graph) : Nat :=
  g.body.allNodes.length

end Graph

end StagedFlow
