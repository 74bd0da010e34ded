import StagedFlow.Graph.Basic

/-!
The rules that control-flow nodes keep: branches yield the types of the outputs, a loop body yields
the types of the carried values, and a loop predicate yields one boolean. Main definition:
`Graph.verify`.
-/
set_option autoImplicit false

namespace StagedFlow.Graph

def operandTypes (g : Graph) (operands : List Operand) : Except Fault (List ArrayType) :=
  operands.mapM g.operandType

/-- The operands `found` have to have the types `expected`. -/
def expectTypes (g : Graph) (node : Node) (part : String) (expected : List ArrayType)
    (found : List Operand) : Except Fault Unit := do
  let found ← g.operandTypes found
  if found = expected then return ⟨⟩
  else throw (.malformed (.regionTypes node.kind.name node.id part found expected))

def verifyNode (g : Graph) (node : Node) : Except Fault Unit := do
  let outputs ← g.operandTypes (node.outputs.map .var)
  match node.kind with
  | .apply _ => return ⟨⟩
  | .cond thenRegion elseRegion =>
    g.expectTypes node "then-branch" outputs thenRegion.results
    g.expectTypes node "else-branch" outputs elseRegion.results
  | .forLoop body =>
    let carried ← g.operandTypes (node.inputs.drop 3)
    g.expectTypes node "body" carried body.results
    g.expectTypes node "outputs" carried (node.outputs.map .var)
  | .whileLoop cond body =>
    let carried ← g.operandTypes node.inputs
    g.expectTypes node "predicate" [.scalar .bool] cond.results
    g.expectTypes node "body" carried body.results

/-- Check every node, and give the first violation. -/
def verify (g : Graph) : Except Fault Unit :=
  g.body.allNodes.forM g.verifyNode

end StagedFlow.Graph
