import StagedFlow.Graph.Basic
import StagedFlow.Op.Concrete

/-!
Running a graph on concrete inputs. All regions share one store of values, and a region that runs
again overwrites its own. Main definitions: `countLoop`, `Graph.run`, `materialize`,
`Graph.evaluate`. The fuel bounds the nesting and the rounds of conditional loops.
-/
set_option autoImplicit false

namespace StagedFlow

/-- The values of a graph that are known so far. -/
abbrev Store := Bindings Nat Value

namespace Store

def operand (s : Store) : Operand → Outcome Value
  | .var id =>
    match Bindings.find? s id with
    | some v => .ok v
    | none => .fault (.malformed (.usedBeforeDefinition id))
  | .const v => .ok v

def operands (s : Store) (operands : List Operand) : Outcome (List Value) :=
  operands.mapM s.operand

end Store

/-- Whether an integer is one of 64 bits. -/
def FitsInt64 (n : Int) : Prop :=
  -0x8000000000000000 ≤ n ∧ n < 0x8000000000000000

instance (n : Int) : Decidable (FitsInt64 n) :=
  inferInstanceAs (Decidable (_ ∧ _))

/-- Run a body for `i`, `i + step`, and so on before `stop`. The counter has 64 bits, and a step out
of them ends the loop. -/
def countLoop {σ : Type} (body : Int64 → σ → Outcome σ) (stop step i : Int) (s : σ) : Outcome σ :=
  if _h : (0 < step ∧ i < stop) ∨ (step < 0 ∧ stop < i) then
    match body (Int64.ofInt i) s with
    | .ok s => if FitsInt64 (i + step) then countLoop body stop step (i + step) s else .ok s
    | .error h => .error h
  else .ok s
termination_by (if 0 < step then stop - i else i - stop).toNat
decreasing_by
  rcases _h with h | h
  · simp only [h.1, if_true]
    omega
  · have : ¬ 0 < step := by omega
    simp only [this, if_false]
    omega

mutual

/-- Run nodes in order. -/
def runNodes : Nat → List Node → Store → Outcome Store
  | 0, _, _ => .error .outOfFuel
  | _ + 1, [], s => .ok s
  | fuel + 1, node :: rest, s => do
    let s ← runNode fuel node s
    runNodes fuel rest s

/-- Bind the parameters of a region, run its nodes and read its results. -/
def runRegion : Nat → Region → List Value → Store → Outcome (List Value × Store)
  | 0, _, _, _ => .error .outOfFuel
  | fuel + 1, region, args, s => do
    let s ← runNodes fuel region.nodes (Bindings.insertAll s region.params args)
    return (← s.operands region.results, s)

def runNode : Nat → Node → Store → Outcome Store
  | 0, _, _ => .error .outOfFuel
  | fuel + 1, node, s => do
    let inputs ← s.operands node.inputs
    match node.kind with
    | .apply op => return Bindings.insertAll s node.outputs [← op.apply inputs]
    | .cond thenRegion elseRegion =>
      match inputs with
      | [] => .fault (.malformed .branchWithoutPredicate)
      | predicate :: args =>
        let region := if ← .ofFault predicate.truthy then thenRegion else elseRegion
        let (outputs, s) ← runRegion fuel region args s
        return Bindings.insertAll s node.outputs outputs
    | .forLoop body =>
      match inputs with
      | start :: stop :: step :: carried =>
        let start ← .ofFault start.toIndex
        let stop ← .ofFault stop.toIndex
        let step ← .ofFault step.toIndex
        if step = 0 then .typeFault .zeroStep
        else
          let iterate (i : Int64) (state : List Value × Store) : Outcome (List Value × Store) :=
            runRegion fuel body (.int i :: state.1) state.2
          let (outputs, s) ← countLoop iterate stop.toInt step.toInt start.toInt (carried, s)
          return Bindings.insertAll s node.outputs outputs
      | _ => .fault (.malformed .loopWithoutBounds)
    | .whileLoop cond body =>
      let (outputs, s) ← runWhile fuel cond body inputs s
      return Bindings.insertAll s node.outputs outputs

/-- Repeat a body as long as the predicate holds. -/
def runWhile : Nat → Region → Region → List Value → Store → Outcome (List Value × Store)
  | 0, _, _, _, _ => .error .outOfFuel
  | fuel + 1, cond, body, carried, s => do
    let (results, s) ← runRegion fuel cond carried s
    match results with
    | [] => .fault (.malformed .predicateYieldsNothing)
    | predicate :: _ =>
      if ← .ofFault predicate.truthy then
        let (carried, s) ← runRegion fuel body carried s
        runWhile fuel cond body carried s
      else return (carried, s)

end

mutual

/-- Replace every placeholder in a value by what it stands for. -/
def materialize (s : Store) : Value → Outcome Value
  | .traced id _ => s.operand (.var id)
  | .list items => return .list (← materializeAll s items)
  | .tuple items => return .tuple (← materializeAll s items)
  | .dict entries => return .dict (← materializeEntries s entries)
  | .range start stop step => do
    let start ← materialize s start
    let stop ← materialize s stop
    let step ← materialize s step
    return .range start stop step
  | .enumerate inner start => return .enumerate (← materialize s inner) start
  | v => .ok v

def materializeAll (s : Store) : List Value → Outcome (List Value)
  | [] => .ok []
  | v :: vs => do
    let v ← materialize s v
    let vs ← materializeAll s vs
    return v :: vs

def materializeEntries (s : Store) : List (Value × Value) → Outcome (List (Value × Value))
  | [] => .ok []
  | (k, v) :: rest => do
    let k ← materialize s k
    let v ← materialize s v
    let rest ← materializeEntries s rest
    return (k, v) :: rest

end

namespace Graph

/-- The store after running a graph on its inputs. -/
def run (fuel : Nat) (g : Graph) (args : List Value) : Outcome Store :=
  if args.length ≠ g.inputs.length then .typeFault (.graphInputs g.inputs.length args.length)
  else runNodes fuel g.body.nodes (Bindings.insertAll [] g.inputs args)

/-- Run a graph, and read a value off what it computed. -/
def evaluate (fuel : Nat) (g : Graph) (args : List Value) (output : Value) : Outcome Value := do
  let s ← g.run fuel args
  materialize s output

end Graph

end StagedFlow
