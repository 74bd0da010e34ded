import StagedFlow.Bindings
import StagedFlow.Exec.Builtin
import StagedFlow.Exec.Error

/-!
Values of expressions, and assignment. Operations go through the tracer, which carries them out at
once or records them; `and`, `or` and `not` decide on the host where they can. Main definitions:
`Env`, `Expr.eval`, `Target.assign`.
-/
set_option autoImplicit false

namespace StagedFlow

/-- The values of variables. -/
abbrev Env := Bindings String Value

namespace Env

def lookup (env : Env) (name : String) : Except RunError Value :=
  match Bindings.find? env name with
  | some v => .ok v
  | none => .error (.undefined name)

/-- The values of several variables; the first that has none is an error. -/
def collect (env : Env) : List String → Except RunError (List Value)
  | [] => .ok []
  | name :: rest => do return (← env.lookup name) :: (← env.collect rest)

end Env

/-- A step of evaluation. -/
abbrev Eval := Step Tracer RunError

namespace Eval

variable {α : Type}

def ofExcept : Except RunError α → Eval α
  | .ok a => Step.done a
  | .error e => Step.fail e

def ofFault (x : Except Fault α) : Eval α :=
  (Step.ofFault x).mapError .fault

def ofOutcome (x : Outcome α) : Eval α :=
  (Step.ofExcept x).mapError .fault

def apply (op : Op) (args : List Value) : Eval Value :=
  (Tracer.apply op args).mapError .fault

end Eval

/-- Whether a value can be combined element by element with a placeholder. -/
def Value.isArrayLike : Value → Bool
  | .traced .. => true
  | .array _ => true
  | _ => false

namespace Expr

/-- Whether the left operand alone decides an `and` or an `or`. -/
def decides (op : LogicalOp) (truth : Bool) : Bool :=
  if op = .and then !truth else truth

/-- `and` and `or`, given the left value and the way to the right one. The operand that decides is
the result; with a placeholder on the left the graph has to combine both. -/
def evalLogical (op : LogicalOp) (left : Value) (right : Eval Value) : Eval Value :=
  match left with
  | .traced id type => do
    let right ← right
    if right.isArrayLike then Eval.apply (.logical op) [.traced id type, right]
    else Step.fail (.fault (.boolConversion type))
  | left => do
    let truth ← Eval.ofFault left.truthy
    if decides op truth then return left else right

/-- `not`, in the graph for a placeholder. -/
def evalNot (v : Value) : Eval Value :=
  if v.isTraced then Eval.apply (.logical .not) [v]
  else do return .bool (!(← Eval.ofFault v.truthy))

/-- An item of a value, by the graph for arrays. -/
def evalIndex (base i : Value) : Eval Value :=
  if base.isArrayLike then Eval.apply .index [base, i]
  else Eval.ofOutcome (base.index i)

mutual

/-- The value of an expression. -/
def eval (env : Env) : Expr → Eval Value
  | literal l => Step.done l.value
  | var name => Eval.ofExcept (env.lookup name)
  | binary op left right => do
    let left ← left.eval env
    let right ← right.eval env
    Eval.apply (.binary op) [left, right]
  | neg operand => do
    let v ← operand.eval env
    Eval.apply .neg [v]
  | and left right => do
    let left ← left.eval env
    evalLogical .and left (right.eval env)
  | or left right => do
    let left ← left.eval env
    evalLogical .or left (right.eval env)
  | not operand => do
    let v ← operand.eval env
    evalNot v
  | list items => do
    let values ← evalAll env items
    return .list values
  | tuple items => do
    let values ← evalAll env items
    return .tuple values
  | dict entries => do
    let entries ← evalEntries env entries
    return .dict entries
  | index base i => do
    let base ← base.eval env
    let i ← i.eval env
    evalIndex base i
  | call function args => do
    let args ← evalAll env args
    (function.call args).mapError .fault

def evalAll (env : Env) : List Expr → Eval (List Value)
  | [] => return []
  | e :: rest => do
    let v ← e.eval env
    let vs ← evalAll env rest
    return v :: vs

def evalEntries (env : Env) : List (Expr × Expr) → Eval (List (Value × Value))
  | [] => return []
  | (k, v) :: rest => do
    let k ← k.eval env
    let v ← v.eval env
    let entries ← evalEntries env rest
    return (k, v) :: entries

end

end Expr

/-! ## Assignment -/

/-- The first items of a value, by their indices. -/
def itemsByIndex (v : Value) (count : Nat) : Step Tracer Fault (List Value) :=
  (List.range count).mapM fun i => Tracer.apply .index [v, .int (Int64.ofNat i)]

/-- The parts of a sequence, as many as are wanted. -/
def Value.split (v : Value) (arity : Nat) : Step Tracer Fault (List Value) :=
  let parts := fun (found : Nat) (items : Step Tracer Fault (List Value)) =>
    if found = arity then items else Step.fail (.type (.unpackCount found arity))
  match v with
  | .list items => parts items.length (Step.done items)
  | .tuple items => parts items.length (Step.done items)
  | .array a =>
    if a.isZeroDim then Step.fail (.type (.unpackOther v.typeName))
    else parts a.length (itemsByIndex v arity)
  | .traced _ type =>
    match type.leading? with
    | some n => parts n (itemsByIndex v arity)
    | .none => Step.fail (.type .unpackScalar)
  | v => Step.fail (.type (.unpackOther v.typeName))

namespace Target

mutual

/-- Bind a target to a value. -/
def assign : Target → Value → Env → Step Tracer Fault Env
  | name n, v, env => return Bindings.insert env n v
  | tuple items, v, env => do
    let parts ← v.split items.length
    assignAll items parts env

def assignAll : List Target → List Value → Env → Step Tracer Fault Env
  | t :: ts, v :: vs, env => do
    let env ← t.assign v env
    assignAll ts vs env
  | _, _, env => return env

end

end Target

end StagedFlow
