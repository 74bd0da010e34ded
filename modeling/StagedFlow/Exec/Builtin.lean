import StagedFlow.Program.Syntax
import StagedFlow.Tracer.Basic
import StagedFlow.Value.Counting

/-!
The functions that a program can call. Main definitions: `Builtin.call`.
-/
set_option autoImplicit false

namespace StagedFlow

/-- A value that can bound a range. -/
def rangeBound : Value → Except Fault Value
  | .int n => .ok (.int n)
  | .bool b => .ok (.int (if b then 1 else 0))
  | .traced id type =>
    if type.isScalar && type.elem != .float then .ok (.traced id type)
    else .error (.type (.notAnInteger (Value.traced id type).typeName))
  | v => .error (.type (.notAnInteger v.typeName))

/-- A range from one, two or three bounds. -/
def makeRange (bounds : List Value) : Except Fault Value :=
  let (start, stop, step) : Value × Value × Value :=
    match bounds with
    | [stop] => (.int 0, stop, .int 1)
    | [start, stop] => (start, stop, .int 1)
    | start :: stop :: step :: _ => (start, stop, step)
    | [] => (.int 0, .none, .int 1)
  if step.same (.int 0) then .error (.type .zeroStep) else .ok (.range start stop step)

/-- The number of items of a value. -/
def valueLength : Value → Except Fault Nat
  | .list items => .ok items.length
  | .tuple items => .ok items.length
  | .dict entries => .ok entries.length
  | .str s => .ok s.length
  | .array a =>
    if a.isZeroDim then .error (.type (.noLength (Value.array a).typeName)) else .ok a.length
  | .traced _ type =>
    match type.leading? with
    | some n => .ok n
    | none => .error (.type .unsized)
  | .range start stop step =>
    match (Value.range start stop step).counting? with
    | some c => .ok c.length
    | none => .error (.integerConversion (.scalar .int))
  | v => .error (.type (.noLength v.typeName))

/-- A value as an array; a scalar has no axes. -/
def makeArray (v : Value) : Outcome Value :=
  if v.isTraced then .ok v
  else if v.hasTraced then .typeFault .arrayOfTraced
  else do
    match ← v.toArray?.optional, v with
    | some a, _ => return .array a
    | none, .scalar s => return .array (← NDArray.ofScalars [] [s])
    | none, v => .typeFault (.notArrayLike v.typeName)

/-- The entries of a dictionary as pairs. -/
def dictItems : Value → Except Fault Value
  | .dict entries => .ok (.list (entries.map fun (k, v) => .tuple [k, v]))
  | v => .error (.type (.noItems v.typeName))

namespace Builtin

/-- Convert a value now, or in the graph if it is a placeholder. -/
def convertTo (elem : ElemType) (v : Value) : Step Tracer Fault Value :=
  if v.isTraced then Tracer.apply (.convert elem) [v]
  else Step.ofExcept (v.convert elem)

/-- Call a function with as many arguments as it takes. -/
def callWith (f : Builtin) (args : List Value) : Step Tracer Fault Value :=
  let arg := args.headD .none
  match f with
  | range => Step.ofFault (args.mapM rangeBound >>= makeRange)
  | enumerate => Step.ofFault (
      match args[1]? with
      | some start => start.toIndex.map (.enumerate arg)
      | none => .ok (.enumerate arg 0))
  | len => Step.ofFault ((valueLength arg).map fun n => .int (Int64.ofNat n))
  | int => convertTo .int arg
  | float => convertTo .float arg
  | array => Step.ofExcept (makeArray arg)
  | kron => Tracer.apply .kron args
  | items => Step.ofFault (dictItems arg)

/-- Call a function. -/
def call (f : Builtin) (args : List Value) : Step Tracer Fault Value :=
  if args.length ∈ f.arities then callWith f args
  else Step.fail (.type (.builtinCount f.name f.arities args.length))

end Builtin

end StagedFlow
