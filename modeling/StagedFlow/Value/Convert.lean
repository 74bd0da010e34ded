import StagedFlow.Text.Numeral
import StagedFlow.Value.Counting
import StagedFlow.Value.Text

/-!
Conversions of values: to their type, to a truth value, to an integer or a float, to an array, and
to another element type; and indexing. Main definitions: `Value.arrayType`, `Value.truthy`,
`Value.toIndex`, `Value.toArray?`, `Value.index`, `Value.convert`.
-/
set_option autoImplicit false

namespace StagedFlow

namespace Value

/-- The type of a value; only scalars, arrays and placeholders have one. -/
def arrayType : Value → Except Fault ArrayType
  | scalar s => .ok (.scalar s.elem)
  | array a => .ok a.type
  | traced _ type => .ok type
  | v => .error (.unrepresentable v.typeName)

/-- Whether a value counts as true where the host has to decide. A placeholder does not say, nor
does an array of several elements, nor a range whose bounds are not all known. -/
def truthy : Value → Except Fault Bool
  | scalar s => .ok s.truthy
  | none => .ok false
  | str s => .ok (!s.isEmpty)
  | list items => .ok (!items.isEmpty)
  | tuple items => .ok (!items.isEmpty)
  | dict entries => .ok (!entries.isEmpty)
  | range start stop step =>
    match (range start stop step).counting? with
    | some c => .ok (0 < c.length)
    | Option.none => .error (.boolConversion (.scalar .int))
  | enumerate _ _ => .ok true
  | array a =>
    match a.scalars with
    | [s] => .ok s.truthy
    | _ => .error (.type .ambiguousTruth)
  | traced _ type => .error (.boolConversion type)

/-- The integer that a value stands for as an index. -/
def toIndex (v : Value) : Except Fault Int64 :=
  match v.toInt?, v with
  | some n, _ => .ok n
  | Option.none, traced _ type => .error (.integerConversion type)
  | Option.none, v => .error (.type (.notAnInteger v.typeName))

def toFloat (v : Value) : Except Fault Float :=
  match v with
  | scalar s => .ok s.toFloat
  | traced _ type => .error (.type (.tracedToFloat type))
  | v => .error (.type (.floatArgument v.typeName))

mutual

/-- The array that a nest of lists and tuples of numbers writes, provided that it is rectangular;
an array stands for itself. -/
def toArray? : Value → Search NDArray
  | array a => .ok a
  | list items => do
    let (inner, flat) ← gather? items Option.none
    .ofOutcome (NDArray.ofScalars (items.length :: inner.getD []) flat)
  | tuple items => do
    let (inner, flat) ← gather? items Option.none
    .ofOutcome (NDArray.ofScalars (items.length :: inner.getD []) flat)
  | _ => .missing

/-- The numbers in a list of items of one shape, and that shape; `inner` is the shape that the
items before had. A number has the empty shape. -/
def gather? : List Value → Option (List Nat) → Search (Option (List Nat) × List Scalar)
  | [], inner => .ok (inner, [])
  | scalar s :: rest, inner =>
    if inner.getD [] = [] then do
      let (inner, flat) ← gather? rest (some [])
      return (inner, s :: flat)
    else .missing
  | v :: rest, inner => do
    let sub ← toArray? v
    if inner.getD sub.shape = sub.shape then
      let (inner, flat) ← gather? rest (some sub.shape)
      return (inner, sub.scalars ++ flat)
    else .missing

end

/-- The item of a list at an index. -/
def itemAt {α : Type} (items : List α) (i : Int64) : Outcome α :=
  match NDArray.position? i items.length with
  | Option.none => .fault (.bounds i items.length)
  | some k =>
    match items[k]? with
    | some item => .ok item
    | Option.none => .crash .outOfRange

/-- The entry of a key; of two equal keys the first counts. -/
def lookup (entries : List (Value × Value)) (key : Value) : Outcome Value :=
  match entries.find? fun e => e.1.same key with
  | some e => .ok e.2
  | Option.none => .typeFault (.missingKey key.text)

/-- `base[index]` on the host. -/
def index (base index : Value) : Outcome Value :=
  match base with
  | array a => do a.index (← .ofFault index.toIndex)
  | list items => do itemAt items (← .ofFault index.toIndex)
  | tuple items => do itemAt items (← .ofFault index.toIndex)
  | str s => do
    let c ← itemAt s.toList (← .ofFault index.toIndex)
    return str (String.singleton c)
  | dict entries => lookup entries index
  | v => .typeFault (.notSubscriptable v.typeName)

/-- A float cut to an integer: toward zero, to the nearest end beyond 64 bits, 0 for a NaN. -/
def truncate (x : Float) : Int64 :=
  x.toInt64

/-- Another element type for a scalar, or the same request made of any other single value. -/
def convertOne (elem : ElemType) (v : Value) : Except Fault Scalar :=
  match elem, v with
  | .int, float x => .ok (.int (truncate x))
  | .int, v =>
    match v.toInt? with
    | some n => .ok (.int n)
    | Option.none => .error (.type (.intArgument v.typeName))
  | .float, v => v.toFloat.map .float
  | .bool, v => v.truthy.map .bool

/-- The number that a text writes, white space around it left aside. -/
def parse (elem : ElemType) (s : String) : Except Fault Scalar :=
  match elem with
  | .int =>
    match Text.parseInt64? (Text.trim s) with
    | some n => .ok (.int n)
    | Option.none => .error (.type (.intLiteral s))
  | .float =>
    match Text.parseFloat? (Text.trim s) with
    | some x => .ok (.float x)
    | Option.none => .error (.type (.floatLiteral s))
  | .bool => .ok (.bool (!s.isEmpty))

/-- Another element type for a scalar, a text or all elements of an array. -/
def convert (elem : ElemType) : Value → Outcome Value
  | array a => do
    let scalars ← .ofFault (a.scalars.mapM fun s => convertOne elem (.scalar s))
    return array (← NDArray.make a.shape (Cells.ofScalars elem scalars))
  | str s => .ofFault ((parse elem s).map .scalar)
  | v => .ofFault ((convertOne elem v).map .scalar)

end Value

end StagedFlow
