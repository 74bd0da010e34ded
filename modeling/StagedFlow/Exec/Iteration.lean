import StagedFlow.Tracer.Primitive
import StagedFlow.Value.Counting

/-!
The elements that a loop runs over: all of them on the host, or the one at an index of the loop in
the graph. Main definitions: `Value.hostItems`, `Feed`, `Elements`, `Value.loopRange`.
-/
set_option autoImplicit false

namespace StagedFlow

/-! ## On the host -/

/-- Items with numbers from `start` on. -/
def numbered (start : Int64) (items : List Value) : Outcome (List Value) :=
  items.zipIdx.mapM fun (item, k) => do
    return .tuple [.int (← checkedInt64 (start.toInt + k)), item]

/-- The integers of a range. The room for all of them is set aside before the first is made. -/
def Counting.items (c : Counting) : Outcome (List Value) :=
  if Value.maxBytes < c.length * Value.itemBytes then .crash .capacity
  else .ok (c.values.map Value.int)

/-- The type of the first placeholder among the bounds of a range. -/
def tracedBound (bounds : List Value) : ArrayType :=
  (bounds.findSome? Value.tracedType?).getD (.scalar .int)

namespace Value

/-- All items of a value. -/
def hostItems : Value → Step Tracer Fault (List Value)
  | .range start stop step =>
    match (Value.range start stop step).counting? with
    | some c =>
      if c.step = 0 then Step.fail (.type .zeroStep) else Step.ofExcept c.items
    | .none => Step.fail (.integerConversion (tracedBound [start, stop, step]))
  | .array a =>
    if a.isZeroDim then Step.fail (.type (.notIterable (Value.array a).typeName))
    else Step.ofExcept a.rows
  | .traced id type =>
    match type.leading? with
    | some n =>
      (List.range (NDArray.signedLength n).toNat).mapM fun i =>
        Tracer.apply .index [.traced id type, .int (Int64.ofNat i)]
    | .none => Step.fail (.type .iteratedScalar)
  | .list items => Step.done items
  | .tuple items => Step.done items
  | .dict entries => Step.done (entries.map Prod.fst)
  | .str s => Step.done (s.toList.map fun c => .str c.toString)
  | .enumerate inner start => do
    let items ← inner.hostItems
    Step.ofExcept (numbered start items)
  | v => Step.fail (.type (.notIterable v.typeName))

end Value

/-- The items that are still to come: a list, or a range from the given position on. -/
inductive Feed
  | items (items : List Value)
  | counting (c : Counting) (position : Nat)

namespace Feed

def next? : Feed → Option (Value × Feed)
  | items [] => none
  | items (v :: rest) => some (v, items rest)
  | counting c k => if k < c.length then some (.int (c.nth k), counting c (k + 1)) else none

/-- The items of a value; those of a range are made one by one. -/
def of (v : Value) : Step Tracer Fault Feed :=
  match v, v.counting? with
  | .range .., some c => if c.step = 0 then items <$> v.hostItems else Step.done (counting c 0)
  | _, _ => items <$> v.hostItems

end Feed

/-! ## In the graph -/

/-- How an index of a loop leads to an element: it is the element, it counts the steps from a start,
it is the row of an array, or it gives the element and its number. -/
inductive Elements
  | index
  | counted (start step : Int64)
  | rows (array : Value)
  | numbered (inner : Elements) (first : Int64)

namespace Elements

/-- The element at an index. -/
def element : Elements → Value → Step Tracer Fault Value
  | index, i => return i
  | counted start step, i => do
    let scaled ← Tracer.apply (.binary .mul) [i, .int step]
    Tracer.apply (.binary .add) [.int start, scaled]
  | rows array, i => Tracer.apply .index [array, i]
  | numbered inner first, i => do
    let number ← Tracer.apply (.binary .add) [i, .int first]
    let item ← inner.element i
    return .tuple [number, item]

end Elements

namespace Value

/-- The elements of a list or tuple, as the rows of its array. -/
def itemElements (v : Value) (count : Nat) : Outcome (Nat × Elements) := do
  match ← v.toArray?.optional with
  | some a => return (count, .rows (.array a))
  | .none => .fault (.malformed (.notLoopSource v.typeName))

/-- The number of elements of a value, and the way from an index to an element. -/
def elements : Value → Outcome (Nat × Elements)
  | .enumerate inner start =>
    (elements inner).map fun (count, inner) => (count, .numbered inner start)
  | .range start stop step =>
    match (Value.range start stop step).counting? with
    | some c => .ok (c.length, .counted c.start c.step)
    | .none => .fault (.malformed (.notLoopSource (Value.range start stop step).typeName))
  | .array a => .ok (a.length, .rows (.array a))
  | .traced id type =>
    match type.leading? with
    | some n => .ok (n, .rows (.traced id type))
    | .none => .fault (.malformed (.notLoopSource (Value.traced id type).typeName))
  | .list items => itemElements (.list items) items.length
  | .tuple items => itemElements (.tuple items) items.length
  | v => .fault (.malformed (.notLoopSource v.typeName))

/-- The range of a loop over a value; a range is counted through itself. -/
def loopRange (v : Value) : Outcome (Tracer.LoopRange × Elements) :=
  match v, v.counting? with
  | .range .., some c => .ok (⟨.int c.start, .int c.stop, .int c.step⟩, .index)
  | _, _ => v.elements.map fun (count, elements) => (.upTo count, elements)

end Value

end StagedFlow
