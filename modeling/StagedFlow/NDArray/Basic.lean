import StagedFlow.Fault
import StagedFlow.Value.Basic

/-!
Building arrays and taking them apart: from scalars of mixed types, by position on the leading
axis, and element by element. Main definitions: `NDArray.make`, `NDArray.ofScalars`,
`NDArray.index`, `NDArray.rows`, `NDArray.mapM`, `NDArray.zipWithM`, and the invariant
`NDArray.WellFormed`.
-/
set_option autoImplicit false

namespace StagedFlow

/-- The number of elements that a shape has room for. -/
def shapeSize (shape : List Nat) : Nat :=
  shape.foldr (· * ·) 1

/-- Whether the number of elements can be computed in machine words: the lengths are multiplied
from left to right, `before` is their product so far. -/
def productFits (before : Nat) : List Nat → Bool
  | [] => true
  | length :: rest => before * length ≤ wordMax && productFits (before * length) rest

/-- Whether the number of elements of a shape can be computed in machine words. A zero comes too
late where the lengths before it have too large a product. -/
def shapeFits (shape : List Nat) : Bool :=
  productFits 1 shape

namespace Cells

/-- `count` elements from position `offset` on; all of them have to exist. -/
def slice (c : Cells) (offset count : Nat) : Outcome Cells :=
  if offset + count ≤ c.size then
    .ok (match c with
      | bools xs => bools ((xs.drop offset).take count)
      | ints xs => ints ((xs.drop offset).take count)
      | floats xs => floats ((xs.drop offset).take count))
  else .crash .outOfRange

/-- The scalars stored with one element type; what has no form in it is left out. -/
def ofScalars (elem : ElemType) (scalars : List Scalar) : Cells :=
  match elem with
  | .bool => bools (scalars.filterMap Scalar.toBool?)
  | .int => ints (scalars.filterMap Scalar.toInt?)
  | .float => floats (scalars.map Scalar.toFloat)

end Cells

namespace NDArray

/-- As many elements are stored as the shape has room for. -/
def WellFormed (a : NDArray) : Prop :=
  a.size = shapeSize a.shape

instance (a : NDArray) : Decidable a.WellFormed :=
  inferInstanceAs (Decidable (_ = _))

/-- An array of the given shape, if the number of elements fits. As many elements as are stored can
be counted in a machine word, so that the product of the lengths is only too large for one where
there are no elements, or another number of them. -/
def make (shape : List Nat) (cells : Cells) : Outcome NDArray :=
  if shapeSize shape = cells.size ∧ (cells.size ≠ 0 ∨ shapeFits shape) then .ok ⟨shape, cells⟩
  else if shapeFits shape then .shapeFault (.reshape cells.size shape)
  else .crash .overflow

/-- The widest element type among scalars; floats when there are none. -/
def widestElem : List Scalar → ElemType
  | [] => .float
  | scalars => scalars.foldl (fun elem s => elem.widest s.elem) .bool

/-- An array of scalars, all converted to the widest element type among them. -/
def ofScalars (shape : List Nat) (scalars : List Scalar) : Outcome NDArray :=
  make shape (Cells.ofScalars (widestElem scalars) scalars)

/-- The values as scalars, or the first that is none. -/
def scalarsOf : List Value → Except Fault (List Scalar)
  | [] => .ok []
  | .scalar s :: rest => (scalarsOf rest).map (s :: ·)
  | v :: _ => .error (.unrepresentable v.typeName)

/-- An array of values, which all have to be scalars. -/
def ofValues (shape : List Nat) (values : List Value) : Outcome NDArray := do
  ofScalars shape (← .ofFault (scalarsOf values))

/-- A one-dimensional array of integers. -/
def ofInts (xs : List Int64) : NDArray :=
  ⟨[xs.length], .ints xs⟩

/-- A one-dimensional array of floats. -/
def ofFloats (xs : List Float) : NDArray :=
  ⟨[xs.length], .floats xs⟩

/-- The element at a row-major position. -/
def flat (a : NDArray) (i : Nat) : Outcome Scalar :=
  match a.scalars[i]? with
  | some s => .ok s
  | none => .crash .outOfRange

/-- A length as a signed number of 64 bits; one that is too long for it is negative there. -/
def signedLength (length : Nat) : Int :=
  (Int64.ofNat length).toInt

/-- The position that an index means on an axis; a negative one counts from the end. -/
def position? (index : Int64) (length : Nat) : Option Nat :=
  let i := index.toInt
  let i := if i < 0 then i + signedLength length else i
  if 0 ≤ i ∧ i < length then some i.toNat else none

/-- Whether counting an index from the end of an axis leaves the signed numbers of 64 bits. -/
def countsOut (index : Int64) (length : Nat) : Bool :=
  index.toInt < 0 ∧ index.toInt + signedLength length < -0x8000000000000000

/-- The scalar or sub-array at an index of the leading axis. An axis with elements is never too
long to count from its end, and the product of the inner lengths never too large where there is a
row, since the product of all lengths is at least as large. -/
def index (a : NDArray) (i : Int64) : Outcome Value :=
  match a.shape with
  | [] => .typeFault .indexedScalar
  | length :: inner =>
    if a.size = 0 ∧ countsOut i length then .crash .overflow
    else
      match position? i length with
      | none => .fault (.bounds i length)
      | some row =>
        if inner.isEmpty then (a.flat row).map .scalar
        else
          let stride := shapeSize inner
          (a.cells.slice (row * stride) stride).map fun cells => .array ⟨inner, cells⟩

/-- How many items there are to go through along the leading axis. -/
def rowCount (a : NDArray) : Nat :=
  (signedLength a.length).toNat

/-- The items along the leading axis. -/
def rows (a : NDArray) : Outcome (List Value) :=
  if Value.maxCollected < a.rowCount then .crash .capacity
  else (List.range a.rowCount).mapM fun k => a.index (Int64.ofNat k)

/-- Apply an operation to every element. -/
def mapM (a : NDArray) (f : Scalar → Outcome Scalar) : Outcome NDArray := do
  ofScalars a.shape (← a.scalars.mapM f)

/-- Combine two arrays of one shape element by element. -/
def zipWithM (a b : NDArray) (f : Scalar → Scalar → Outcome Scalar) : Outcome NDArray :=
  if a.shape = b.shape then do
    ofScalars a.shape (← (a.scalars.zip b.scalars).mapM fun p => f p.1 p.2)
  else .shapeFault (.broadcast a.shape b.shape)

/-- Two arrays brought to one shape: an array without axes goes with any other. -/
def broadcastPair (a b : NDArray) : Outcome (NDArray × NDArray) :=
  if a.shape = b.shape then .ok (a, b)
  else if a.isZeroDim then do
    let s ← a.flat 0
    return (← ofScalars b.shape (List.replicate b.size s), b)
  else if b.isZeroDim then do
    let s ← b.flat 0
    return (a, ← ofScalars a.shape (List.replicate a.size s))
  else .shapeFault (.broadcast a.shape b.shape)

end NDArray

end StagedFlow
