import StagedFlow.Value.Scalar

/-!
Values. A value is a host object (a scalar, a text, a container, an array) or a placeholder for a
graph value that is only known when the graph runs. Main definitions: `NDArray`, `Value`,
`Value.same`, `Value.hasTraced`, and the memory that values take.
-/
set_option autoImplicit false

namespace StagedFlow

/-- Elements of one type, in row-major order. -/
inductive Cells
  | bools (xs : List Bool)
  | ints (xs : List Int64)
  | floats (xs : List Float)
  deriving Inhabited

/-- An array with a fixed shape. -/
structure NDArray where
  shape : List Nat
  cells : Cells
  deriving Inhabited

/-- A value. The bounds of a `range` are integers or placeholders for integers; `traced` is the
graph value `id`. -/
inductive Value
  | scalar (s : Scalar)
  | none
  | str (s : String)
  | list (items : List Value)
  | tuple (items : List Value)
  | dict (entries : List (Value × Value))
  | range (start stop step : Value)
  | enumerate (inner : Value) (start : Int64)
  | array (a : NDArray)
  | traced (id : Nat) (type : ArrayType)
  deriving Inhabited

namespace Cells

def size : Cells → Nat
  | bools xs => xs.length
  | ints xs => xs.length
  | floats xs => xs.length

def elem : Cells → ElemType
  | bools _ => .bool
  | ints _ => .int
  | floats _ => .float

def scalars : Cells → List Scalar
  | bools xs => xs.map .bool
  | ints xs => xs.map .int
  | floats xs => xs.map .float

/-- The same elements, floats compared as numbers. -/
def same : Cells → Cells → Bool
  | bools xs, bools ys => xs == ys
  | ints xs, ints ys => xs == ys
  | floats xs, floats ys => xs == ys
  | _, _ => false

@[simp] theorem length_scalars (c : Cells) : c.scalars.length = c.size := by
  cases c <;> simp [scalars, size]

end Cells

namespace NDArray

def elem (a : NDArray) : ElemType :=
  a.cells.elem

def type (a : NDArray) : ArrayType :=
  ⟨a.elem, a.shape⟩

/-- The number of stored elements. -/
def size (a : NDArray) : Nat :=
  a.cells.size

/-- The length of the leading axis; 0 without axes. -/
def length (a : NDArray) : Nat :=
  a.shape.headD 0

def isZeroDim (a : NDArray) : Bool :=
  a.shape.isEmpty

/-- All elements in row-major order. -/
def scalars (a : NDArray) : List Scalar :=
  a.cells.scalars

def same (a b : NDArray) : Bool :=
  a.shape == b.shape && a.cells.same b.cells

end NDArray

namespace Value

@[match_pattern] abbrev int (n : Int64) : Value :=
  .scalar (.int n)

@[match_pattern] abbrev float (x : Float) : Value :=
  .scalar (.float x)

@[match_pattern] abbrev bool (b : Bool) : Value :=
  .scalar (.bool b)

def typeName : Value → String
  | scalar s => s.typeName
  | none => "NoneType"
  | str _ => "str"
  | list _ => "list"
  | tuple _ => "tuple"
  | dict _ => "dict"
  | range .. => "range"
  | enumerate .. => "enumerate"
  | array _ => "array"
  | traced .. => "tracer"

def isTraced : Value → Bool
  | traced .. => true
  | _ => false

def isScalar : Value → Bool
  | scalar _ => true
  | _ => false

def tracedType? : Value → Option ArrayType
  | traced _ type => some type
  | _ => Option.none

def toInt? : Value → Option Int64
  | scalar s => s.toInt?
  | _ => Option.none

def toFloat? : Value → Option Float
  | scalar s => some s.toFloat
  | _ => Option.none

def toBool? : Value → Option Bool
  | scalar s => s.toBool?
  | _ => Option.none

mutual

/-- Whether a placeholder occurs in the value; of a range only the bounds themselves count. -/
def hasTraced : Value → Bool
  | traced .. => true
  | list items => anyTraced items
  | tuple items => anyTraced items
  | dict entries => anyTracedEntry entries
  | range start stop step => start.isTraced || stop.isTraced || step.isTraced
  | enumerate inner _ => inner.hasTraced
  | _ => false

def anyTraced : List Value → Bool
  | [] => false
  | v :: vs => v.hasTraced || anyTraced vs

def anyTracedEntry : List (Value × Value) → Bool
  | [] => false
  | (k, v) :: rest => k.hasTraced || v.hasTraced || anyTracedEntry rest

end

mutual

/-- Structural equality: no two types mix, and floats compare as numbers. -/
def same : Value → Value → Bool
  | scalar a, scalar b => a.same b
  | none, none => true
  | str a, str b => a == b
  | list xs, list ys => sameList xs ys
  | tuple xs, tuple ys => sameList xs ys
  | dict xs, dict ys => sameEntries xs ys
  | range a b c, range a' b' c' => a.same a' && b.same b' && c.same c'
  | enumerate a m, enumerate b n => a.same b && m == n
  | array a, array b => a.same b
  | traced i s, traced j t => i == j && s == t
  | _, _ => false

def sameList : List Value → List Value → Bool
  | [], [] => true
  | x :: xs, y :: ys => x.same y && sameList xs ys
  | _, _ => false

def sameEntries : List (Value × Value) → List (Value × Value) → Bool
  | [], [] => true
  | (k, v) :: xs, (l, w) :: ys => k.same l && v.same w && sameEntries xs ys
  | _, _ => false

end

/-! ## Memory -/

/-- The most memory, in bytes, that one text or list may take. -/
def maxBytes : Nat := 0x7fffffffffffffff

/-- The memory that one item of a list takes. -/
def itemBytes : Nat := 56

/-- The most items that can be collected one by one. The room for them is doubled each time that
it is full, and twice as many do not fit in the memory. -/
def maxCollected : Nat := 0x200000000000000

end Value

end StagedFlow
