import StagedFlow.NDArray.Basic
import StagedFlow.Op.Arithmetic

/-!
The Kronecker product of two vectors or two matrices.
-/
set_option autoImplicit false

namespace StagedFlow.NDArray

/-- The scalar at a row-major position of a list of them. -/
def scalarAt (xs : List Scalar) (i : Nat) : Outcome Scalar :=
  match xs[i]? with
  | some s => .ok s
  | none => .crash .outOfRange

/-- Every product of an element on the left with one on the right, the left one slower. -/
def kronVector (xs ys : List Scalar) : Outcome (List Scalar) :=
  (xs.flatMap fun x => ys.map fun y => (x, y)).mapM fun p => Scalar.binary .mul p.1 p.2

/-- The element in row `i`, column `j` of the product of two matrices; `c₁` is the number of
columns on the left, `r₂` and `c₂` are the sizes on the right. -/
def kronEntry (xs ys : List Scalar) (c₁ r₂ c₂ i j : Nat) : Outcome Scalar := do
  let x ← scalarAt xs (i / r₂ * c₁ + j / c₂)
  let y ← scalarAt ys (i % r₂ * c₂ + j % c₂)
  Scalar.binary .mul x y

/-- The product of two vectors or two matrices. The lengths of its axes are machine words, which a
product without elements can exceed; that there is room for the elements is taken for granted. -/
def kron (a b : NDArray) : Outcome NDArray :=
  match a.shape, b.shape with
  | [n], [m] => do
    let count ← checkedSize (n * m)
    ofScalars [count] (← kronVector a.scalars b.scalars)
  | [r₁, c₁], [r₂, c₂] => do
    let rows ← checkedSize (r₁ * r₂)
    let cols ← checkedSize (c₁ * c₂)
    let places := (List.range rows).flatMap fun i => (List.range cols).map fun j => (i, j)
    let scalars ← places.mapM fun p => kronEntry a.scalars b.scalars c₁ r₂ c₂ p.1 p.2
    ofScalars [rows, cols] scalars
  | left, right => .shapeFault (.kronShapes left right)

end StagedFlow.NDArray
