import StagedFlow.Text.Basic

/-!
Element types of scalars and arrays, and array types: what is known of a value before the program
runs. Main definitions: `ElemType`, `ElemType.promote`, `ArrayType`.
-/
set_option autoImplicit false

namespace StagedFlow

/-- The element types, from the narrowest to the widest. -/
inductive ElemType
  | bool
  | int
  | float
  deriving Repr, DecidableEq, Inhabited

namespace ElemType

def text : ElemType → String
  | bool => "bool"
  | int => "int64"
  | float => "float64"

/-- The wider of two element types. -/
def widest : ElemType → ElemType → ElemType
  | float, _ => float
  | _, float => float
  | int, _ => int
  | _, int => int
  | bool, bool => bool

/-- The element type of an arithmetic result: the wider one, where two booleans make an integer. -/
def promote (a b : ElemType) : ElemType :=
  match widest a b with
  | bool => int
  | t => t

end ElemType

/-- Element type and shape of a scalar (no axes) or an array. -/
structure ArrayType where
  elem : ElemType
  shape : List Nat
  deriving Repr, DecidableEq, Inhabited

namespace ArrayType

def scalar (elem : ElemType) : ArrayType :=
  ⟨elem, []⟩

def isScalar (t : ArrayType) : Bool :=
  t.shape.isEmpty

/-- Length of the leading axis, if there is one. -/
def leading? (t : ArrayType) : Option Nat :=
  t.shape.head?

/-- The text of a type, such as `int64[2,3]`. -/
def text (t : ArrayType) : String :=
  t.elem.text ++ "[" ++ String.intercalate "," (t.shape.map toString) ++ "]"

/-- Several types, as in `int64[], bool[3]`. -/
def listText (ts : List ArrayType) : String :=
  Text.commaList (ts.map text)

end ArrayType

end StagedFlow
