import StagedFlow.Text.Decimal
import StagedFlow.Value.ElemType

/-!
Scalars: booleans, 64-bit integers and floats. A boolean counts as the integer 0 or 1.
-/
set_option autoImplicit false

namespace StagedFlow

inductive Scalar
  | bool (b : Bool)
  | int (n : Int64)
  | float (x : Float)
  deriving Inhabited

namespace Scalar

def elem : Scalar → ElemType
  | bool _ => .bool
  | int _ => .int
  | float _ => .float

def typeName : Scalar → String
  | bool _ => "bool"
  | int _ => "int"
  | float _ => "float"

def bit (b : Bool) : Int64 :=
  if b then 1 else 0

def toBool? : Scalar → Option Bool
  | bool b => some b
  | _ => none

def toInt? : Scalar → Option Int64
  | bool b => some (bit b)
  | int n => some n
  | float _ => none

/-- The nearest float; an integer beyond 53 bits is rounded to even. -/
def toFloat : Scalar → Float
  | bool b => Float.ofInt (bit b).toInt
  | int n => Float.ofInt n.toInt
  | float x => x

/-- A number is true unless it is zero. -/
def truthy : Scalar → Bool
  | bool b => b
  | int n => n != 0
  | float x => x != 0

/-- Equality of scalars of one element type; floats compare as numbers. -/
def same : Scalar → Scalar → Bool
  | bool a, bool b => a == b
  | int a, int b => a == b
  | float a, float b => a == b
  | _, _ => false

def text : Scalar → String
  | bool true => "True"
  | bool false => "False"
  | int n => toString n.toInt
  | float x => Text.floatText x

end Scalar

end StagedFlow
