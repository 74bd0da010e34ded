import StagedFlow.Bindings
import StagedFlow.TypeClass.Basic

/-!
The classes of expressions. Main definitions: `TypeEnv`, `TypeClass.binary`, `Expr.typeClass`.
-/
set_option autoImplicit false

namespace StagedFlow

/-- The classes of the variables that have been seen. -/
abbrev TypeEnv := Bindings String TypeClass

/-- The class of a variable; nothing is known of one that was not seen. -/
def TypeEnv.classOf (env : TypeEnv) (name : String) : TypeClass :=
  (Bindings.find? env name).getD .unknown

namespace TypeClass

/-- The class of a result with one of two host objects, the left one first. -/
def hostName? : TypeClass → TypeClass → Option String
  | host name, _ => some name
  | _, host name => some name
  | _, _ => none

/-- The element type of the result of an operation on scalars and arrays. -/
def binaryElem? (op : BinaryOp) (a b : TypeClass) : Option ElemType :=
  if op.isComparison then some .bool
  else if op = .div then some .float
  else
    match a.elem?, b.elem? with
    | some x, some y => some (x.promote y)
    | _, _ => none

/-- The class of the result of an operation. -/
def binary (op : BinaryOp) (a b : TypeClass) : TypeClass :=
  match hostName? a b with
  | some name => if op.isComparison then scalar .bool else host name
  | none =>
    let withArray := a.isArray || b.isArray
    if a.isKnown && b.isKnown then
      if withArray then array (binaryElem? op a b)
      else
        match binaryElem? op a b with
        | some elem => scalar elem
        | none => unknown
    else if op.isComparison && !withArray then scalar .bool
    else unknown

def negate : TypeClass → TypeClass
  | scalar .bool => scalar .int
  | array (some .bool) => array (some .int)
  | scalar elem => scalar elem
  | array elem => array elem
  | _ => unknown

def invert : TypeClass → TypeClass
  | array _ => array (some .bool)
  | unknown => unknown
  | _ => scalar .bool

/-- The class of a Kronecker product. -/
def kron : List TypeClass → TypeClass
  | [a, b] =>
    match a.elem?, b.elem? with
    | some x, some y => array (some (x.promote y))
    | _, _ => array none
  | _ => array none

end TypeClass

def Literal.typeClass : Literal → TypeClass
  | int _ => .scalar .int
  | float _ => .scalar .float
  | bool _ => .scalar .bool
  | str _ => .host "str"
  | none => .host "NoneType"

namespace Expr

mutual

/-- The class of an expression. -/
def typeClass (env : TypeEnv) : Expr → TypeClass
  | literal l => l.typeClass
  | var name => env.classOf name
  | binary op left right => .binary op (left.typeClass env) (right.typeClass env)
  | neg operand => (operand.typeClass env).negate
  | and left right =>
    if left.typeClass env = right.typeClass env then left.typeClass env else .unknown
  | or left right =>
    if left.typeClass env = right.typeClass env then left.typeClass env else .unknown
  | not operand => (operand.typeClass env).invert
  | list _ => .host "list"
  | tuple _ => .host "tuple"
  | dict _ => .host "dict"
  | index _ _ => .unknown
  | call .len _ => .scalar .int
  | call .int _ => .scalar .int
  | call .float _ => .scalar .float
  | call .array _ => .array none
  | call .kron args => .kron (typeClasses env args)
  | call .range _ => .host "range"
  | call .enumerate _ => .host "enumerate"
  | call .items _ => .host "list"

def typeClasses (env : TypeEnv) : List Expr → List TypeClass
  | [] => []
  | e :: rest => e.typeClass env :: typeClasses env rest

end

end Expr

end StagedFlow
