import StagedFlow.Program.Syntax

/-!
What is known of the type of a value before the program runs. Main definitions: `TypeClass`,
`TypeClass.ofValue`, `TypeClass.compatible`, `TypeClass.join`.
-/
set_option autoImplicit false

namespace StagedFlow

/-- The class of a value: a scalar, an array whose element type may be open, a host object by the
name of its type, or nothing known. -/
inductive TypeClass
  | scalar (elem : ElemType)
  | array (elem : Option ElemType)
  | host (typeName : String)
  | unknown
  deriving Repr, DecidableEq, Inhabited

namespace TypeClass

def text : TypeClass → String
  | scalar .bool => "bool"
  | scalar .int => "int"
  | scalar .float => "float"
  | array (some elem) => s!"array[{elem.text}]"
  | array none => "array"
  | host typeName => typeName
  | unknown => "unknown"

/-- The class of a value of an array type. -/
def ofArrayType (t : ArrayType) : TypeClass :=
  if t.isScalar then scalar t.elem else array (some t.elem)

def ofValue : Value → TypeClass
  | .scalar s => scalar s.elem
  | .array a => array (some a.elem)
  | .traced _ type => ofArrayType type
  | v => host v.typeName

/-- The class that the declaration of a parameter promises. -/
def ofParam (p : Param) : TypeClass :=
  match p.annotation with
  | some .int => scalar .int
  | some .float => scalar .float
  | some .bool => scalar .bool
  | some .array => array none
  | some .str => host "str"
  | none => unknown

/-- Whether the graph has a form for such values. -/
def isRepresentable : TypeClass → Bool
  | host _ => false
  | _ => true

def isKnown : TypeClass → Bool
  | unknown => false
  | _ => true

def isArray : TypeClass → Bool
  | array _ => true
  | _ => false

/-- The element type of scalars and arrays, if it is known. -/
def elem? : TypeClass → Option ElemType
  | scalar elem => some elem
  | array elem => elem
  | _ => none

/-- Whether a value of the second class may take the place of one of the first. -/
def compatible : TypeClass → TypeClass → Bool
  | unknown, _ => true
  | _, unknown => true
  | scalar a, scalar b => a == b
  | array a, array b => a.isNone || b.isNone || a == b
  | host a, host b => a == b
  | _, _ => false

/-- A class that covers both. -/
def join (a b : TypeClass) : TypeClass :=
  if a = b then a
  else
    match a, b with
    | array x, array y => if compatible a b then array (x.or y) else unknown
    | _, _ => unknown

end TypeClass

end StagedFlow
