import StagedFlow.Fault

/-!
Operations on types: the type of a result from the types of the operands, without their values.
Main definition: `Op.resultType`.
-/
set_option autoImplicit false

namespace StagedFlow

namespace ArrayType

/-- The shape of an element-wise result; a scalar goes with any shape. -/
def broadcast (a b : List Nat) : Outcome (List Nat) :=
  if a = b ∨ b = [] then .ok a
  else if a = [] then .ok b
  else .shapeFault (.broadcast a b)

/-- The element type of a binary result. -/
def binaryElem (op : BinaryOp) (a b : ElemType) : ElemType :=
  if op.isComparison then .bool
  else if op = .div then .float
  else if op = .pow ∧ a ≠ .float ∧ b ≠ .float then .int
  else a.promote b

end ArrayType

/-- The type of the result of an operation. -/
def Op.resultType (op : Op) (args : List ArrayType) : Outcome ArrayType :=
  match op, args with
  | binary b, [lhs, rhs] => do
    let shape ← ArrayType.broadcast lhs.shape rhs.shape
    return ⟨ArrayType.binaryElem b lhs.elem rhs.elem, shape⟩
  | neg, [x] => .ok ⟨x.elem.promote x.elem, x.shape⟩
  | logical .not, [x] => .ok ⟨.bool, x.shape⟩
  | logical _, [lhs, rhs] => do
    return ⟨.bool, ← ArrayType.broadcast lhs.shape rhs.shape⟩
  | index, [base, i] =>
    match base.shape with
    | [] => .typeFault .indexedScalar
    | _ :: inner =>
      if !i.isScalar || i.elem = .float then .typeFault (.arrayIndex i)
      else .ok ⟨base.elem, inner⟩
  | kron, [a, b] =>
    if a.shape.length ≠ b.shape.length ∨ a.shape = [] ∨ 2 < a.shape.length then
      .shapeFault (.kronTypes a b)
    else return ⟨a.elem.promote b.elem, ← (List.zipWith (· * ·) a.shape b.shape).mapM checkedSize⟩
  | convert elem, [x] => .ok ⟨elem, x.shape⟩
  | op, args => .typeFault (.operandCount op args.length)

end StagedFlow
