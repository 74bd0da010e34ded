import StagedFlow.NDArray.Kron
import StagedFlow.Value.Convert

/-!
Operations on host values. Main definitions: `binary`, `negate`, `logical` and `Op.apply`, which
carries out any operation of a graph.
-/
set_option autoImplicit false

namespace StagedFlow

namespace Value

/-- How often something is repeated; not at all for a negative count. -/
def repeatCount (n : Int64) : Nat :=
  n.toInt.toNat

def repeatText (s : String) (n : Int64) : Outcome Value :=
  if s.isEmpty then .ok (str "")
  else if maxBytes < s.utf8ByteSize * repeatCount n then .crash .capacity
  else .ok (str (Text.copies (repeatCount n) s))

def repeatList (items : List Value) (n : Int64) : Outcome Value :=
  if items.isEmpty then .ok (list [])
  else if maxBytes < items.length * repeatCount n * itemBytes then .crash .capacity
  else .ok (list (List.replicate (repeatCount n) items).flatten)

def repeated (v : Value) (n : Int64) : Option (Outcome Value) :=
  match v with
  | str s => some (repeatText s n)
  | list items => some (repeatList items n)
  | _ => Option.none

/-- A product in which one factor is a text or a list and the other a number. A text is tried
before a list, and the left factor before the right one. -/
def objectProduct (a b : Value) : Option (Outcome Value) :=
  match a.toInt?, b.toInt? with
  | _, some n => a.repeated n
  | some n, _ => b.repeated n
  | _, _ => Option.none

def compareText (op : BinaryOp) (a b : String) : Option Bool :=
  match op with
  | .lt => some (a < b)
  | .gt => some (b < a)
  | .le => some (a ≤ b)
  | .ge => some (b ≤ a)
  | _ => Option.none

/-- A binary operation on host objects: equality of anything, sums of texts, lists and tuples,
repetition, and the order of texts by code points. -/
def objectBinary (op : BinaryOp) (a b : Value) : Outcome Value :=
  let refused : Outcome Value := .typeFault (.operands op a.typeName b.typeName)
  match op, a, b with
  | .eq, a, b => .ok (bool (a.same b))
  | .ne, a, b => .ok (bool (!a.same b))
  | .add, str a, str b => .ok (str (a ++ b))
  | .add, list a, list b => .ok (list (a ++ b))
  | .add, tuple a, tuple b => .ok (tuple (a ++ b))
  | .mul, a, b => (objectProduct a b).getD refused
  | op, str a, str b =>
    match compareText op a b with
    | some r => .ok (bool r)
    | Option.none => refused
  | _, _, _ => refused

/-- A binary operation. Arrays work element by element, with each other or with a scalar. -/
def binary (op : BinaryOp) (a b : Value) : Outcome Value :=
  match a, b with
  | array a, array b => do
    let (a, b) ← a.broadcastPair b
    return array (← a.zipWithM b (Scalar.binary op))
  | array a, scalar s => return array (← a.mapM fun x => Scalar.binary op x s)
  | scalar s, array b => return array (← b.mapM fun y => Scalar.binary op s y)
  | scalar s, scalar t => return scalar (← Scalar.binary op s t)
  | a, b => objectBinary op a b

/-- The unary minus. -/
def negate : Value → Outcome Value
  | scalar s => return scalar (← s.negate)
  | array a => return array (← a.mapM Scalar.negate)
  | v => .typeFault (.negated v.typeName)

/-- The number that a value is in a logical operation. -/
def logicalOperand : Value → Outcome Scalar
  | scalar s => .ok s
  | v => .typeFault (.logicalOperand v.typeName)

/-- Element-wise logic on numbers and arrays. -/
def logical (op : LogicalOp) (args : List Value) : Outcome Value :=
  match op, args with
  | .not, [array a] => return array (← a.mapM fun x => .ok (.bool (!x.truthy)))
  | .not, [x] => return bool (!(← logicalOperand x).truthy)
  | .not, args => .typeFault (.logicalCount .not args.length)
  | op, [array a, array b] => do
    let (a, b) ← a.broadcastPair b
    return array (← a.zipWithM b fun x y => .ok (Scalar.logical op x y))
  | op, [array a, s] => do
    return array (← a.mapM fun x => return Scalar.logical op x (← logicalOperand s))
  | op, [s, array b] => do
    return array (← b.mapM fun y => return Scalar.logical op (← logicalOperand s) y)
  | op, [a, b] => do
    let a ← logicalOperand a
    let b ← logicalOperand b
    return scalar (Scalar.logical op a b)
  | op, args => .typeFault (.logicalCount op args.length)

end Value

/-- Carry out an operation on host values. -/
def Op.apply (op : Op) (args : List Value) : Outcome Value :=
  match op, args with
  | binary b, [lhs, rhs] => Value.binary b lhs rhs
  | neg, [x] => x.negate
  | logical l, args => Value.logical l args
  | index, [base, i] => base.index i
  | kron, [.array a, .array b] => return .array (← a.kron b)
  | kron, [a, b] => .typeFault (.kronOperands a.typeName b.typeName)
  | convert elem, [x] => x.convert elem
  | op, args => .typeFault (.operandCount op args.length)

end StagedFlow
