import StagedFlow.Value.ElemType

/-!
The operations that a program applies to values and that a graph records, and the three
control-flow primitives. Main definitions: `BinaryOp`, `LogicalOp`, `Op`, `Primitive`.
-/
set_option autoImplicit false

namespace StagedFlow

inductive BinaryOp
  | add
  | sub
  | mul
  | div
  | floorDiv
  | mod
  | pow
  | lt
  | gt
  | le
  | ge
  | eq
  | ne
  deriving Repr, DecidableEq, Inhabited

namespace BinaryOp

def symbol : BinaryOp → String
  | add => "+"
  | sub => "-"
  | mul => "*"
  | div => "/"
  | floorDiv => "//"
  | mod => "%"
  | pow => "**"
  | lt => "<"
  | gt => ">"
  | le => "<="
  | ge => ">="
  | eq => "=="
  | ne => "!="

def isComparison : BinaryOp → Bool
  | lt | gt | le | ge | eq | ne => true
  | _ => false

end BinaryOp

/-- Element-wise logic on numbers, which count as true unless they are zero. -/
inductive LogicalOp
  | and
  | or
  | not
  deriving Repr, DecidableEq, Inhabited

namespace LogicalOp

def text : LogicalOp → String
  | and => "logical_and"
  | or => "logical_or"
  | not => "logical_not"

def arity : LogicalOp → Nat
  | not => 1
  | _ => 2

end LogicalOp

/-- A data-flow operation. `index` takes an array and a position on its leading axis. -/
inductive Op
  | binary (op : BinaryOp)
  | neg
  | logical (op : LogicalOp)
  | index
  | kron
  | convert (elem : ElemType)
  deriving Repr, DecidableEq, Inhabited

def Op.text : Op → String
  | binary op => op.symbol
  | neg => "neg"
  | logical op => op.text
  | index => "index"
  | kron => "kron"
  | convert elem => "convert<" ++ elem.text ++ ">"

/-- The control-flow primitives of a graph. -/
inductive Primitive
  | cond
  | forLoop
  | whileLoop
  deriving Repr, DecidableEq, Inhabited

def Primitive.text : Primitive → String
  | cond => "cond"
  | forLoop => "for_loop"
  | whileLoop => "while_loop"

end StagedFlow
