import StagedFlow.Op.Basic
import StagedFlow.Text.Basic

/-!
Why a computation stops. A `Fault` is an error that a program can cause and that its caller can
handle; every cause has a constructor, and its words are in `Fault.message`. A `Halt` is a fault,
a crash that nothing handles (an arithmetic overflow, an access out of range, more memory than there
can be), or the end of the fuel. Main definitions: `Fault`, `Fault.message`, `Halt`, `Outcome`,
`Search`.
-/
set_option autoImplicit false

namespace StagedFlow

/-- Why the type of an operand is refused. A `found` names the type that was met. -/
inductive TypeFault
  | ambiguousTruth
  | indexedScalar
  | notAnInteger (found : String)
  | tracedToFloat (type : ArrayType)
  | floatArgument (found : String)
  | intArgument (found : String)
  | floatLiteral (text : String)
  | intLiteral (text : String)
  | missingKey (key : String)
  | notSubscriptable (found : String)
  | operands (op : BinaryOp) (left right : String)
  | negated (found : String)
  | logicalCount (op : LogicalOp) (found : Nat)
  | logicalOperand (found : String)
  | kronOperands (left right : String)
  | operandCount (op : Op) (found : Nat)
  | arrayIndex (type : ArrayType)
  | branchPredicate (type : ArrayType)
  | loopPredicate (types : List ArrayType)
  | loopBound (type : ArrayType)
  | carriedTypes (primitive : Primitive) (found expected : List ArrayType)
  | zeroStep
  | graphInputs (expected found : Nat)
  | argumentCount (function : String) (expected found : Nat)
  | unpackCount (found expected : Nat)
  | unpackScalar
  | unpackOther (found : String)
  | builtinCount (name : String) (allowed : List Nat) (found : Nat)
  | unsized
  | noLength (found : String)
  | arrayOfTraced
  | notArrayLike (found : String)
  | noItems (found : String)
  | iteratedScalar
  | notIterable (found : String)
  | reported (text : String)
  deriving Repr, DecidableEq

namespace TypeFault

/-- The part of a primitive whose results have to keep the carried types. -/
def carriedPart : Primitive → String
  | .cond => "else-branch"
  | .forLoop => "for_loop body"
  | .whileLoop => "while_loop body"

def message : TypeFault → String
  | ambiguousTruth => "The truth value of an array with more than one element is ambiguous"
  | indexedScalar => "too many indices for a 0-d array"
  | notAnInteger found => s!"'{found}' object cannot be interpreted as an integer"
  | tracedToFloat type =>
    s!"cannot convert traced array with shape {type.text} to a host float"
  | floatArgument found => s!"float() argument must be a number, not '{found}'"
  | intArgument found => s!"int() argument must be a number, not '{found}'"
  | floatLiteral text => s!"could not convert string to float: {Text.quote text}"
  | intLiteral text => s!"invalid literal for int() with base 10: {Text.quote text}"
  | missingKey key => s!"KeyError: {key}"
  | notSubscriptable found => s!"'{found}' object is not subscriptable"
  | operands op left right =>
    s!"unsupported operand type(s) for {op.symbol}: '{left}' and '{right}'"
  | negated found => s!"bad operand type for unary -: '{found}'"
  | logicalCount op found => s!"{op.text} expects {op.arity} operand(s), got {found}"
  | logicalOperand found => s!"logical operation on non-numeric value of type {found}"
  | kronOperands left right => s!"kron expects arrays, got {left} and {right}"
  | operandCount op found => s!"{op.text} called with {found} operand(s)"
  | arrayIndex type => s!"array index must be an integer scalar, got {type.text}"
  | branchPredicate type => s!"cond predicate must be a scalar, got {type.text}"
  | loopPredicate types =>
    s!"while_loop predicate must be a boolean scalar, got {ArrayType.listText types}"
  | loopBound type => s!"for_loop bounds must be integer scalars, got {type.text}"
  | carriedTypes primitive found expected =>
    s!"{carriedPart primitive} output types ({ArrayType.listText found}) do not match the " ++
      s!"expected types ({ArrayType.listText expected})"
  | zeroStep => "range() arg 3 must not be zero"
  | graphInputs expected found => s!"graph expects {expected} input(s), got {found}"
  | argumentCount function expected found =>
    s!"{function}() takes {expected} positional arguments but {found} were given"
  | unpackCount found expected => s!"cannot unpack {found} values into {expected} targets"
  | unpackScalar => "cannot unpack a 0-d traced array"
  | unpackOther found => s!"cannot unpack non-iterable {found} object"
  | builtinCount name allowed found =>
    let counts := String.intercalate " or " (allowed.map toString)
    s!"{name}() takes {counts} argument(s), got {found}"
  | unsized => "len() of unsized object"
  | noLength found => s!"object of type '{found}' has no len()"
  | arrayOfTraced => "array() of a sequence containing traced values is not supported"
  | notArrayLike found => s!"cannot convert a {found} to an array"
  | noItems found => s!"'{found}' object has no attribute 'items'"
  | iteratedScalar => "iteration over a 0-d array"
  | notIterable found => s!"'{found}' object is not iterable"
  | reported text => text

end TypeFault

/-- Why shapes do not fit together. -/
inductive ShapeFault
  | reshape (count : Nat) (shape : List Nat)
  | broadcast (left right : List Nat)
  | kronShapes (left right : List Nat)
  | kronTypes (left right : ArrayType)
  | carriedShapes (primitive : Primitive) (before after : List ArrayType)
  | reported (text : String)
  deriving Repr, DecidableEq

def ShapeFault.message : ShapeFault → String
  | reshape count shape => s!"cannot reshape {count} elements into shape {Text.lengths shape}"
  | broadcast left right =>
    "operands could not be broadcast together with shapes " ++
      s!"{Text.lengths left} {Text.lengths right}"
  | kronShapes left right =>
    "kron is only supported for operands of equal rank 1 or 2, got " ++
      s!"{Text.lengths left} and {Text.lengths right}"
  | kronTypes left right =>
    "kron is only supported for operands of equal rank 1 or 2, got " ++
      s!"{left.text} and {right.text}"
  | carriedShapes primitive before after =>
    s!"{primitive.text} changes the shapes of its carried values from " ++
      s!"({ArrayType.listText before}) to ({ArrayType.listText after})"
  | reported text => text

/-- Why a graph, or the way it is driven, breaks the rules of its nodes. -/
inductive GraphFault
  | undefinedValue (id : Nat)
  | usedBeforeDefinition (id : Nat)
  | regionTypes (node : String) (id : Nat) (part : String) (found expected : List ArrayType)
  | branchWithoutPredicate
  | loopWithoutBounds
  | predicateYieldsNothing
  | nodeNotInRegion (id : Nat)
  | notLoopSource (found : String)
  | attemptedTwice (block : Nat)
  | reported (text : String)
  deriving Repr, DecidableEq

def GraphFault.message : GraphFault → String
  | undefinedValue id => s!"undefined value %{id}"
  | usedBeforeDefinition id => s!"value %{id} used before definition"
  | regionTypes node id part found expected =>
    s!"{node} #{id} {part} produces ({ArrayType.listText found}) but " ++
      s!"({ArrayType.listText expected}) is required"
  | branchWithoutPredicate => "cond without predicate"
  | loopWithoutBounds => "for_loop without bounds"
  | predicateYieldsNothing => "while_loop predicate yields nothing"
  | nodeNotInRegion id => s!"node #{id} is not in the current region"
  | notLoopSource found => s!"a {found} cannot be iterated by the loop primitive"
  | attemptedTwice block => s!"block {block} was already attempted"
  | reported text => text

/-- Misuse of the tracing session, of which there is at most one at a time. -/
inductive SessionFault
  | reentry
  | notTracing (message : String)
  deriving Repr, DecidableEq

def SessionFault.message : SessionFault → String
  | reentry => "Cannot nest tracing contexts."
  | notTracing message => message

/-- The name of the kind of an error. -/
def SessionFault.kind : SessionFault → String
  | reentry => "Session.Reentry"
  | notTracing _ => "Session.NotTracing"

/-- An error of the value model, the tracer or the graph evaluator. -/
inductive Fault
  | type (cause : TypeFault)
  | shape (cause : ShapeFault)
  | unrepresentable (found : String)
  | boolConversion (type : ArrayType)
  | integerConversion (type : ArrayType)
  | bounds (index : Int64) (length : Nat)
  | divisionByZero
  | malformed (cause : GraphFault)
  | session (cause : SessionFault)
  deriving DecidableEq

/-- The name of the kind of an error. -/
def Fault.kind : Fault → String
  | type _ => "TypeError"
  | shape _ => "ShapeError"
  | unrepresentable _ => "Unrepresentable"
  | boolConversion _ => "TracerBoolConversion"
  | integerConversion _ => "TracerIntegerConversion"
  | bounds _ _ => "BoundsError"
  | divisionByZero => "DivisionByZero"
  | malformed _ => "MalformedGraph"
  | session cause => cause.kind

def Fault.message : Fault → String
  | type cause => "TypeError: " ++ cause.message
  | shape cause => "ShapeError: " ++ cause.message
  | unrepresentable found => s!"TypeError: value of type {found} is not a valid traced type"
  | boolConversion t =>
    "TracerBoolConversionError: Attempted boolean conversion of traced array with shape " ++ t.text
  | integerConversion t =>
    "TracerIntegerConversionError: The __index__() method was called on traced array with " ++
      s!"shape {t.text}"
  | bounds index length =>
    s!"IndexError: index {index.toInt} is out of bounds for axis 0 with size {length}"
  | divisionByZero => "ZeroDivisionError: integer division or modulo by zero"
  | malformed cause => "MalformedGraph: " ++ cause.message
  | session cause => cause.message

/-- What no caller handles. -/
inductive Crash
  | overflow
  | outOfRange
  | capacity
  deriving Repr, DecidableEq

/-- Why a computation ends without a value. -/
inductive Halt (ε : Type)
  | error (e : ε)
  | crash (reason : Crash)
  | outOfFuel
  deriving Repr, DecidableEq

/-- The same halt with its error in another type. -/
def Halt.map {ε δ : Type} (f : ε → δ) : Halt ε → Halt δ
  | error e => error (f e)
  | crash reason => crash reason
  | outOfFuel => outOfFuel

abbrev Outcome (α : Type) := Except (Halt Fault) α

namespace Outcome

def fault {α : Type} (f : Fault) : Outcome α :=
  .error (.error f)

def typeFault {α : Type} (cause : TypeFault) : Outcome α :=
  fault (.type cause)

def shapeFault {α : Type} (cause : ShapeFault) : Outcome α :=
  fault (.shape cause)

def crash {α : Type} (reason : Crash) : Outcome α :=
  .error (.crash reason)

/-- A result that can only fail with a fault, as an outcome. -/
def ofFault {α : Type} : Except Fault α → Outcome α
  | .ok a => .ok a
  | .error f => fault f

end Outcome

/-- The largest number of a machine word. -/
def wordMax : Nat := 0xffffffffffffffff

/-- A length that has to fit in a machine word. -/
def checkedSize (n : Nat) : Outcome Nat :=
  if n ≤ wordMax then .ok n else .crash .overflow

/-- A result that may be missing, unless the search for it crashes. -/
abbrev Search (α : Type) := Except (Halt Unit) α

namespace Search

variable {α : Type}

def missing : Search α :=
  .error (.error ())

def ofOption : Option α → Search α
  | some a => .ok a
  | none => missing

/-- An outcome in which a fault only says that there is no result. -/
def ofOutcome (x : Outcome α) : Search α :=
  x.mapError (Halt.map fun _ => ())

/-- A result that may be missing, as an outcome of its own. -/
def optional : Search α → Outcome (Option α)
  | .ok a => .ok (some a)
  | .error (.error _) => .ok none
  | .error (.crash reason) => .crash reason
  | .error .outOfFuel => .error .outOfFuel

/-- The crash in which a search ended. -/
def crash? : Search α → Option Crash
  | .error (.crash reason) => some reason
  | _ => none

@[simp] theorem ofOutcome_ok (a : α) : ofOutcome (.ok a) = .ok a := rfl

@[simp] theorem optional_ok (a : α) : optional (.ok a) = .ok (some a) := rfl

@[simp] theorem optional_missing : optional (missing : Search α) = .ok none := rfl

theorem ofOutcome_eq_ok {x : Outcome α} {a : α} (h : ofOutcome x = .ok a) : x = .ok a := by
  cases x with
  | ok b => exact congrArg Except.ok (Except.ok.inj h)
  | error e => cases h

theorem ofOption_eq_ok {x : Option α} {a : α} (h : ofOption x = .ok a) : x = some a := by
  cases x with
  | some b => exact congrArg some (Except.ok.inj h)
  | none => cases h

theorem eq_ok_of_toOption {x : Search α} {a : α} (h : x.toOption = some a) : x = .ok a := by
  cases x with
  | ok b => exact congrArg Except.ok (Option.some.inj h)
  | error e => cases h

/-- A search that does not crash finds a result or none. -/
theorem optional_eq_ok {x : Search α} {r : Option α} (h : x.optional = .ok r) :
    (∃ a, x = .ok a ∧ r = some a) ∨ x = missing ∧ r = none := by
  cases x with
  | ok a => exact Or.inl ⟨a, rfl, (Except.ok.inj h).symm⟩
  | error e =>
    cases e with
    | error _ => exact Or.inr ⟨rfl, (Except.ok.inj h).symm⟩
    | crash _ => cases h
    | outOfFuel => cases h

end Search

end StagedFlow
