import StagedFlow.Program.Constant
import StagedFlow.Program.Json
import StagedFlow.TypeClass.Basic
import StagedFlow.Value.Convert

/-!
What a counted loop runs over, and whether the graph has a loop for it. Main definitions: `Domain`,
`Domain.ofValue`, `Domain.ofExpr?`.
-/
set_option autoImplicit false

namespace StagedFlow

/-- The kinds of what a loop can run over: a range with known bounds, a range with bounds that are
only known when the graph runs, elements that make up an array, elements that do not, and
everything else. -/
inductive DomainKind
  | fixedRange
  | tracedRange
  | uniform
  | mixed
  | foreign
  deriving Repr, DecidableEq

namespace DomainKind

def isConvertible : DomainKind → Bool
  | fixedRange => true
  | uniform => true
  | _ => false

def text : DomainKind → String
  | fixedRange => "static range"
  | tracedRange => "dynamic range"
  | uniform => "homogeneous sequence"
  | mixed => "heterogeneous sequence"
  | foreign => "opaque iterable"

def tag : DomainKind → String
  | fixedRange => "StaticRange"
  | tracedRange => "DynamicRange"
  | uniform => "HomogeneousSequence"
  | mixed => "HeterogeneousSequence"
  | foreign => "OpaqueIterable"

end DomainKind

/-- What a loop runs over. `element` is the class of the elements without their numbers,
`firstNumber` the number of the first element if they are numbered, `arity` the number of parts
that the loop target takes, and `source` the name of the type. -/
structure Domain where
  kind : DomainKind
  element : TypeClass
  firstNumber : Option Int64
  arity : Nat
  length : Option Nat
  source : String
  deriving Repr, DecidableEq

namespace Domain

/-- A domain without numbers, for a single loop variable. -/
def plain (kind : DomainKind) (element : TypeClass) (length : Option Nat) (source : String) :
    Domain :=
  ⟨kind, element, none, 1, length, source⟩

def foreign (source : String) : Domain :=
  plain .foreign .unknown none source

/-- The class of the elements of an array. -/
def elementClass (t : ArrayType) : TypeClass :=
  if t.shape.length ≤ 1 then .scalar t.elem else .array (some t.elem)

/-- Why a domain has no loop in the graph. -/
def reason (d : Domain) : String :=
  match d.kind with
  | .fixedRange => s!"a {d.kind.text} converts to a loop primitive"
  | .uniform => s!"a {d.kind.text} converts to a loop primitive"
  | .tracedRange => "the range bounds are only known at run time"
  | .mixed => s!"the {d.source} elements are not uniformly representable as array elements"
  | .foreign => s!"a {d.source} object has no fixed-length array form"

def toJson (d : Domain) : Json :=
  .obj
    [("kind", .str d.kind.tag), ("element", .str d.element.text),
      ("enumerate_offset", .ofOption (fun n : Int64 => .int n.toInt) d.firstNumber),
      ("unpack_arity", .ofNat d.arity), ("length", .ofOption .ofNat d.length),
      ("source", .str d.source)]

/-! ## Classification -/

def ofRange (range : Value) (traced : Bool) : Domain :=
  match range.counting? with
  | some c =>
    if c.step = 0 then foreign "range" else plain .fixedRange (.scalar .int) c.length "range"
  | none => if traced then plain .tracedRange (.scalar .int) none "range" else foreign "range"

def ofItems (v : Value) (count : Nat) : Outcome Domain := do
  match ← v.toArray?.optional with
  | some a => return plain .uniform (elementClass a.type) count v.typeName
  | none => return plain .mixed .unknown count v.typeName

/-- The domain of a value. -/
def ofValue : Value → Outcome Domain
  | .enumerate inner start => do
    let inner ← ofValue inner
    return { inner with firstNumber := some start }
  | .range start stop step =>
    .ok (ofRange (.range start stop step) (start.isTraced || stop.isTraced || step.isTraced))
  | .array a =>
    .ok (if a.isZeroDim then foreign (Value.array a).typeName
      else plain .uniform (elementClass a.type) a.length "array")
  | .traced id type =>
    .ok (if type.isScalar then foreign (Value.traced id type).typeName
      else plain .uniform (elementClass type) type.leading? "array")
  | .list items => ofItems (.list items) items.length
  | .tuple items => ofItems (.tuple items) items.length
  | v => .ok (foreign v.typeName)

/-- The domain for a loop target. -/
def forTarget (d : Domain) (target : Target) : Domain :=
  { d with arity := target.arity }

/-- The domain of a loop over a value. -/
def classify (v : Value) (target : Target) : Outcome Domain :=
  (ofValue v).map (·.forTarget target)

theorem classify_eq_ok {v : Value} {target : Target} {d : Domain} (h : classify v target = .ok d) :
    ∃ d', ofValue v = .ok d' ∧ d = d'.forTarget target := by
  unfold classify at h
  cases hv : ofValue v with
  | error e =>
    rw [hv] at h
    cases h
  | ok d' =>
    rw [hv] at h
    exact ⟨d', rfl, (Except.ok.inj h).symm⟩

end Domain

/-- Expressions that names stand for. -/
abbrev Constants := Bindings String Expr

/-- The number of numberings around an expression. -/
def Expr.numberings : Expr → Nat
  | .call .enumerate (e :: _) => e.numberings + 1
  | _ => 0

namespace Constants

/-- The expression that a name stands for. -/
def resolve (consts : Constants) : Expr → Expr
  | .var name => (Bindings.find? consts name).getD (.var name)
  | e => e

/-- All numberings in the expressions that names stand for, and one step for each of them. -/
def depth (consts : Constants) : Nat :=
  consts.foldr (fun c n => c.2.numberings + 1 + n) 0

end Constants

namespace Domain

/-- The domain of a loop source before the program runs, through at most `n` numberings. -/
def read? (consts : Constants) : Nat → Expr → Search Domain
  | 0, _ => .missing
  | n + 1, e =>
    match consts.resolve e with
    | .call .enumerate args => do
      let inner ← read? consts n (← .ofOption args.head?)
      let start ← match args[1]? with
        | some e => .ofOption (← e.constantValue?).toInt?
        | none => .ok 0
      return { inner with firstNumber := some start }
    | .call .items _ => .ok (foreign "dict_items")
    | .literal (.str _) => .ok (foreign "str")
    | .dict _ => .ok (foreign "dict")
    | e => do .ofOutcome (ofValue (← e.constantValue?))

/-- The domain of a loop source where it does not depend on the run of the program. -/
def ofExpr? (consts : Constants) (source : Expr) (target : Target) : Search Domain :=
  (read? consts (source.numberings + 1 + consts.depth) source).map (·.forTarget target)

end Domain

end StagedFlow
