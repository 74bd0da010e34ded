import StagedFlow.Tracer.Basic

/-!
The control-flow primitives of a tracer. Each traces its regions by running callbacks on
placeholders, checks what they yield, and records one node. A primitive can fail before its node is
recorded, and then leaves the regions around it as they were, or after it, and then the caller has
to take the node back. Main definitions: `Failure`, `Tracer.inRegion`, `Tracer.cond`,
`Tracer.forLoop`, `Tracer.whileLoop`.

The state of a callback is the tracer and whatever its caller keeps beside it.
-/
set_option autoImplicit false

namespace StagedFlow

/-- Whether a primitive failed before or after its node was recorded. -/
inductive Stage
  | preBind
  | postBind (node : Nat)
  deriving Repr, DecidableEq

def Stage.text : Stage → String
  | preBind => "before binding"
  | postBind node => s!"after binding node #{node}"

/-- What made a primitive fail: a callback, or the primitive's own checks. -/
inductive Cause (ε : Type)
  | body (e : ε)
  | fault (f : Fault)

structure Failure (ε : Type) where
  primitive : Primitive
  stage : Stage
  cause : Cause ε

namespace Failure

variable {ε : Type}

def before (primitive : Primitive) (f : Fault) : Failure ε :=
  ⟨primitive, .preBind, .fault f⟩

def after (primitive : Primitive) (node : Nat) (f : Fault) : Failure ε :=
  ⟨primitive, .postBind node, .fault f⟩

/-- The text of a failure, from the text of an error in a callback. -/
def message (bodyText : ε → String) (failure : Failure ε) : String :=
  let cause := match failure.cause with
    | .body e => bodyText e
    | .fault f => f.message
  s!"{failure.primitive.text} failed {failure.stage.text}: {cause}"

end Failure

namespace Tracer

variable {ρ ε : Type}

/-- A step of a callback, or of what calls it. -/
abbrev Traced (ρ ε α : Type) := Step (Tracer × ρ) ε α

/-- A check that stops a primitive before its node is recorded. -/
def checked {α : Type} (primitive : Primitive) (x : Except Fault α) :
    Traced ρ (Failure ε) α :=
  match x with
  | .ok a => Step.done a
  | .error f => Step.fail (.before primitive f)

/-- A primitive needs an active session. -/
def requireSession (primitive : Primitive) : Traced ρ (Failure ε) Unit := fun s =>
  if s.1.session then (.ok ⟨⟩, s)
  else
    let message := s!"{primitive.text} can only be used while tracing"
    (.error (.error (.before primitive (.session (.notTracing message)))), s)

/-- Trace a region: open it, run the callback on its parameters, close it. What the callback yields
becomes its results. The region is closed before anything that went wrong is looked at; a crash
leaves everything as it stands. -/
def inRegion (primitive : Primitive) (types : List ArrayType)
    (body : List Value → Traced ρ ε (List Value)) :
    Traced ρ (Failure ε) (Region × List ArrayType) := fun (t, r) =>
  let (params, t) := t.openRegion types
  match body params (t, r) with
  | (.ok values, (t, r)) =>
    let (region, t) := t.closeRegion
    match operandsOf values with
    | .ok (results, types) => (.ok ({ region with results }, types), (t, r))
    | .error f => (.error (.error (.before primitive f)), (t, r))
  | (.error (.error e), (t, r)) =>
    (.error (.error ⟨primitive, .preBind, .body e⟩), (t.closeRegion.2, r))
  | (.error (.crash reason), s) => (.error (.crash reason), s)
  | (.error .outOfFuel, s) => (.error .outOfFuel, s)

/-- Values have to keep their element types through a region. -/
def checkElems (primitive : Primitive) (expected found : List ArrayType) : Except Fault Unit :=
  if expected.map ArrayType.elem = found.map ArrayType.elem then .ok ⟨⟩
  else .error (.type (.carriedTypes primitive found expected))

/-- Record the node of a primitive. Its values have to keep their shapes too, which is checked when
the node is there. -/
def bindPrimitive (primitive : Primitive) (kind : NodeKind) (inputs : List Operand)
    (outputs before after : List ArrayType) : Traced ρ (Failure ε) (List Value) := fun (t, r) =>
  let ((node, values), t) := t.bindNode kind inputs outputs
  if before.map ArrayType.shape = after.map ArrayType.shape then (.ok values, (t, r))
  else
    let fault : Fault := .shape (.carriedShapes primitive before after)
    (.error (.error (.after primitive node fault)), (t, r))

/-- Choose between two branches by a scalar. Both are traced and take the operands. -/
def cond (predicate : Value) (operands : List Value)
    (thenBranch elseBranch : List Value → Traced ρ ε (List Value)) :
    Traced ρ (Failure ε) (List Value) := do
  requireSession .cond
  let (predicate, type) ← checked .cond (operandOf predicate)
  unless type.isScalar do
    Step.fail (.before .cond (.type (.branchPredicate type)))
  let (inputs, types) ← checked .cond (operandsOf operands)
  let (thenRegion, thenTypes) ← inRegion .cond types thenBranch
  let (elseRegion, elseTypes) ← inRegion .cond types elseBranch
  checked .cond (checkElems .cond thenTypes elseTypes)
  bindPrimitive .cond (.cond thenRegion elseRegion) (predicate :: inputs) thenTypes thenTypes
    elseTypes

/-- The bounds of a counted loop; each may be a placeholder. -/
structure LoopRange where
  start : Value
  stop : Value
  step : Value

/-- The indices below a length. -/
def LoopRange.upTo (length : Nat) : LoopRange :=
  ⟨.int 0, .int (Int64.ofNat length), .int 1⟩

/-- The callback of a counted loop on the parameters of its region. -/
def onIndex (body : Value → List Value → Traced ρ ε (List Value)) :
    List Value → Traced ρ ε (List Value)
  | index :: carried => body index carried
  | [] => body (.int 0) []

/-- Whether a type can bound a counted loop. -/
def isLoopBound (type : ArrayType) : Bool :=
  type.isScalar && type.elem != .float

/-- Count through a range, carrying values from one iteration to the next. -/
def forLoop (range : LoopRange) (init : List Value)
    (body : Value → List Value → Traced ρ ε (List Value)) :
    Traced ρ (Failure ε) (List Value) := do
  requireSession .forLoop
  let (bounds, boundTypes) ← checked .forLoop (operandsOf [range.start, range.stop, range.step])
  if let some type := boundTypes.find? fun type => !isLoopBound type then
    Step.fail (.before .forLoop (.type (.loopBound type)))
  let (inputs, types) ← checked .forLoop (operandsOf init)
  let (region, found) ← inRegion .forLoop (.scalar .int :: types) (onIndex body)
  checked .forLoop (checkElems .forLoop types found)
  bindPrimitive .forLoop (.forLoop region) (bounds ++ inputs) found types found

/-- The single value of a predicate as a list. -/
def yieldOne (predicate : List Value → Traced ρ ε Value) (args : List Value) :
    Traced ρ ε (List Value) := do
  return [← predicate args]

/-- Repeat as long as a predicate holds, carrying values from one iteration to the next. -/
def whileLoop (init : List Value) (predicate : List Value → Traced ρ ε Value)
    (body : List Value → Traced ρ ε (List Value)) : Traced ρ (Failure ε) (List Value) := do
  requireSession .whileLoop
  let (inputs, types) ← checked .whileLoop (operandsOf init)
  let (condRegion, condTypes) ← inRegion .whileLoop types (yieldOne predicate)
  unless condTypes = [.scalar .bool] do
    Step.fail (.before .whileLoop (.type (.loopPredicate condTypes)))
  let (region, found) ← inRegion .whileLoop types body
  checked .whileLoop (checkElems .whileLoop types found)
  bindPrimitive .whileLoop (.whileLoop condRegion region) inputs found types found

end Tracer

end StagedFlow
