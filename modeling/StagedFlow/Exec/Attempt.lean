import StagedFlow.Exec.Error
import StagedFlow.Flow.Block
import StagedFlow.Options
import StagedFlow.Tracer.Primitive

/-!
Attempts to run a block in the graph. An attempt goes through the states of `AttemptState`; if the
primitive fails after its node was recorded, the node is taken back. Then the host takes over,
unless the failure has to reach the caller. Main definitions: `AttemptState`, `Attempt`,
`BlockInfo.supervise`, `BlockInfo.attempt`, `Journal`, `FaultPlan`.
-/
set_option autoImplicit false

namespace StagedFlow

inductive AttemptState
  | notAttempted
  | tracing
  | committed
  | failedPreBind
  | failedPostBind
  | fallbackExecuted
  deriving Repr, DecidableEq

/-- The state once the host has run the block. -/
def AttemptState.afterFallback : AttemptState → AttemptState
  | failedPreBind => fallbackExecuted
  | failedPostBind => fallbackExecuted
  | s => s

/-- What an attempt comes to: the values that the block hands on, or the host has to run it. -/
inductive Attempt
  | committed (values : List Value)
  | fallback (d : Diagnostic)

/-- The error behind the failure of a primitive. -/
def Cause.error : Cause RunError → RunError
  | body e => e
  | fault f => .fault f

namespace BlockInfo

/-- The warning on a block that could not be traced. -/
def primitiveFallback (b : BlockInfo) (stage : Stage) (e : RunError) : Diagnostic :=
  ⟨.primitive (.ofStage stage), b.kind, b.location, e.message, b.outputs⟩

/-- What follows from a failure of which nothing is left in the graph. -/
def settle (b : BlockInfo) (strict : Bool) (stage : Stage) (e : RunError) :
    Except (Halt RunError) Attempt :=
  if strict || e.isFatal then .error (.error e) else .ok (.fallback (b.primitiveFallback stage e))

variable {ρ : Type}

/-- Attempt a block that is in a given state. A block is attempted once. -/
def supervise (b : BlockInfo) (strict : Bool) (state : AttemptState)
    (call : Tracer.Traced ρ (Failure RunError) (List Value)) (s : Tracer × ρ) :
    (Except (Halt RunError) Attempt × AttemptState) × (Tracer × ρ) :=
  if state = .notAttempted then
    match call s with
    | (.ok values, s) => ((.ok (.committed values), .committed), s)
    | (.error (.crash reason), s) => ((.error (.crash reason), .tracing), s)
    | (.error .outOfFuel, s) => ((.error .outOfFuel, .tracing), s)
    | (.error (.error failure), (t, r)) =>
      match failure.stage with
      | .preBind =>
        ((b.settle strict failure.stage failure.cause.error, .failedPreBind), (t, r))
      | .postBind node =>
        match Tracer.retract node t with
        | (.ok _, t) =>
          ((b.settle strict failure.stage failure.cause.error, .failedPostBind), (t, r))
        | (.error h, t) => ((.error (h.map .fault), .tracing), (t, r))
  else ((.error (.error (.fault (.malformed (.attemptedTwice b.id)))), state), s)

/-- A first attempt at a block. -/
def attempt (b : BlockInfo) (strict : Bool)
    (call : Tracer.Traced ρ (Failure RunError) (List Value)) : Tracer.Traced ρ RunError Attempt :=
  fun s =>
    let ((result, _), s) := b.supervise strict .notAttempted call s
    (result, s)

end BlockInfo

/-! ## The journal -/

/-- What a run reports: its warnings, how many were ever given, and whether a planned fault has
happened. -/
structure Journal where
  diagnostics : List Diagnostic := []
  warnings : Nat := 0
  fired : Bool := false
  deriving Inhabited

namespace Journal

/-- Give a warning, unless they are not wanted. -/
def report (j : Journal) (options : Options) (d : Diagnostic) : Journal :=
  if options.quiet then j
  else { j with diagnostics := j.diagnostics ++ [d], warnings := j.warnings + 1 }

/-- Forget all warnings but the first ones. -/
def rewind (j : Journal) (mark : Nat) : Journal :=
  { j with diagnostics := j.diagnostics.take mark }

end Journal

/-! ## Planned faults -/

/-- A fault to be provoked: the first call of a primitive outside all regions fails, before or after
its node is recorded. -/
structure FaultPlan where
  primitive : Primitive
  afterBinding : Bool
  deriving Repr, DecidableEq

namespace FaultPlan

/-- A call of a primitive that fails after it has worked. -/
def failAfter (primitive : Primitive)
    (call : Tracer.Traced Journal (Failure RunError) (List Value)) :
    Tracer.Traced Journal (Failure RunError) (List Value) := fun s =>
  match call s with
  | (.ok _, (t, j)) =>
    let fault : Fault := .shape (.reported "injected post-bind fault")
    (.error (.error (.after primitive (t.lastNode?.getD 0) fault)), (t, j))
  | r => r

/-- A call of a primitive under a plan. -/
def intercept (plan : Option FaultPlan) (primitive : Primitive)
    (call : Tracer.Traced Journal (Failure RunError) (List Value)) :
    Tracer.Traced Journal (Failure RunError) (List Value) := fun (t, j) =>
  match plan with
  | none => call (t, j)
  | some plan =>
    if plan.primitive = primitive ∧ j.fired = false then
      let j := { j with fired := true }
      if plan.afterBinding then failAfter primitive call (t, j)
      else
        let fault : Fault := .type (.reported "injected pre-bind fault")
        (.error (.error (.before primitive fault)), (t, j))
    else call (t, j)

end FaultPlan

end StagedFlow
