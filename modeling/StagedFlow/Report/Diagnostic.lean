import StagedFlow.Report.Location
import StagedFlow.Tracer.Primitive

/-!
Warnings about blocks that run on the host instead of in the graph. Main definitions: `Diagnostic`,
`Diagnostic.text`.
-/
set_option autoImplicit false

namespace StagedFlow

/-- Whether a primitive failed before or after its node was recorded. -/
inductive FailureStage
  | preBind
  | postBind
  deriving Repr, DecidableEq

namespace FailureStage

def ofStage : Stage → FailureStage
  | .preBind => preBind
  | .postBind _ => postBind

def tag : FailureStage → String
  | preBind => "PreBind"
  | postBind => "PostBind"

def tags : List (String × FailureStage) :=
  [preBind, postBind].map fun s => (s.tag, s)

end FailureStage

/-- Why a block runs on the host: what it iterates over has no form in the graph, or tracing it
failed. -/
inductive DiagnosticKind
  | domain
  | primitive (stage : FailureStage)
  deriving Repr, DecidableEq

namespace DiagnosticKind

def toJson : DiagnosticKind → Json
  | domain => .str "DomainFallback"
  | primitive stage => .tagged "PrimitiveFallback" (.str stage.tag)

def ofJson? (j : Json) : Option DiagnosticKind :=
  match j.variant? with
  | some ("PrimitiveFallback", some content) =>
    (readName? FailureStage.tags content).map primitive
  | _ => readName? [("DomainFallback", domain)] j

end DiagnosticKind

/-- A warning. `variables` are those that the block carries. -/
structure Diagnostic where
  kind : DiagnosticKind
  block : BlockKind
  location : Location
  cause : String
  names : List String
  deriving Repr, DecidableEq

namespace Diagnostic

/-- The hint on loop variables. -/
def loopAdvice : String :=
  "If you intended for the conversion to happen, make sure that the (now dynamic) loop variable " ++
    "is not used in tracing-incompatible ways, for instance by indexing a host list with it. In " ++
    "that case, the list should be wrapped into an array.\n"

def text (d : Diagnostic) : String :=
  let body := d.location.text ++ "\n" ++ d.cause ++ "\n"
  match d.kind with
  | .domain =>
    s!"Could not convert the iteration target of an AutoGraph {d.block.text} to a dynamic " ++
      "primitive:\n" ++ body ++
      "The loop will run as ordinary host iteration and be unrolled during tracing."
  | .primitive _ =>
    s!"Tracing of an AutoGraph converted {d.block.text} failed with an exception:\n" ++ body ++
      (if d.block = .countedLoop then loopAdvice else "") ++
      "If you did not intend for the conversion to happen, you may safely ignore this warning."

def toJson (d : Diagnostic) : Json :=
  .obj
    [("kind", d.kind.toJson), ("block", d.block.toJson), ("location", d.location.toJson),
      ("cause", .str d.cause), ("variables", .ofStrings d.names)]

def ofJson? (j : Json) : Option Diagnostic := do
  let fields ← j.fields?
  return ⟨← Json.get? fields "kind" DiagnosticKind.ofJson?,
    ← Json.get? fields "block" BlockKind.ofJson?, ← Json.get? fields "location" Location.ofJson?,
    ← Json.get? fields "cause" Json.str?,
    ← Json.getOr? fields "variables" [] (Json.list? Json.str?)⟩

end Diagnostic

end StagedFlow
