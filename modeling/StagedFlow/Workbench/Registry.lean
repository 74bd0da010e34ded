import StagedFlow.Flow.Convert

/-!
Registered functions and what became of their conversion. A function is known by the handle that
it got; a conversion that worked is kept, and one that failed is tried again. Main definitions:
`ConversionRecord`, `Registry`, `Registry.register`, `Registry.attempt`, `Registry.record`.
-/
set_option autoImplicit false

namespace StagedFlow

/-- What is known of the conversion of a function; `pending` while nothing has come of it yet. -/
inductive ConversionStatus
  | pending
  | converted
  | failed (reason : String)
  deriving Repr, DecidableEq

def ConversionStatus.toJson : ConversionStatus → Json
  | pending => .obj [("status", .str "pending")]
  | converted => .obj [("status", .str "converted")]
  | failed reason => .obj [("status", .str "failed"), ("reason", .str reason)]

/-- The conversions of a function: how often it was tried, what came of the last time, and the
converted function with its warnings if there is one. -/
structure ConversionRecord where
  name : String
  status : ConversionStatus := .pending
  attempts : Nat := 0
  diagnostics : List Diagnostic := []
  converted : Option FlowFunction := none

namespace ConversionRecord

/-- The record after one more attempt. A failure leaves what was converted before, and a crash
leaves no time to note anything. -/
def settle (r : ConversionRecord) (result : Except (Halt (List Violation)) FlowFunction) :
    ConversionRecord :=
  match result with
  | .ok f =>
    { r with
      status := .converted
      attempts := r.attempts + 1
      diagnostics := f.diagnostics
      converted := some f }
  | .error (.error vs) =>
    { r with status := .failed (Violation.textOf vs), attempts := r.attempts + 1 }
  | .error _ => r

def toJson (handle : Nat) (r : ConversionRecord) : Json :=
  .obj
    [("handle", .ofNat handle), ("name", .str r.name), ("status", r.status.toJson),
      ("attempts", .ofNat r.attempts), ("diagnostics", .arr (r.diagnostics.map Diagnostic.toJson))]

end ConversionRecord

inductive RegistryFault
  | unknownHandle (handle : Nat)
  | neverAttempted (name : String)
  | conversionFailed (name reason : String)
  deriving Repr, DecidableEq

/-- The text of a handle. -/
def handleText (handle : Nat) : String :=
  s!"fn#{handle}"

def RegistryFault.message : RegistryFault → String
  | unknownHandle handle => s!"unknown function handle {handleText handle}"
  | neverAttempted name => s!"NotConvertedError: function '{name}' was never converted"
  | conversionFailed name reason =>
    s!"NotConvertedError: conversion of function '{name}' failed: {reason}"

/-- The name of the kind of an error. -/
def RegistryFault.kind : RegistryFault → String
  | unknownHandle _ => "Registry.UnknownHandle"
  | neverAttempted _ => "Registry.NeverAttempted"
  | conversionFailed _ _ => "Registry.ConversionFailed"

/-- Functions by handle, and the records in the order of the first attempts. -/
structure Registry where
  functions : List FunctionDef := []
  records : Bindings Nat ConversionRecord := []
  deriving Inhabited

namespace Registry

/-- Register a function under a new handle. -/
def register (r : Registry) (f : FunctionDef) : Nat × Registry :=
  (r.functions.length, { r with functions := r.functions ++ [f] })

def function (r : Registry) (handle : Nat) : Except RegistryFault FunctionDef :=
  match r.functions[handle]? with
  | some f => .ok f
  | none => .error (.unknownHandle handle)

def record? (r : Registry) (handle : Nat) : Option ConversionRecord :=
  Bindings.find? r.records handle

def converted? (r : Registry) (handle : Nat) : Option FlowFunction :=
  (r.record? handle).bind ConversionRecord.converted

/-- Note that a conversion was begun, unless there is a record already. -/
def attempt (r : Registry) (handle : Nat) (name : String) : Registry :=
  match r.record? handle with
  | some _ => r
  | none => { r with records := Bindings.insert r.records handle { name } }

/-- Note what came of a conversion. -/
def record (r : Registry) (handle : Nat) (name : String)
    (result : Except (Halt (List Violation)) FlowFunction) : Registry :=
  let begun := (r.record? handle).getD { name }
  { r with records := Bindings.insert r.records handle (begun.settle result) }

/-- The text of a function that was converted. -/
def source (r : Registry) (handle : Nat) : Except RegistryFault String := do
  let f ← r.function handle
  match r.record? handle with
  | none => .error (.neverAttempted f.name)
  | some record =>
    match record.status, record.converted with
    | .converted, some converted => .ok converted.source
    | .failed reason, _ => .error (.conversionFailed record.name reason)
    | _, _ => .error (.neverAttempted record.name)

/-- The warnings of the conversion of a function. -/
def diagnostics (r : Registry) (handle : Nat) : List Diagnostic :=
  ((r.record? handle).map ConversionRecord.diagnostics).getD []

def toJson (r : Registry) : Json :=
  .arr (r.records.map fun (handle, record) => record.toJson handle)

end Registry

end StagedFlow
