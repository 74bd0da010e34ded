import StagedFlow.Fault
import StagedFlow.Report.Violation

/-!
What can go wrong when a converted function runs. Main definitions: `RunError`, `RunError.message`.
-/
set_option autoImplicit false

namespace StagedFlow

inductive RunError
  | fault (f : Fault)
  | raised (message : String) (location : Location)
  | undefined (name : String)
  | violations (vs : List Violation)
  deriving DecidableEq

namespace RunError

def message : RunError → String
  | fault f => f.message
  | raised message location => s!"RuntimeError: {message}\n{location.text}"
  | undefined name => s!"NameError: name '{name}' is not defined"
  | violations vs => Violation.textOf vs

/-- The name of the kind of an error. -/
def kind : RunError → String
  | fault f => "Trace." ++ f.kind
  | raised _ _ => "Raised"
  | undefined _ => "UndefinedVariable"
  | violations _ => "Analysis"

/-- An error that is known by its text only. -/
def ofText (text : String) : RunError :=
  fault (.type (.reported text))

/-- Whether the error has to reach the caller even where the host could take over. -/
def isFatal : RunError → Bool
  | violations _ => true
  | fault (.session _) => true
  | _ => false

end RunError

end StagedFlow
