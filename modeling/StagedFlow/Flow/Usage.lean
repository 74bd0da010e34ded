import StagedFlow.Flow.Block
import StagedFlow.Names

/-!
The names that statements read and assign. Main definitions: `FlowStmt.assigned`,
`FlowStmt.modified`, `FlowStmt.reads`.
-/
set_option autoImplicit false

namespace StagedFlow

namespace Action

def assigned : Action → List String
  | assign target _ => target.names
  | update name _ _ => [name]
  | _ => []

def reads : Action → List String
  | assign _ value => value.uses
  | update name _ value => name :: value.uses
  | eval expr => expr.uses
  | ret (some value) => value.uses
  | _ => []

end Action

namespace FlowStmt

mutual

/-- The names that a statement may assign, nested blocks included, in order; the target of a loop
comes before what its body assigns. -/
def assigned : FlowStmt → List String
  | act action _ => action.assigned
  | cond _ arms otherwise =>
    armsAssigned arms ++
      (match otherwise with
      | some body => assignedIn body
      | none => [])
  | forIn _ target _ body _ _ => target.names ++ assignedIn body
  | whileDo _ _ body => assignedIn body

def armsAssigned : List FlowArm → List String
  | [] => []
  | ⟨_, body⟩ :: rest => assignedIn body ++ armsAssigned rest

def assignedIn : List FlowStmt → List String
  | [] => []
  | s :: rest => s.assigned ++ assignedIn rest

end

/-- The names that a statement may assign, each once. -/
def modified (s : FlowStmt) : Names :=
  Names.ofList s.assigned

mutual

/-- The names that a statement may read, nested blocks included. -/
def reads : FlowStmt → List String
  | act action _ => action.reads
  | cond _ arms otherwise =>
    armsRead arms ++
      (match otherwise with
      | some body => readIn body
      | none => [])
  | forIn _ _ source body _ _ => source.uses ++ readIn body
  | whileDo _ condition body => condition.uses ++ readIn body

def armsRead : List FlowArm → List String
  | [] => []
  | ⟨condition, body⟩ :: rest => condition.uses ++ readIn body ++ armsRead rest

def readIn : List FlowStmt → List String
  | [] => []
  | s :: rest => s.reads ++ readIn rest

end

end FlowStmt

end StagedFlow
