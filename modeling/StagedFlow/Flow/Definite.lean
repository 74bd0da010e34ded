import StagedFlow.Flow.Usage

/-!
Definite assignment: which names have a value on every path. Main definitions: `DefiniteFacts`,
`FlowStmt.define`, `FlowStmt.defineAll`.
-/
set_option autoImplicit false

namespace StagedFlow

/-- What is assigned on every path before a block, and at the end of each branch or of the body.
A branch that never reaches its end has nothing. -/
structure DefiniteFacts where
  before : Names
  ends : List (Option Names)
  deriving Repr, DecidableEq

abbrev DefiniteTable := Bindings Nat DefiniteFacts

/-- Whether an action ends the block it stands in. -/
def Action.terminates : Action → Bool
  | ret _ => true
  | raise _ => true
  | _ => false

/-- The names assigned at the end of a branch that reaches it. -/
def branchEnd (terminated : Bool) (defined : Names) : Option Names :=
  if terminated then none else some defined

/-- The names that all branches have that reach their end. -/
def commonNames? : List (Option Names) → Option Names
  | [] => none
  | none :: rest => commonNames? rest
  | some ns :: rest => some ((rest.filterMap id).foldl Names.inter ns)

namespace FlowStmt

mutual

/-- Whether a statement never comes to its end, and the names assigned after it. -/
def define : FlowStmt → Names → DefiniteTable → Bool × Names × DefiniteTable
  | act action _, defined, table =>
    (action.terminates, defined.union action.assigned, table)
  | cond info arms otherwise, before, table =>
    let (ends, table) := defineArms arms before table
    let (last, table) := match otherwise with
      | some body =>
        let (terminated, defined, table) := defineAll body before table
        (branchEnd terminated defined, table)
      | none => (some before, table)
    let ends := ends ++ [last]
    let table := table.insert info.id ⟨before, ends⟩
    match commonNames? ends with
    | some defined => (false, defined, table)
    | none => (true, before, table)
  | forIn info target _ body _ _, before, table =>
    let (terminated, defined, table) := defineAll body (before.union target.names) table
    (false, before, table.insert info.id ⟨before, [branchEnd terminated defined]⟩)
  | whileDo info _ body, before, table =>
    let (terminated, defined, table) := defineAll body before table
    (false, before, table.insert info.id ⟨before, [branchEnd terminated defined]⟩)

def defineArms : List FlowArm → Names → DefiniteTable → List (Option Names) × DefiniteTable
  | [], _, table => ([], table)
  | ⟨_, body⟩ :: rest, before, table =>
    let (terminated, defined, table) := defineAll body before table
    let (ends, table) := defineArms rest before table
    (branchEnd terminated defined :: ends, table)

/-- Whether some statement never comes to its end, and the names assigned after all of them. What
stands after such a statement is looked at all the same. -/
def defineAll : List FlowStmt → Names → DefiniteTable → Bool × Names × DefiniteTable
  | [], defined, table => (false, defined, table)
  | s :: rest, defined, table =>
    let (first, defined, table) := s.define defined table
    let (second, defined, table) := defineAll rest defined table
    (first || second, defined, table)

end

end FlowStmt

end StagedFlow
