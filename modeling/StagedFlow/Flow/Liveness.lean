import StagedFlow.Flow.Usage

/-!
Liveness: which names can still be read before they are assigned. The names that are live at the
head of a loop are found by going round its body until nothing is added; every round writes the
facts on the nested blocks anew, so those of the last round stay. Main definitions: `LiveFacts`,
`FlowStmt.liveBefore`, `FlowStmt.liveIn`.
-/
set_option autoImplicit false

namespace StagedFlow

/-- What is live around a block: after it, and at the start of each branch (a missing `else`
included) or of an iteration. -/
structure LiveFacts where
  after : Names
  entries : List Names
  deriving Repr, DecidableEq

abbrev LiveTable := Bindings Nat LiveFacts

/-- The names live before an action, from those live after it. -/
def Action.liveBefore (action : Action) (after : Names) : Names :=
  match action with
  | .assign target value => (after.without target.names).union value.uses
  | .update name _ value => (after.add name).union value.uses
  | .eval expr => after.union expr.uses
  | .ret (some value) => Names.ofList value.uses
  | .ret none => []
  | .raise _ => []
  | .pass => after

/-- Go round a loop: `body` gives the names live before its body from those live after it, and
`kept` what of them was live before the iteration. The names grow until the head has them all. The
result is the head, what the last round kept, and the table. -/
def liveHead (body : Names → LiveTable → Names × LiveTable) (kept : Names → Names) :
    Nat → Names → LiveTable → Names × Names × LiveTable
  | 0, head, table => (head, [], table)
  | rounds + 1, head, table =>
    let (live, table) := body head table
    let entry := kept live
    if entry.subset head then (head, entry, table)
    else liveHead body kept rounds (head.union entry) table

namespace FlowStmt

mutual

/-- The names live before a statement, from those live after it. -/
def liveBefore : FlowStmt → Names → LiveTable → Names × LiveTable
  | act action _, after, table => (action.liveBefore after, table)
  | cond info arms otherwise, after, table =>
    let (live, entries, table) := liveArms arms after table
    let (last, table) := match otherwise with
      | some body => liveIn body after table
      | none => (after, table)
    (live.union last, table.insert info.id ⟨after, entries ++ [last]⟩)
  | forIn info target source body _ _, after, table =>
    let (head, entry, table) :=
      liveHead (fun after table => liveIn body after table) (·.without target.names)
        ((readIn body).length + 1) after table
    (head.union source.uses, table.insert info.id ⟨after, [entry]⟩)
  | whileDo info condition body, after, table =>
    let (head, entry, table) :=
      liveHead (fun after table => liveIn body after table) id ((readIn body).length + 1)
        (after.union condition.uses) table
    (head, table.insert info.id ⟨after, [entry.union condition.uses]⟩)

/-- The names live before some arm or read by its condition, and those before each arm. -/
def liveArms : List FlowArm → Names → LiveTable → Names × List Names × LiveTable
  | [], _, table => ([], [], table)
  | ⟨condition, body⟩ :: rest, after, table =>
    let (entry, table) := liveIn body after table
    let (live, entries, table) := liveArms rest after table
    ((entry.union condition.uses).union live, entry :: entries, table)

/-- The names live before statements, from those live after them. -/
def liveIn : List FlowStmt → Names → LiveTable → Names × LiveTable
  | [], after, table => (after, table)
  | s :: rest, after, table =>
    let (after, table) := liveIn rest after table
    s.liveBefore after table

end

end FlowStmt

end StagedFlow
