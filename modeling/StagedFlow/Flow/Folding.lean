import StagedFlow.Iteration.Domain

/-!
Conditionals whose predicate is written out are replaced by what they choose, and the names that
stand for one constant are collected. Main definitions: `Stmt.fold`, `foldAll`, `constantNames`,
`constantCrash?`.
-/
set_option autoImplicit false

namespace StagedFlow

/-- A chain with its arms folded; without arms only the last body is left. -/
def foldedChain (span : Span) : List Arm × Option (List Stmt) → List Stmt
  | ([], otherwise) => otherwise.getD []
  | (arms, otherwise) => [.choose arms otherwise span]

mutual

/-- The statements that take the place of one. -/
def Stmt.fold : Stmt → List Stmt
  | .act action span => [.act action span]
  | .choose arms otherwise span =>
    let otherwise := match otherwise with
      | some body => some (foldAll body)
      | none => none
    foldedChain span (foldArms arms otherwise)
  | .forIn target source body span => [.forIn target source (foldAll body) span]
  | .whileDo condition body span => [.whileDo condition (foldAll body) span]

/-- The arms that can be chosen, and what is left if none of them is. -/
def foldArms : List Arm → Option (List Stmt) → List Arm × Option (List Stmt)
  | [], otherwise => ([], otherwise)
  | ⟨condition, body, span⟩ :: rest, otherwise =>
    match condition.constantTruth? with
    | some false => foldArms rest otherwise
    | some true => ([], some (foldAll body))
    | none =>
      let (arms, otherwise) := foldArms rest otherwise
      (⟨condition, foldAll body, span⟩ :: arms, otherwise)

def foldAll : List Stmt → List Stmt
  | [] => []
  | s :: rest => s.fold ++ foldAll rest

end

mutual

/-- The names that a statement binds, as often as it does. -/
def Stmt.bound : Stmt → List String
  | .act (.assign target _) _ => target.names
  | .act (.update name _ _) _ => [name]
  | .act _ _ => []
  | .choose arms otherwise _ =>
    armsBound arms ++
      (match otherwise with
      | some body => boundIn body
      | none => [])
  | .forIn target _ body _ => target.names ++ boundIn body
  | .whileDo _ body _ => boundIn body

def armsBound : List Arm → List String
  | [] => []
  | ⟨_, body, _⟩ :: rest => boundIn body ++ armsBound rest

def boundIn : List Stmt → List String
  | [] => []
  | s :: rest => s.bound ++ boundIn rest

end

/-- The constant that a statement gives a name, if that is the only one that the name gets. -/
def constantName? (bound : List String) : Stmt → Search (String × Expr)
  | .act (.assign (.name n) value) _ =>
    if bound.count n = 1 then value.constantValue?.map fun _ => (n, value) else .missing
  | _ => .missing

/-- What a function binds, its parameters first. -/
def namesBound (params : List Param) (body : List Stmt) : List String :=
  params.map Param.name ++ boundIn body

/-- The names that are bound once in the function, outside all blocks, to a constant. -/
def constantNames (params : List Param) (body : List Stmt) : Constants :=
  body.filterMap fun s => (constantName? (namesBound params body) s).toOption

/-- The crash in which the search for these names ends. -/
def constantCrash? (params : List Param) (body : List Stmt) : Option Crash :=
  body.findSome? fun s => (constantName? (namesBound params body) s).crash?

end StagedFlow
