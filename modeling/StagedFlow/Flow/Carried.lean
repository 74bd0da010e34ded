import StagedFlow.Flow.Definite
import StagedFlow.Flow.Liveness

/-!
The variables that blocks carry. A name that a block assigns is carried if it is live after the
block or, for a loop, at the start of an iteration; otherwise it is a temporary. A carried name
without a value on every path is an error. Main definitions: `BlockFacts`, `BlockFacts.of`,
`Analysis`, `Analysis.of`, `Analysis.annotate`.
-/
set_option autoImplicit false

namespace StagedFlow

structure BlockFacts where
  modified : Names
  carried : List CarriedVar
  temporaries : List String
  /-- Carried names that may have no value, with the reason. -/
  invalid : List (String × String)
  deriving Repr, DecidableEq

namespace BlockFacts

/-- Whether a name is live at the start of some branch or of an iteration. -/
def liveAtEntry (live : LiveFacts) (name : String) : Bool :=
  live.entries.any fun ns => name ∈ ns

def isCarried (isLoop : Bool) (live : LiveFacts) (name : String) : Bool :=
  name ∈ live.after || isLoop && liveAtEntry live name

def carriedVar (isLoop : Bool) (live : LiveFacts) (definite : DefiniteFacts) (name : String) :
    CarriedVar :=
  let declared : Bool := name ∈ definite.before
  ⟨name, declared, isLoop || declared && liveAtEntry live name, .unknown, []⟩

/-- Why a carried name may have no value. Branches that never reach their end do not count. -/
def invalidReason? (isLoop : Bool) (live : LiveFacts) (definite : DefiniteFacts) (name : String) :
    Option String :=
  if name ∈ definite.before then none
  else if isLoop then
    if liveAtEntry live name then some "it is read in the loop body before its first assignment"
    else some "it is not assigned when the loop runs zero times"
  else if (definite.ends.filterMap id).all fun ns => name ∈ ns then none
  else some "it is not assigned on every branch of the if statement"

/-- The facts on a block, from what is live and what is assigned around it. -/
def of (block : FlowStmt) (live : LiveFacts) (definite : DefiniteFacts) : BlockFacts :=
  let isLoop := block.isLoop
  let carried := block.modified.filter (isCarried isLoop live)
  { modified := block.modified
    carried := carried.map (carriedVar isLoop live definite)
    temporaries := block.modified.filter fun name => !isCarried isLoop live name
    invalid := carried.filterMap fun name =>
      (invalidReason? isLoop live definite name).map fun reason => (name, reason) }

end BlockFacts

/-- The facts on all blocks of a function, and what is wrong with it. -/
structure Analysis where
  facts : Bindings Nat BlockFacts
  errors : List Violation

namespace Analysis

/-- The errors on a block, without the names that were reported before. -/
def newErrors (info : BlockInfo) (reported : Names) (facts : BlockFacts) : List Violation :=
  (facts.invalid.filter fun e => e.1 ∉ reported).map fun (name, reason) =>
    ⟨.uninitialized name reason, info.kind, info.location⟩

/-- One error for each name, at the first block that it concerns. -/
def collectErrors : List (BlockInfo × BlockFacts) → Names → List Violation
  | [], _ => []
  | (info, facts) :: rest, reported =>
    newErrors info reported facts ++
      collectErrors rest (reported.union (facts.invalid.map Prod.fst))

/-- The facts on a block from the tables. -/
def factsOn (live : LiveTable) (definite : DefiniteTable) (block : FlowStmt) :
    Option (BlockInfo × BlockFacts) :=
  block.info?.map fun info =>
    (info, .of block ((Bindings.find? live info.id).getD ⟨[], []⟩)
      ((Bindings.find? definite info.id).getD ⟨[], []⟩))

/-- Analyse a function with the given parameters. -/
def of (params : List String) (body : List FlowStmt) : Analysis :=
  let (_, live) := FlowStmt.liveIn body [] []
  let (_, _, definite) := FlowStmt.defineAll body (Names.ofList params) []
  let found := (FlowStmt.blocksOf body).filterMap (factsOn live definite)
  ⟨found.map fun (info, facts) => (info.id, facts), collectErrors found []⟩

/-- A block with its carried variables and temporaries filled in. -/
def annotateInfo (a : Analysis) (info : BlockInfo) : BlockInfo :=
  match Bindings.find? a.facts info.id with
  | some facts => { info with carried := facts.carried, temporaries := facts.temporaries }
  | none => info

def annotate (a : Analysis) (body : List FlowStmt) : List FlowStmt :=
  FlowStmt.mapInfoAll a.annotateInfo body

end Analysis

end StagedFlow
