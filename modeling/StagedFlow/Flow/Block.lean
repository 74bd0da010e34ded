import StagedFlow.Iteration.Domain
import StagedFlow.Report.Diagnostic
import StagedFlow.Report.Violation

/-!
Converted functions: statements whose blocks of control flow have a number, a place and the
variables that they carry. Main definitions: `CarriedVar`, `BlockInfo`, `FlowStmt`, `FlowFunction`,
`FlowStmt.blocks`.
-/
set_option autoImplicit false

namespace StagedFlow

/-- A variable that a block hands on: to what follows it, or to its next iteration. It is `observed`
if the value from before the block can reach a read, and so enters the block. -/
structure CarriedVar where
  name : String
  declaredBefore : Bool
  observed : Bool
  /-- The class of the value from before the block. -/
  initial : TypeClass
  /-- The classes of the values that the branches or the iterations make. -/
  produced : List TypeClass
  deriving Repr, DecidableEq

def CarriedVar.toJson (v : CarriedVar) : Json :=
  .obj
    [("name", .str v.name), ("declared_before", .bool v.declaredBefore),
      ("observed", .bool v.observed), ("initial", .str v.initial.text),
      ("produced", .ofStrings (v.produced.map TypeClass.text))]

/-- What is known of a block of control flow. -/
structure BlockInfo where
  id : Nat
  kind : BlockKind
  location : Location
  /-- The carried variables in the order of their first assignments. -/
  carried : List CarriedVar
  /-- The variables that the block assigns and that nothing reads after it. -/
  temporaries : List String
  deriving Repr, DecidableEq

namespace BlockInfo

/-- A block of which nothing has been found out. -/
def fresh (id : Nat) (kind : BlockKind) (location : Location) : BlockInfo :=
  ⟨id, kind, location, [], []⟩

/-- The names that leave the block. -/
def outputs (b : BlockInfo) : List String :=
  b.carried.map CarriedVar.name

/-- The names whose values enter the block. -/
def inputs (b : BlockInfo) : List String :=
  (b.carried.filter CarriedVar.observed).map CarriedVar.name

def carries (b : BlockInfo) (name : String) : Bool :=
  b.carried.any fun v => v.name == name

def toJson (b : BlockInfo) : Json :=
  .obj
    [("id", .ofNat b.id), ("kind", b.kind.toJson), ("location", b.location.toJson),
      ("carried", .arr (b.carried.map CarriedVar.toJson)),
      ("temporaries", .ofStrings b.temporaries)]

end BlockInfo

/-- How a counted loop runs: in the graph if that works, or on the host. -/
inductive Strategy
  | primitive
  | host (reason : String)
  deriving Repr, DecidableEq

def Strategy.toJson : Strategy → Json
  | primitive => .str "Primitive"
  | host reason => .tagged "Eager" (.obj [("reason", .str reason)])

mutual

/-- A statement of a converted function. The domain of a counted loop is there if it does not
depend on the run of the program. -/
inductive FlowStmt
  | act (action : Action) (span : Span)
  | cond (info : BlockInfo) (arms : List FlowArm) (otherwise : Option (List FlowStmt))
  | forIn (info : BlockInfo) (target : Target) (source : Expr) (body : List FlowStmt)
    (domain : Option Domain) (strategy : Strategy)
  | whileDo (info : BlockInfo) (condition : Expr) (body : List FlowStmt)

/-- An arm of a conditional. -/
structure FlowArm where
  condition : Expr
  body : List FlowStmt

end

namespace FlowStmt

instance : Inhabited FlowStmt :=
  ⟨act .pass .unknown⟩

def info? : FlowStmt → Option BlockInfo
  | act .. => none
  | cond info .. => some info
  | forIn info .. => some info
  | whileDo info .. => some info

def isLoop : FlowStmt → Bool
  | forIn .. => true
  | whileDo .. => true
  | _ => false

mutual

/-- The blocks in a statement, each before those inside it. -/
def blocks : FlowStmt → List FlowStmt
  | act .. => []
  | cond info arms otherwise =>
    .cond info arms otherwise ::
      (armBlocks arms ++
        (match otherwise with
        | some body => blocksOf body
        | none => []))
  | forIn info target source body domain strategy =>
    .forIn info target source body domain strategy :: blocksOf body
  | whileDo info condition body => .whileDo info condition body :: blocksOf body

def armBlocks : List FlowArm → List FlowStmt
  | [] => []
  | ⟨_, body⟩ :: rest => blocksOf body ++ armBlocks rest

def blocksOf : List FlowStmt → List FlowStmt
  | [] => []
  | s :: rest => s.blocks ++ blocksOf rest

end

mutual

/-- Change what is known of the blocks. -/
def mapInfo (f : BlockInfo → BlockInfo) : FlowStmt → FlowStmt
  | act action span => act action span
  | cond info arms otherwise =>
    cond (f info) (mapInfoArms f arms)
      (match otherwise with
      | some body => some (mapInfoAll f body)
      | none => none)
  | forIn info target source body domain strategy =>
    forIn (f info) target source (mapInfoAll f body) domain strategy
  | whileDo info condition body => whileDo (f info) condition (mapInfoAll f body)

def mapInfoArms (f : BlockInfo → BlockInfo) : List FlowArm → List FlowArm
  | [] => []
  | ⟨condition, body⟩ :: rest => ⟨condition, mapInfoAll f body⟩ :: mapInfoArms f rest

def mapInfoAll (f : BlockInfo → BlockInfo) : List FlowStmt → List FlowStmt
  | [] => []
  | s :: rest => s.mapInfo f :: mapInfoAll f rest

end

end FlowStmt

/-- A converted function with its text and the warnings of the conversion. -/
structure FlowFunction where
  name : String
  file : Option String
  params : List Param
  body : List FlowStmt
  source : String
  diagnostics : List Diagnostic
  deriving Inhabited

namespace FlowFunction

/-- All blocks of a function, each before those inside it. -/
def blocks (f : FlowFunction) : List FlowStmt :=
  FlowStmt.blocksOf f.body

def infos (f : FlowFunction) : List BlockInfo :=
  f.blocks.filterMap FlowStmt.info?

end FlowFunction

end StagedFlow
