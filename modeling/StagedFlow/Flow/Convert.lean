import StagedFlow.Flow.Carried
import StagedFlow.Flow.Folding
import StagedFlow.Flow.Text
import StagedFlow.Flow.Typing
import StagedFlow.Options

/-!
Conversion of functions: conditionals with known predicates are folded away, blocks get numbers and
places, the variables that they carry are found and typed, and loops over what the graph cannot
iterate are left to the host. Main definitions: `Lowering`, `Lowering.lower`, `FlowStmt.settled`,
`Conversion`, `FunctionDef.convert`.
-/
set_option autoImplicit false

namespace StagedFlow

/-! ## Blocks -/

/-- The place of a statement in a function. -/
def FunctionDef.locate (f : FunctionDef) (span : Span) : Location :=
  ⟨f.file, f.name, span.startLine, f.sourceLine? span.startLine⟩

/-- What a function needs to number its blocks: the constants it names, and the block around. -/
structure Lowering where
  function : FunctionDef
  constants : Constants
  around : Option (BlockKind × Location)

namespace Lowering

/-- The same for the parts of a block. -/
def inside (l : Lowering) (info : BlockInfo) : Lowering :=
  { l with around := some (info.kind, info.location) }

def opened (l : Lowering) (id : Nat) (kind : BlockKind) (span : Span) : BlockInfo :=
  .fresh id kind (l.function.locate span)

/-- A block cannot be left by `return`. -/
def returnErrors (l : Lowering) : Action → List Violation
  | .ret _ =>
    match l.around with
    | some (kind, location) => [⟨.statement "return", kind, location⟩]
    | none => []
  | _ => []

end Lowering

mutual

/-- A statement with its blocks numbered from `id` on, the next number, and what is wrong. -/
def Stmt.lower (l : Lowering) : Stmt → Nat → FlowStmt × Nat × List Violation
  | .act action span, id => (.act action span, id, l.returnErrors action)
  | .choose arms otherwise span, id =>
    let info := l.opened id .conditional span
    let (arms, id, inArms) := lowerArms (l.inside info) arms (id + 1)
    match otherwise with
    | some body =>
      let (body, id, inLast) := lowerAll (l.inside info) body id
      (.cond info arms (some body), id, inArms ++ inLast)
    | none => (.cond info arms none, id, inArms)
  | .forIn target source body span, id =>
    let info := l.opened id .countedLoop span
    let domain := (Domain.ofExpr? l.constants source target).toOption
    let (body, id, violations) := lowerAll (l.inside info) body (id + 1)
    (.forIn info target source body domain .primitive, id, violations)
  | .whileDo condition body span, id =>
    let info := l.opened id .conditionalLoop span
    let (body, id, violations) := lowerAll (l.inside info) body (id + 1)
    (.whileDo info condition body, id, violations)

def lowerArms (l : Lowering) : List Arm → Nat → List FlowArm × Nat × List Violation
  | [], id => ([], id, [])
  | ⟨condition, body, _⟩ :: rest, id =>
    let (body, id, inBody) := lowerAll l body id
    let (rest, id, inRest) := lowerArms l rest id
    (⟨condition, body⟩ :: rest, id, inBody ++ inRest)

def lowerAll (l : Lowering) : List Stmt → Nat → List FlowStmt × Nat × List Violation
  | [], id => ([], id, [])
  | s :: rest, id =>
    let (s, id, inFirst) := s.lower l id
    let (rest, id, inRest) := lowerAll l rest id
    (s :: rest, id, inFirst ++ inRest)

end

mutual

/-- The loops in a statement, each with its target and its source. -/
def Stmt.loops : Stmt → List (Target × Expr)
  | .act _ _ => []
  | .choose arms otherwise _ =>
    armsLoops arms ++
      (match otherwise with
      | some body => loopsIn body
      | none => [])
  | .forIn target source body _ => (target, source) :: loopsIn body
  | .whileDo _ body _ => loopsIn body

def armsLoops : List Arm → List (Target × Expr)
  | [] => []
  | ⟨_, body, _⟩ :: rest => loopsIn body ++ armsLoops rest

def loopsIn : List Stmt → List (Target × Expr)
  | [] => []
  | s :: rest => s.loops ++ loopsIn rest

end

namespace Lowering

/-- The crash in which the source of a loop is looked at, whether or not the loop ever runs. -/
def crash? (l : Lowering) (body : List Stmt) : Option Crash :=
  (loopsIn body).findSome? fun (target, source) =>
    (Domain.ofExpr? l.constants source target).crash?

/-- Statements with their blocks numbered from `id` on, the next number, and what is wrong. -/
def lower (l : Lowering) (body : List Stmt) (id : Nat) :
    Except (Halt (List Violation)) (List FlowStmt × Nat × List Violation) :=
  match l.crash? body with
  | some reason => .error (.crash reason)
  | none => .ok (lowerAll l body id)

end Lowering

/-! ## Loops -/

/-- Why a loop over a domain stays on the host. -/
def Domain.hostReason? (d : Domain) : Option String :=
  if d.kind.isConvertible then none else some d.reason

namespace FlowStmt

mutual

/-- A statement whose loops over what the graph cannot iterate stay on the host. -/
def settled : FlowStmt → FlowStmt
  | act action span => act action span
  | cond info arms otherwise =>
    cond info (settledArms arms)
      (match otherwise with
      | some body => some (settledAll body)
      | none => none)
  | forIn info target source body domain strategy =>
    forIn info target source (settledAll body) domain
      (match domain.bind Domain.hostReason? with
      | some reason => .host reason
      | none => strategy)
  | whileDo info condition body => whileDo info condition (settledAll body)

def settledArms : List FlowArm → List FlowArm
  | [] => []
  | ⟨condition, body⟩ :: rest => ⟨condition, settledAll body⟩ :: settledArms rest

def settledAll : List FlowStmt → List FlowStmt
  | [] => []
  | s :: rest => s.settled :: settledAll rest

end

/-- A loop that stays on the host, with the reason. -/
def hostLoop? : FlowStmt → Option (BlockInfo × String)
  | forIn info _ _ _ domain _ => (domain.bind Domain.hostReason?).map fun reason => (info, reason)
  | _ => none

end FlowStmt

/-- The warning on a loop that stays on the host. -/
def BlockInfo.domainFallback (b : BlockInfo) (reason : String) : Diagnostic :=
  ⟨.domain, b.kind, b.location, reason, []⟩

/-! ## Functions -/

/-- What a conversion comes to, and how many warnings it gave. -/
structure Conversion where
  result : Except (Halt (List Violation)) FlowFunction
  warnings : Nat

namespace FunctionDef

/-- What the folded body of a function is numbered with. -/
def lowering (f : FunctionDef) : Lowering :=
  ⟨f, constantNames f.params (foldAll f.body), none⟩

/-- The body of a function, folded and with its blocks numbered, and what is wrong. -/
def lower (f : FunctionDef) :
    Except (Halt (List Violation)) (List FlowStmt × Nat × List Violation) :=
  match constantCrash? f.params (foldAll f.body) with
  | some reason => .error (.crash reason)
  | none => f.lowering.lower (foldAll f.body) 0

/-- The conversion of a function from its numbered body. -/
def analysed (f : FunctionDef) (options : Options) (body : List FlowStmt)
    (misplaced : List Violation) : Conversion :=
  let analysis := Analysis.of (f.params.map Param.name) body
  let (body, _, mistyped) := FlowStmt.typedAll (analysis.annotate body) (.ofParams f.params)
  let hostLoops := (FlowStmt.blocksOf body).filterMap FlowStmt.hostLoop?
  let unconvertible := hostLoops.map fun (b, reason) => ⟨.iteration reason, b.kind, b.location⟩
  let errors := misplaced ++ analysis.errors ++
    (if options.strict then mistyped ++ unconvertible else [])
  let diagnostics :=
    if options.strict || options.quiet then []
    else hostLoops.map fun (b, reason) => b.domainFallback reason
  let body := FlowStmt.settledAll body
  { result :=
      if errors.isEmpty then
        .ok ⟨f.name, f.file, f.params, body, flowText f.name f.params body, diagnostics⟩
      else .error (.error errors)
    warnings := diagnostics.length }

/-- Convert a function. -/
def convert (f : FunctionDef) (options : Options) : Conversion :=
  match f.lower with
  | .error h => ⟨.error h, 0⟩
  | .ok (body, _, misplaced) => f.analysed options body misplaced

end FunctionDef

end StagedFlow
