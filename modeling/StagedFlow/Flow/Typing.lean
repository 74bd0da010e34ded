import StagedFlow.Flow.Block
import StagedFlow.TypeClass.Infer

/-!
Classes of the variables that blocks carry. Walking through a converted function gives each carried
variable the class that it comes with and those that the block makes, and finds the variables whose
class changes. Main definitions: `BlockInfo.finish`, `FlowStmt.typed`, `FlowStmt.typedAll`, and for
the run of the program `checkInitial?` and `checkCarried?`.
-/
set_option autoImplicit false

namespace StagedFlow

namespace TypeEnv

/-- Bind a target to a value of a class; nothing is known of the parts of a sequence. -/
def bind (env : TypeEnv) (target : Target) (cls : TypeClass) : TypeEnv :=
  match target with
  | .name n => Bindings.insert env n cls
  | .tuple items => (Target.namesOf items).foldl (fun env n => Bindings.insert env n .unknown) env

/-- Bind several targets to values of known classes. -/
def bindAll (env : TypeEnv) : List Target → List TypeClass → TypeEnv
  | t :: ts, c :: cs => bindAll (env.bind t c) ts cs
  | _, _ => env

/-- Bind the target of a loop to an element of its domain. -/
def bindElement (env : TypeEnv) (target : Target) : Option Domain → TypeEnv
  | none => env.bind target .unknown
  | some domain =>
    match target, domain.firstNumber with
    | .tuple [number, element], some _ =>
      (env.bind number (.scalar .int)).bind element domain.element
    | .name n, some _ => env.bind (.name n) (.host "tuple")
    | _, _ => env.bind target domain.element

/-- The classes after an action. -/
def act (env : TypeEnv) : Action → TypeEnv
  | .assign target value =>
    match target, value with
    | .tuple targets, .tuple values =>
      if targets.length = values.length then env.bindAll targets (Expr.typeClasses env values)
      else env.bind target (value.typeClass env)
    | _, _ => env.bind target (value.typeClass env)
  | .update name op value =>
    Bindings.insert env name (.binary op (env.classOf name) (value.typeClass env))
  | _ => env

end TypeEnv

namespace CarriedVar

/-- A carried variable with its class before the block and at the end of each branch or body. -/
def withClasses (v : CarriedVar) (entry : TypeEnv) (outcomes : List TypeEnv) : CarriedVar :=
  { v with
    initial := if v.declaredBefore then entry.classOf v.name else .unknown
    produced := outcomes.map fun env => env.classOf v.name }

/-- Whether all neighbours in a list are compatible. -/
def chained : List TypeClass → Bool
  | a :: b :: rest => a.compatible b && chained (b :: rest)
  | _ => true

/-- What is wrong with the classes of a carried variable. -/
def violation? (v : CarriedVar) : Option ViolationKind :=
  if v.observed then
    match v.initial with
    | .host typeName => some (.unrepresentable v.name typeName)
    | initial =>
      (v.produced.find? fun c => !initial.compatible c).map fun inside =>
        .wrongType v.name initial.text inside.text
  else if chained (v.produced.filter TypeClass.isKnown) then none
  else some (.branchTypes v.name (v.produced.map TypeClass.text))

/-- The class of the variable after the block. -/
def merged (v : CarriedVar) : TypeClass :=
  v.produced.foldl TypeClass.join
    (if v.observed then v.initial else v.produced.headD .unknown)

end CarriedVar

/-- A block with the classes of its variables, the classes after it, and what is wrong. The block
was entered with `entry`, and `outcomes` are the classes at the end of each branch or body. -/
def BlockInfo.finish (b : BlockInfo) (entry : TypeEnv) (outcomes : List TypeEnv) :
    BlockInfo × TypeEnv × List Violation :=
  let carried := b.carried.map (·.withClasses entry outcomes)
  let env := carried.foldl (fun env v => Bindings.insert env v.name v.merged) entry
  let violations := (carried.filterMap CarriedVar.violation?).map fun kind =>
    ⟨kind, b.kind, b.location⟩
  ({ b with carried }, b.temporaries.foldl Bindings.erase env, violations)

namespace FlowStmt

mutual

/-- A statement with the classes of its carried variables, the classes after it, and what is
wrong. -/
def typed : FlowStmt → TypeEnv → FlowStmt × TypeEnv × List Violation
  | act action span, env => (act action span, env.act action, [])
  | cond info arms otherwise, env =>
    let (arms, outcomes, inArms) := typedArms arms env
    let (otherwise, last, inLast) := match otherwise with
      | some body =>
        let (body, out, violations) := typedAll body env
        (some body, out, violations)
      | none => (none, env, [])
    let (info, env, found) := info.finish env (outcomes ++ [last])
    (cond info arms otherwise, env, inArms ++ inLast ++ found)
  | forIn info target source body domain strategy, env =>
    let (body, out, inBody) := typedAll body (env.bindElement target domain)
    let (info, env, found) := info.finish env [out]
    (forIn info target source body domain strategy, env, inBody ++ found)
  | whileDo info condition body, env =>
    let (body, out, inBody) := typedAll body env
    let (info, env, found) := info.finish env [out]
    (whileDo info condition body, env, inBody ++ found)

def typedArms : List FlowArm → TypeEnv → List FlowArm × List TypeEnv × List Violation
  | [], _ => ([], [], [])
  | ⟨condition, body⟩ :: rest, env =>
    let (body, out, inBody) := typedAll body env
    let (arms, outcomes, inRest) := typedArms rest env
    (⟨condition, body⟩ :: arms, out :: outcomes, inBody ++ inRest)

def typedAll : List FlowStmt → TypeEnv → List FlowStmt × TypeEnv × List Violation
  | [], env => ([], env, [])
  | s :: rest, env =>
    let (s, env, inFirst) := s.typed env
    let (rest, env, inRest) := typedAll rest env
    (s :: rest, env, inFirst ++ inRest)

end

end FlowStmt

/-- The classes that the parameters of a function promise. -/
def TypeEnv.ofParams (params : List Param) : TypeEnv :=
  params.foldl (fun env p => Bindings.insert env p.name (.ofParam p)) []

/-! ## While the program runs -/

/-- What is wrong with the value that a variable enters a block with. -/
def checkInitial? (name : String) (v : Value) : Option ViolationKind :=
  match TypeClass.ofValue v with
  | .host typeName => some (.unrepresentable name typeName)
  | _ => none

/-- What is wrong with the value that a variable leaves a block with. -/
def checkCarried? (name : String) (initial inside : Value) : Option ViolationKind :=
  let before := TypeClass.ofValue initial
  let after := TypeClass.ofValue inside
  if before.compatible after then none else some (.wrongType name before.text after.text)

end StagedFlow
