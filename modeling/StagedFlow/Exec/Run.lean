import StagedFlow.Exec.Attempt
import StagedFlow.Exec.Expr
import StagedFlow.Exec.Iteration
import StagedFlow.Flow.Typing

/-!
Running converted functions. Actions work on the host; a block whose predicate or whose elements
are placeholders is handed to the primitive of its kind, and runs on the host when that fails. Main
definitions: `Mode`, `Setting`, `Setting.run`, `Setting.call`.
-/
set_option autoImplicit false

namespace StagedFlow

/-- Whether blocks go into the graph where they can, or all run on the host. -/
inductive Mode
  | staged
  | eager
  deriving Repr, DecidableEq

/-- How control leaves a statement. -/
inductive Exit
  | next
  | ret (v : Value)

/-- A step of a run. -/
abbrev Exec := Tracer.Traced Journal RunError

namespace Exec

variable {α : Type}

def ofEval (x : Eval α) : Exec α :=
  Step.onFirst x

def ofTracer (x : Step Tracer Fault α) : Exec α :=
  Step.onFirst (x.mapError .fault)

def ofExcept (x : Except RunError α) : Exec α :=
  ofEval (Eval.ofExcept x)

/-- How many warnings there are now. -/
def mark : Exec Nat :=
  fun s => (.ok s.2.diagnostics.length, s)

/-- Replace the warnings since a mark by one. -/
def replaceWarnings (options : Options) (mark : Nat) (d : Diagnostic) : Exec Unit :=
  Step.modify fun (t, j) => (t, (j.rewind mark).report options d)

def warn (options : Options) (d : Diagnostic) : Exec Unit :=
  Step.modify fun (t, j) => (t, j.report options d)

end Exec

/-- A violation at a block. -/
def BlockInfo.violation (b : BlockInfo) (kind : ViolationKind) : RunError :=
  .violations [⟨kind, b.kind, b.location⟩]

/-- What stays the same during a run. -/
structure Setting where
  function : FlowFunction
  options : Options
  mode : Mode

namespace Setting

/-- The place of a statement, as errors name it. -/
def locate (c : Setting) (span : Span) : Location :=
  ⟨c.function.file, c.function.name, span.startLine, none⟩

/-- Strict runs refuse values without a form in the graph. -/
def checkInputs (c : Setting) (b : BlockInfo) (names : List String) (values : List Value) :
    Except RunError Unit :=
  if c.options.strict then
    match (names.zip values).findSome? fun (name, v) => checkInitial? name v with
    | some kind => .error (b.violation kind)
    | none => .ok ()
  else .ok ()

/-- What is wrong with a variable that leaves a block. -/
def outputViolation? (outputs : List String) (values : List Value) (name : String)
    (initial : Value) : Option ViolationKind := do
  let inside ← Bindings.find? (outputs.zip values) name
  checkCarried? name initial inside

/-- Strict runs refuse variables that leave a block with another class than they came with. -/
def checkOutputs (c : Setting) (b : BlockInfo) (inputs : List String) (init : List Value)
    (outputs : List String) (values : List Value) : Except RunError Unit :=
  if c.options.strict then
    match (inputs.zip init).findSome? fun (name, v) => outputViolation? outputs values name v with
    | some kind => .error (b.violation kind)
    | none => .ok ()
  else .ok ()

/-- The values that enter a block. -/
def entering (c : Setting) (b : BlockInfo) (env : Env) : Exec (List Value) := do
  let init ← Exec.ofExcept (env.collect b.inputs)
  Exec.ofExcept (c.checkInputs b b.inputs init)
  return init

/-- The values that leave a part of a block, which was entered with `init`. -/
def leaving (c : Setting) (b : BlockInfo) (init : List Value) (outputs : List String) (env : Env) :
    Exec (List Value) := do
  let values ← Exec.ofExcept (env.collect outputs)
  Exec.ofExcept (c.checkOutputs b b.inputs init outputs values)
  return values

/-- Carry out an action. -/
def act (c : Setting) (span : Span) (env : Env) : Action → Exec (Exit × Env)
  | .assign target value => do
    let v ← Exec.ofEval (value.eval env)
    let env ← Exec.ofTracer (target.assign v env)
    return (.next, env)
  | .update name op value => do
    let current ← Exec.ofExcept (env.lookup name)
    let v ← Exec.ofEval (value.eval env)
    let result ← Exec.ofTracer (Tracer.apply (.binary op) [current, v])
    return (.next, Bindings.insert env name result)
  | .eval expr => do
    let _ ← Exec.ofEval (expr.eval env)
    return (.next, env)
  | .ret (some value) => do
    let v ← Exec.ofEval (value.eval env)
    return (.ret v, env)
  | .ret none => return (.ret .none, env)
  | .raise message => Step.fail (.raised message (c.locate span))
  | .pass => return (.next, env)

mutual

/-- Run statements until one returns. -/
def run (c : Setting) : Nat → Option FaultPlan → List FlowStmt → Env → Exec (Exit × Env)
  | 0, _, _, _ => Step.halt .outOfFuel
  | _ + 1, _, [], env => return (.next, env)
  | n + 1, plan, s :: rest, env => do
    let (exit, env) ← c.runStmt n plan s env
    match exit with
    | .ret v => return (.ret v, env)
    | .next => c.run n plan rest env

def runStmt (c : Setting) : Nat → Option FaultPlan → FlowStmt → Env → Exec (Exit × Env)
  | 0, _, _, _ => Step.halt .outOfFuel
  | n + 1, plan, s, env =>
    match s with
    | .act action span => c.act span env action
    | .cond info arms otherwise => do
      let env ← c.runArms n plan info arms otherwise env
      return (.next, env)
    | .forIn info target source body _ strategy => do
      let env ← c.runFor n plan info target source body strategy env
      return (.next, env)
    | .whileDo info condition body => do
      let env ← c.runWhile n plan info condition body env
      return (.next, env)

/-- Run the body of a block; what it returns is dropped, for a block cannot be left early. -/
def runBody (c : Setting) : Nat → Option FaultPlan → List FlowStmt → Env → Exec Env
  | 0, _, _, _ => Step.halt .outOfFuel
  | n + 1, plan, body, env => do
    let (_, env) ← c.run n plan body env
    return env

/-- Run a conditional from an arm on; the later arms are the other side of its predicate. -/
def runArms (c : Setting) : Nat → Option FaultPlan → BlockInfo → List FlowArm →
    Option (List FlowStmt) → Env → Exec Env
  | 0, _, _, _, _, _ => Step.halt .outOfFuel
  | n + 1, plan, info, arms, otherwise, env =>
    match arms with
    | [] =>
      match otherwise with
      | some body => c.runBody n plan body env
      | none => return env
    | arm :: rest => do
      let predicate ← Exec.ofEval (arm.condition.eval env)
      if c.mode = .eager || !predicate.isTraced then
        c.chooseArm n plan info arm rest otherwise predicate env
      else
        let init ← c.entering info env
        let mark ← Exec.mark
        let result ← info.attempt c.options.strict <| FaultPlan.intercept plan .cond <|
          Tracer.cond predicate init
            (fun args => do
              let env ← c.runBody n none arm.body (Bindings.insertAll env info.inputs args)
              c.leaving info init info.outputs env)
            (fun args => do
              let env ←
                c.runArms n none info rest otherwise (Bindings.insertAll env info.inputs args)
              c.leaving info init info.outputs env)
        match result with
        | .committed values => return Bindings.insertAll env info.outputs values
        | .fallback d =>
          Exec.replaceWarnings c.options mark d
          c.chooseArm n plan info arm rest otherwise predicate env

/-- Choose between an arm and the later ones by the truth of its predicate. -/
def chooseArm (c : Setting) : Nat → Option FaultPlan → BlockInfo → FlowArm → List FlowArm →
    Option (List FlowStmt) → Value → Env → Exec Env
  | 0, _, _, _, _, _, _, _ => Step.halt .outOfFuel
  | n + 1, plan, info, arm, rest, otherwise, predicate, env => do
    let truth ← Exec.ofEval (Eval.ofFault predicate.truthy)
    if truth then c.runBody n plan arm.body env
    else c.runArms n plan info rest otherwise env

/-- Run a counted loop. -/
def runFor (c : Setting) : Nat → Option FaultPlan → BlockInfo → Target → Expr → List FlowStmt →
    Strategy → Env → Exec Env
  | 0, _, _, _, _, _, _, _ => Step.halt .outOfFuel
  | n + 1, plan, info, target, source, body, strategy, env => do
    let items ← Exec.ofEval (source.eval env)
    if c.mode = .eager || strategy != .primitive then
      c.hostFor n plan target body items env
    else
      let domain ← Exec.ofEval (Eval.ofOutcome (Domain.classify items target))
      if domain.kind.isConvertible then
        let (range, elements) ← Exec.ofEval (Eval.ofOutcome items.loopRange)
        let init ← c.entering info env
        let mark ← Exec.mark
        let result ← info.attempt c.options.strict <| FaultPlan.intercept plan .forLoop <|
          Tracer.forLoop range init fun index carried => do
            let env := Bindings.insertAll env info.inputs carried
            let item ← Exec.ofTracer (elements.element index)
            let env ← Exec.ofTracer (target.assign item env)
            let env ← c.runBody n none body env
            c.leaving info init info.inputs env
        match result with
        | .committed values => return Bindings.insertAll env info.inputs values
        | .fallback d =>
          Exec.replaceWarnings c.options mark d
          c.hostFor n plan target body items env
      else if c.options.strict then Step.fail (info.violation (.iteration domain.reason))
      else
        Exec.warn c.options ⟨.domain, info.kind, info.location, domain.reason, []⟩
        c.hostFor n plan target body items env

/-- Run a counted loop on the host. -/
def hostFor (c : Setting) : Nat → Option FaultPlan → Target → List FlowStmt → Value → Env →
    Exec Env
  | 0, _, _, _, _, _ => Step.halt .outOfFuel
  | n + 1, plan, target, body, items, env => do
    let feed ← Exec.ofTracer (Feed.of items)
    c.hostEach n plan target body feed env

/-- Run a body for each item that is still to come. -/
def hostEach (c : Setting) : Nat → Option FaultPlan → Target → List FlowStmt → Feed → Env →
    Exec Env
  | 0, _, _, _, _, _ => Step.halt .outOfFuel
  | n + 1, plan, target, body, feed, env =>
    match feed.next? with
    | none => return env
    | some (item, feed) => do
      let env ← Exec.ofTracer (target.assign item env)
      let env ← c.runBody n plan body env
      c.hostEach n plan target body feed env

/-- Run a conditional loop. -/
def runWhile (c : Setting) : Nat → Option FaultPlan → BlockInfo → Expr → List FlowStmt → Env →
    Exec Env
  | 0, _, _, _, _, _ => Step.halt .outOfFuel
  | n + 1, plan, info, condition, body, env =>
    if c.mode = .eager then c.hostWhile n plan condition body env
    else do
      let init ← c.entering info env
      let mark ← Exec.mark
      let result ← info.attempt c.options.strict <| FaultPlan.intercept plan .whileLoop <|
        Tracer.whileLoop init
          (fun args => Exec.ofEval (condition.eval (Bindings.insertAll env info.inputs args)))
          (fun args => do
            let env ← c.runBody n none body (Bindings.insertAll env info.inputs args)
            c.leaving info init info.inputs env)
      match result with
      | .committed values => return Bindings.insertAll env info.inputs values
      | .fallback d =>
        Exec.replaceWarnings c.options mark d
        c.hostWhile n plan condition body env

/-- Run a conditional loop on the host. -/
def hostWhile (c : Setting) : Nat → Option FaultPlan → Expr → List FlowStmt → Env → Exec Env
  | 0, _, _, _, _ => Step.halt .outOfFuel
  | n + 1, plan, condition, body, env => do
    let predicate ← Exec.ofEval (condition.eval env)
    let truth ← Exec.ofEval (Eval.ofFault predicate.truthy)
    if truth then do
      let env ← c.runBody n plan body env
      c.hostWhile n plan condition body env
    else return env

end

/-- Call the function with arguments; without a `return` the result is none. -/
def call (c : Setting) (fuel : Nat) (plan : Option FaultPlan) (args : List Value) : Exec Value :=
  let params := c.function.params.map Param.name
  if args.length = params.length then do
    let (exit, _) ← c.run fuel plan c.function.body (Bindings.insertAll [] params args)
    match exit with
    | .ret v => return v
    | .next => return .none
  else
    Step.fail (.fault (.type (.argumentCount c.function.name params.length args.length)))

end Setting

end StagedFlow
