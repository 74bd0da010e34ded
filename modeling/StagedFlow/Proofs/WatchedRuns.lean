import StagedFlow.Proofs.Availability
import StagedFlow.Proofs.Constants

/-!
Runs under watch. Runs are written out once more, with two hooks: one in the place of the failure
where a name that enters or leaves a block has no value, and one in the place of a loop whose source
turns out to have another domain than the one that was found before the run. In a converted function
there is always a value, and every source has its domain, so the hooks make no difference, be they
crashes, which nothing in a run handles. Main definitions: `Watch`, `Setting.runWatched`,
`Setting.callWatched`, `Setting.callOr`, `Setting.callUnless`, `Setting.Unaffected`. Main results:
`Setting.unaffected`, `Setting.callWatched_eq_call`, `Setting.callOr_eq_call`,
`Setting.callUnless_eq_call`.
-/
set_option autoImplicit false

namespace StagedFlow

/-! ## Steps that coincide -/

/-- Steps that go on in the same way from all that `x` returns. -/
theorem Step.Delivers.bind_congr {σ ε α β : Type} {x : Step σ ε α} {f g : α → Step σ ε β}
    {Q : α → Prop} (hx : x.Delivers Q) (h : ∀ a, Q a → f a = g a) : x >>= f = x >>= g := by
  funext s
  rcases hxs : x s with ⟨e | a, s'⟩
  · rw [Step.bind_of_error hxs, Step.bind_of_error hxs]
  · rw [Step.bind_of_ok hxs, Step.bind_of_ok hxs, h a (hx s a s' hxs)]

theorem Step.Delivers.bind_congr_and {σ ε α β : Type} {x : Step σ ε α} {f g : α → Step σ ε β}
    {P Q : α → Prop} (hx : x.Delivers P) (hy : x.Delivers Q)
    (h : ∀ a, P a → Q a → f a = g a) : x >>= f = x >>= g :=
  bind_congr (Q := fun a => P a ∧ Q a) (fun s a s' ha => ⟨hx s a s' ha, hy s a s' ha⟩)
    fun a ha => h a ha.1 ha.2

namespace Step

variable {σ ε α β : Type}

/-- Two steps are the same, and what they return has the property `Q`. -/
structure Coincide (x y : Step σ ε α) (Q : α → Prop) : Prop where
  eq : x = y
  delivers : y.Delivers Q

namespace Coincide

variable {x y : Step σ ε α} {f g : α → Step σ ε β} {Q : α → Prop} {R : β → Prop}

theorem pure {a : α} (h : Q a) : Coincide (Pure.pure a : Step σ ε α) (Pure.pure a) Q :=
  ⟨rfl, .pure h⟩

theorem halt {h : Halt ε} : Coincide (Step.halt h : Step σ ε α) (Step.halt h) Q :=
  ⟨rfl, .halt⟩

theorem bind (hx : Coincide x y Q) (hf : ∀ a, Q a → Coincide (f a) (g a) R) :
    Coincide (x >>= f) (y >>= g) R := by
  refine ⟨?_, hx.delivers.bind fun a ha => (hf a ha).delivers⟩
  rw [hx.eq]
  exact hx.delivers.bind_congr fun a ha => (hf a ha).eq

/-- More may be known of what both steps return. -/
theorem and {P : α → Prop} (hx : Coincide x y Q) (hy : y.Delivers P) :
    Coincide x y fun a => Q a ∧ P a :=
  ⟨hx.eq, fun s a s' h => ⟨hx.delivers s a s' h, hy s a s' h⟩⟩

/-- Both steps may start with one of which nothing has to be known. -/
theorem bind_any (hf : ∀ a, Coincide (f a) (g a) R) : Coincide (x >>= f) (x >>= g) R :=
  bind (Q := fun _ => True) ⟨rfl, fun _ _ _ _ => trivial⟩ fun a _ => hf a

end Coincide

end Step

/-! ## Watched runs -/

/-- What is done where a run goes wrong in a way that a conversion rules out. -/
structure Watch where
  /-- Some of the names have no value. -/
  missing : List String → Env → RunError → Exec (List Value)
  /-- A loop was taken for one over a domain, but runs over the value. -/
  mistaken : Domain → Value → Exec Env → Exec Env

namespace Watch

/-- The runs as they are. -/
def idle : Watch where
  missing _ _ e := Exec.ofExcept (.error e)
  mistaken _ _ loop := loop

variable (w : Watch)

/-- The values of several names. -/
def collect (names : List String) (env : Env) : Exec (List Value) :=
  match env.collect names with
  | .ok values => return values
  | .error e => w.missing names env e

/-- Go on with a loop, unless its source was taken for something else before the run. The entries
of a dictionary always are: they come as a list. -/
def loop (target : Target) (source : Expr) (domain : Option Domain) (items : Value)
    (loop : Exec Env) : Exec Env :=
  match domain with
  | some d =>
    if source.listsEntries = false ∧ (Domain.classify items target).toOption ≠ some d then
      w.mistaken d items loop
    else loop
  | none => loop

end Watch

namespace Setting

section Definitions

variable (w : Watch)

def enteringWatched (c : Setting) (b : BlockInfo) (env : Env) : Exec (List Value) := do
  let init ← w.collect b.inputs env
  Exec.ofExcept (c.checkInputs b b.inputs init)
  return init

def leavingWatched (c : Setting) (b : BlockInfo) (init : List Value) (outputs : List String)
    (env : Env) : Exec (List Value) := do
  let values ← w.collect outputs env
  Exec.ofExcept (c.checkOutputs b b.inputs init outputs values)
  return values

mutual

/-- Run statements until one returns, under watch. -/
def runWatched (c : Setting) : Nat → Option FaultPlan → List FlowStmt → Env → Exec (Exit × Env)
  | 0, _, _, _ => Step.halt .outOfFuel
  | _ + 1, _, [], env => return (.next, env)
  | n + 1, plan, s :: rest, env => do
    let (exit, env) ← c.runStmtWatched n plan s env
    match exit with
    | .ret v => return (.ret v, env)
    | .next => c.runWatched n plan rest env

def runStmtWatched (c : Setting) : Nat → Option FaultPlan → FlowStmt → Env → Exec (Exit × Env)
  | 0, _, _, _ => Step.halt .outOfFuel
  | n + 1, plan, s, env =>
    match s with
    | .act action span => c.act span env action
    | .cond info arms otherwise => do
      let env ← c.runArmsWatched n plan info arms otherwise env
      return (.next, env)
    | .forIn info target source body domain strategy => do
      let env ← c.runForWatched n plan info target source body domain strategy env
      return (.next, env)
    | .whileDo info condition body => do
      let env ← c.runWhileWatched n plan info condition body env
      return (.next, env)

def runBodyWatched (c : Setting) : Nat → Option FaultPlan → List FlowStmt → Env → Exec Env
  | 0, _, _, _ => Step.halt .outOfFuel
  | n + 1, plan, body, env => do
    let (_, env) ← c.runWatched n plan body env
    return env

def runArmsWatched (c : Setting) : Nat → Option FaultPlan → BlockInfo → List FlowArm →
    Option (List FlowStmt) → Env → Exec Env
  | 0, _, _, _, _, _ => Step.halt .outOfFuel
  | n + 1, plan, info, arms, otherwise, env =>
    match arms with
    | [] =>
      match otherwise with
      | some body => c.runBodyWatched n plan body env
      | none => return env
    | arm :: rest => do
      let predicate ← Exec.ofEval (arm.condition.eval env)
      if c.mode = .eager || !predicate.isTraced then
        c.chooseArmWatched n plan info arm rest otherwise predicate env
      else do
        let init ← c.enteringWatched w info env
        c.tried info
          (FaultPlan.intercept plan .cond <| Tracer.cond predicate init
            (fun args => do
              let env ← c.runBodyWatched n none arm.body (Bindings.insertAll env info.inputs args)
              c.leavingWatched w info init info.outputs env)
            (fun args => do
              let env ← c.runArmsWatched n none info rest otherwise
                (Bindings.insertAll env info.inputs args)
              c.leavingWatched w info init info.outputs env))
          (Bindings.insertAll env info.outputs)
          (c.chooseArmWatched n plan info arm rest otherwise predicate env)

def chooseArmWatched (c : Setting) : Nat → Option FaultPlan → BlockInfo → FlowArm →
    List FlowArm → Option (List FlowStmt) → Value → Env → Exec Env
  | 0, _, _, _, _, _, _, _ => Step.halt .outOfFuel
  | n + 1, plan, info, arm, rest, otherwise, predicate, env => do
    let truth ← Exec.ofEval (Eval.ofFault predicate.truthy)
    if truth then c.runBodyWatched n plan arm.body env
    else c.runArmsWatched n plan info rest otherwise env

def runForWatched (c : Setting) : Nat → Option FaultPlan → BlockInfo → Target → Expr →
    List FlowStmt → Option Domain → Strategy → Env → Exec Env
  | 0, _, _, _, _, _, _, _, _ => Step.halt .outOfFuel
  | n + 1, plan, info, target, source, body, domain, strategy, env => do
    let items ← Exec.ofEval (source.eval env)
    w.loop target source domain items <|
      if c.mode = .eager || strategy != .primitive then
        c.hostForWatched n plan target body items env
      else do
        let found ← Exec.ofEval (Eval.ofOutcome (Domain.classify items target))
        if found.kind.isConvertible then do
          let loop ← Exec.ofEval (Eval.ofOutcome items.loopRange)
          let init ← c.enteringWatched w info env
          c.tried info
            (FaultPlan.intercept plan .forLoop <| Tracer.forLoop loop.1 init fun index carried => do
              let item ← Exec.ofTracer (loop.2.element index)
              let env ←
                Exec.ofTracer (target.assign item (Bindings.insertAll env info.inputs carried))
              let env ← c.runBodyWatched n none body env
              c.leavingWatched w info init info.inputs env)
            (Bindings.insertAll env info.inputs)
            (c.hostForWatched n plan target body items env)
        else if c.options.strict then Step.fail (info.violation (.iteration found.reason))
        else do
          Exec.warn c.options ⟨.domain, info.kind, info.location, found.reason, []⟩
          c.hostForWatched n plan target body items env

def hostForWatched (c : Setting) : Nat → Option FaultPlan → Target → List FlowStmt → Value → Env →
    Exec Env
  | 0, _, _, _, _, _ => Step.halt .outOfFuel
  | n + 1, plan, target, body, items, env => do
    let feed ← Exec.ofTracer (Feed.of items)
    c.hostEachWatched n plan target body feed env

def hostEachWatched (c : Setting) : Nat → Option FaultPlan → Target → List FlowStmt → Feed → Env →
    Exec Env
  | 0, _, _, _, _, _ => Step.halt .outOfFuel
  | n + 1, plan, target, body, feed, env =>
    match feed.next? with
    | none => return env
    | some (item, feed) => do
      let env ← Exec.ofTracer (target.assign item env)
      let env ← c.runBodyWatched n plan body env
      c.hostEachWatched n plan target body feed env

def runWhileWatched (c : Setting) : Nat → Option FaultPlan → BlockInfo → Expr → List FlowStmt →
    Env → Exec Env
  | 0, _, _, _, _, _ => Step.halt .outOfFuel
  | n + 1, plan, info, condition, body, env =>
    if c.mode = .eager then c.hostWhileWatched n plan condition body env
    else do
      let init ← c.enteringWatched w info env
      c.tried info
        (FaultPlan.intercept plan .whileLoop <| Tracer.whileLoop init
          (fun args => Exec.ofEval (condition.eval (Bindings.insertAll env info.inputs args)))
          (fun args => do
            let env ← c.runBodyWatched n none body (Bindings.insertAll env info.inputs args)
            c.leavingWatched w info init info.inputs env))
        (Bindings.insertAll env info.inputs)
        (c.hostWhileWatched n plan condition body env)

def hostWhileWatched (c : Setting) : Nat → Option FaultPlan → Expr → List FlowStmt → Env → Exec Env
  | 0, _, _, _, _ => Step.halt .outOfFuel
  | n + 1, plan, condition, body, env => do
    let predicate ← Exec.ofEval (condition.eval env)
    let truth ← Exec.ofEval (Eval.ofFault predicate.truthy)
    if truth then do
      let env ← c.runBodyWatched n plan body env
      c.hostWhileWatched n plan condition body env
    else return env

end

/-- Call the function under watch. -/
def callWatched (c : Setting) (fuel : Nat) (plan : Option FaultPlan) (args : List Value) :
    Exec Value :=
  let params := c.function.params.map Param.name
  if args.length = params.length then do
    let (exit, _) ← c.runWatched w fuel plan c.function.body (Bindings.insertAll [] params args)
    match exit with
    | .ret v => return v
    | .next => return .none
  else
    Step.fail (.fault (.type (.argumentCount c.function.name params.length args.length)))

end Definitions

/-- Call the function, with `missing` where a name that enters or leaves a block has no value. -/
def callOr (missing : List String → Env → Exec (List Value)) (c : Setting) (fuel : Nat)
    (plan : Option FaultPlan) (args : List Value) : Exec Value :=
  c.callWatched { Watch.idle with missing := fun names env _ => missing names env } fuel plan args

/-- Call the function, with `mistaken` in the place of a loop that runs over something else than it
was taken for. -/
def callUnless (mistaken : Domain → Value → Exec Env) (c : Setting) (fuel : Nat)
    (plan : Option FaultPlan) (args : List Value) : Exec Value :=
  c.callWatched { Watch.idle with mistaken := fun d items _ => mistaken d items } fuel plan args

variable {c : Setting} {w : Watch} {consts : Constants} {n : Nat}

/-! ## Names with values -/

theorem collect_of_binds {names : List String} {env : Env} (h : ∀ x ∈ names, env.Binds x) :
    w.collect names env = Exec.ofExcept (env.collect names) := by
  obtain ⟨values, hvalues⟩ := Env.collect_of_binds h
  rw [Watch.collect, hvalues]
  rfl

theorem enteringWatched_of_binds {info : BlockInfo} {env : Env}
    (h : ∀ x ∈ info.inputs, env.Binds x) : c.enteringWatched w info env = c.entering info env := by
  rw [enteringWatched, entering, collect_of_binds h]

/-- Values leave a part of a block whose end has them all. -/
theorem leavingWatched_after {info : BlockInfo} {init : List Value} {outputs : List String}
    {part watched : Exec Env} (heq : watched = part)
    (h : part.Delivers fun env => ∀ x ∈ outputs, env.Binds x) :
    (do
      let env ← watched
      c.leavingWatched w info init outputs env) =
    (do
      let env ← part
      c.leaving info init outputs env) := by
  rw [heq]
  refine h.bind_congr fun env henv => ?_
  rw [leavingWatched, leaving, collect_of_binds henv]

/-! ## Runs -/

/-- A block that is attempted and run by the host alike. -/
theorem coincide_tried {info : BlockInfo}
    {call call' : Tracer.Traced Journal (Failure RunError) (List Value)}
    {commit : List Value → Env} {host host' : Exec Env} {Q : Env → Prop} (hcall : call = call')
    (hcommit : ∀ values, Q (commit values)) (hhost : host.Coincide host' Q) :
    (c.tried info call commit host).Coincide (c.tried info call' commit host') Q := by
  refine ⟨?_, delivers_tried (fun _ values _ _ => hcommit values) hhost.delivers⟩
  rw [hcall, hhost.eq]

/-- A source has the domain that was found before the run, so the loop goes on. -/
theorem coincide_loop {target : Target} {source : Expr} {domain : Option Domain} {items : Value}
    {loop loop' : Exec Env} {Q : Env → Prop}
    (hdomain : ∀ d, domain = some d → source.listsEntries = false →
      Domain.classify items target = .ok d) (hloop : loop.Coincide loop' Q) :
    (w.loop target source domain items loop).Coincide loop' Q := by
  cases domain with
  | none => exact hloop
  | some d =>
    have hright : ¬(source.listsEntries = false ∧
        (Domain.classify items target).toOption ≠ some d) := by
      rintro ⟨hlists, hne⟩
      rw [hdomain d rfl hlists] at hne
      exact hne rfl
    rw [Watch.loop, if_neg hright]
    exact hloop

/-- With this much fuel, the watch makes no difference to any part of a run that is judged and
steady, and the constants stay as they are. -/
structure Unaffected (c : Setting) (w : Watch) (consts : Constants) (n : Nat) : Prop where
  run : ∀ plan {inside ended body before after} {env : Env},
    FlowStmt.allJudged BlockInfo.Reflects inside body before ended after →
    FlowStmt.allSteady consts body → before.Backed env → env.Holds consts →
    (c.runWatched w n plan body env).Coincide (c.run n plan body env)
      fun r => Env.Holds r.2 consts
  runStmt : ∀ plan {inside ended stmt before after} {env : Env},
    FlowStmt.Judged BlockInfo.Reflects inside stmt before ended after →
    FlowStmt.Steady consts stmt → before.Backed env → env.Holds consts →
    (c.runStmtWatched w n plan stmt env).Coincide (c.runStmt n plan stmt env)
      fun r => Env.Holds r.2 consts
  runBody : ∀ plan {ended body before after} {env : Env},
    FlowStmt.allJudged BlockInfo.Reflects true body before ended after →
    FlowStmt.allSteady consts body → before.Backed env → env.Holds consts →
    (c.runBodyWatched w n plan body env).Coincide (c.runBody n plan body env) (Env.Holds · consts)
  runArms : ∀ plan {info arms otherwise before after ends} {env : Env},
    FlowStmt.Ahead info arms otherwise before after ends →
    FlowStmt.Steady consts (.cond info arms otherwise) → before.Backed env → env.Holds consts →
    (c.runArmsWatched w n plan info arms otherwise env).Coincide
      (c.runArms n plan info arms otherwise env) (Env.Holds · consts)
  chooseArm : ∀ plan {info arm rest otherwise before after ends} predicate {env : Env},
    FlowStmt.Ahead info (arm :: rest) otherwise before after ends →
    FlowStmt.Steady consts (.cond info (arm :: rest) otherwise) → before.Backed env →
    env.Holds consts →
    (c.chooseArmWatched w n plan info arm rest otherwise predicate env).Coincide
      (c.chooseArm n plan info arm rest otherwise predicate env) (Env.Holds · consts)
  runFor : ∀ plan {info target source body domain strategy assigned before after again} {env : Env},
    BlockInfo.Loops info assigned before after again →
    FlowStmt.Rounds target body ⟨before.defined, again⟩ →
    FlowStmt.Steady consts (.forIn info target source body domain strategy) → before.Backed env →
    env.Holds consts →
    (c.runForWatched w n plan info target source body domain strategy env).Coincide
      (c.runFor n plan info target source body strategy env) (Env.Holds · consts)
  hostFor : ∀ plan {target body} items {start : Outlook} {env : Env},
    FlowStmt.Rounds target body start → consts.Spares target.names →
    FlowStmt.allSteady consts body → start.Backed env → env.Holds consts →
    (c.hostForWatched w n plan target body items env).Coincide
      (c.hostFor n plan target body items env) (Env.Holds · consts)
  hostEach : ∀ plan {target body} feed {start : Outlook} {env : Env},
    FlowStmt.Rounds target body start → consts.Spares target.names →
    FlowStmt.allSteady consts body → start.Backed env → env.Holds consts →
    (c.hostEachWatched w n plan target body feed env).Coincide
      (c.hostEach n plan target body feed env) (Env.Holds · consts)
  runWhile : ∀ plan {info condition body assigned before after again} {env : Env},
    BlockInfo.Loops info assigned before after again →
    FlowStmt.Repeats condition body ⟨before.defined, again⟩ →
    FlowStmt.Steady consts (.whileDo info condition body) → before.Backed env →
    env.Holds consts →
    (c.runWhileWatched w n plan info condition body env).Coincide
      (c.runWhile n plan info condition body env) (Env.Holds · consts)
  hostWhile : ∀ plan {condition body} {start : Outlook} {env : Env},
    FlowStmt.Repeats condition body start → FlowStmt.allSteady consts body → start.Backed env →
    env.Holds consts →
    (c.hostWhileWatched w n plan condition body env).Coincide
      (c.hostWhile n plan condition body env) (Env.Holds · consts)

theorem unaffected_zero : c.Unaffected w consts 0 where
  run := fun _ {_ _ _ _ _ _} _ _ _ _ => by
    rw [Setting.runWatched, Setting.run]
    exact .halt
  runStmt := fun _ {_ _ _ _ _ _} _ _ _ _ => by
    rw [Setting.runStmtWatched, Setting.runStmt]
    exact .halt
  runBody := fun _ {_ _ _ _ _} _ _ _ _ => by
    rw [Setting.runBodyWatched, Setting.runBody]
    exact .halt
  runArms := fun _ {_ _ _ _ _ _ _} _ _ _ _ => by
    rw [Setting.runArmsWatched, Setting.runArms]
    exact .halt
  chooseArm := fun _ {_ _ _ _ _ _ _} _ {_} _ _ _ _ => by
    rw [Setting.chooseArmWatched, Setting.chooseArm]
    exact .halt
  runFor := fun _ {_ _ _ _ _ _ _ _ _ _ _} _ _ _ _ _ => by
    rw [Setting.runForWatched, Setting.runFor]
    exact .halt
  hostFor := fun _ {_ _} _ {_ _} _ _ _ _ _ => by
    rw [Setting.hostForWatched, Setting.hostFor]
    exact .halt
  hostEach := fun _ {_ _} _ {_ _} _ _ _ _ _ => by
    rw [Setting.hostEachWatched, Setting.hostEach]
    exact .halt
  runWhile := fun _ {_ _ _ _ _ _ _ _} _ _ _ _ _ => by
    rw [Setting.runWhileWatched, Setting.runWhile]
    exact .halt
  hostWhile := fun _ {_ _ _ _} _ _ _ _ => by
    rw [Setting.hostWhileWatched, Setting.hostWhile]
    exact .halt

section Parts

variable (ih : c.Unaffected w consts n) (plan : Option FaultPlan) {inside ended : Bool}
  {before after : Outlook} {env : Env}

include ih

theorem unaffected_run {body : List FlowStmt}
    (h : FlowStmt.allJudged BlockInfo.Reflects inside body before ended after)
    (hsteady : FlowStmt.allSteady consts body) (hbacked : before.Backed env)
    (hholds : env.Holds consts) :
    (c.runWatched w (n + 1) plan body env).Coincide (c.run (n + 1) plan body env)
      fun r => Env.Holds r.2 consts := by
  cases body with
  | nil =>
    rw [Setting.runWatched, Setting.run]
    exact .pure hholds
  | cons stmt rest =>
    obtain ⟨mid, first, second, hstmt, hrest, rfl⟩ := h
    rw [Setting.runWatched, Setting.run]
    have hfirst := (ih.runStmt plan hstmt hsteady.1 hbacked hholds).and
      ((completes c n).runStmt plan hstmt hbacked)
    refine hfirst.bind ?_
    rintro ⟨exit, env₁⟩ ⟨hholds₁, -, hnext⟩
    cases exit with
    | ret v => exact .pure hholds₁
    | next =>
      obtain ⟨rfl, hmissing⟩ := hnext rfl
      exact ih.run plan hrest hsteady.2 (hmissing.backed hstmt.leads hbacked) hholds₁

theorem unaffected_runStmt {stmt : FlowStmt}
    (h : stmt.Judged BlockInfo.Reflects inside before ended after) (hsteady : stmt.Steady consts)
    (hbacked : before.Backed env) (hholds : env.Holds consts) :
    (c.runStmtWatched w (n + 1) plan stmt env).Coincide (c.runStmt (n + 1) plan stmt env)
      fun r => Env.Holds r.2 consts := by
  cases stmt with
  | act action span =>
    rw [Setting.runStmtWatched, Setting.runStmt]
    exact ⟨rfl, hholds.delivers_act hsteady c span⟩
  | cond info arms otherwise =>
    obtain ⟨ends, hahead, -⟩ := h.ahead
    rw [Setting.runStmtWatched, Setting.runStmt]
    exact (ih.runArms plan hahead hsteady hbacked hholds).bind fun env₁ h₁ => .pure h₁
  | forIn info target source body domain strategy =>
    obtain ⟨-, -, again, hloops, hrounds⟩ := h.rounds
    rw [Setting.runStmtWatched, Setting.runStmt]
    exact (ih.runFor plan hloops hrounds hsteady hbacked hholds).bind fun env₁ h₁ => .pure h₁
  | whileDo info condition body =>
    obtain ⟨-, again, hloops, hrepeats⟩ := h.repeats
    rw [Setting.runStmtWatched, Setting.runStmt]
    exact (ih.runWhile plan hloops hrepeats hsteady hbacked hholds).bind fun env₁ h₁ => .pure h₁

theorem unaffected_branch {body : List FlowStmt} {after : Names} {ends : List (Option Names)}
    (h : FlowStmt.Branch body before after ends) (hsteady : FlowStmt.allSteady consts body)
    (hbacked : before.Backed env) (hholds : env.Holds consts) :
    (c.runBodyWatched w n plan body env).Coincide (c.runBody n plan body env)
      (Env.Holds · consts) := by
  obtain ⟨entry, ended, defined, hentry, -, hbody⟩ := h
  exact ih.runBody plan hbody hsteady (hbacked.mono hentry) hholds

theorem unaffected_runArms {info : BlockInfo} {arms : List FlowArm}
    {otherwise : Option (List FlowStmt)} {after : Names} {ends : List (Option Names)}
    (h : FlowStmt.Ahead info arms otherwise before after ends)
    (hsteady : FlowStmt.Steady consts (.cond info arms otherwise)) (hbacked : before.Backed env)
    (hholds : env.Holds consts) :
    (c.runArmsWatched w (n + 1) plan info arms otherwise env).Coincide
      (c.runArms (n + 1) plan info arms otherwise env) (Env.Holds · consts) := by
  obtain ⟨hspares, harms, hlast⟩ := id hsteady
  cases arms with
  | nil =>
    cases otherwise with
    | none =>
      rw [Setting.runArmsWatched, Setting.runArms]
      exact .pure hholds
    | some body =>
      rw [Setting.runArmsWatched, Setting.runArms]
      exact unaffected_branch ih plan h.last hlast hbacked hholds
  | cons arm rest =>
    obtain ⟨condition, body⟩ := arm
    obtain ⟨moreEnds, hrest, -⟩ := h.rest
    have hinputs : ∀ x ∈ info.inputs, env.Binds x := by
      intro x hx
      obtain ⟨hdefined, hlive⟩ := h.inputs x hx
      exact hbacked x hdefined hlive
    have hargs : ∀ args, before.Backed (Bindings.insertAll env info.inputs args) :=
      fun args => hbacked.grows (env.grows_insertAll info.inputs args)
    have hkept : ∀ args, Env.Holds (Bindings.insertAll env info.inputs args) consts :=
      hholds.insertAll (BlockInfo.spares_inputs hspares)
    rw [Setting.runArmsWatched, runArms_cons, enteringWatched_of_binds hinputs]
    refine .bind_any fun predicate => ?_
    have hhost := ih.chooseArm plan predicate h hsteady hbacked hholds
    split
    · exact hhost
    · refine .bind_any fun init => coincide_tried ?_ (hholds.insertAll hspares) hhost
      rw [condCall]
      congr 2
      · funext args
        refine leavingWatched_after
          (unaffected_branch ih none h.branch harms.1 (hargs args) (hkept args)).eq ?_
        exact (completes_branch (completes c n) none h h.branch (hargs args)).mono
          fun env₁ h₁ => h.binds_outputs h₁.2
      · funext args
        refine leavingWatched_after
          (ih.runArms none hrest ⟨hspares, harms.2, hlast⟩ (hargs args) (hkept args)).eq ?_
        exact ((completes c n).runArms none hrest (hargs args)).mono
          fun env₁ h₁ => hrest.binds_outputs h₁.2

theorem unaffected_chooseArm {info : BlockInfo} {arm : FlowArm} {rest : List FlowArm}
    {otherwise : Option (List FlowStmt)} (predicate : Value) {after : Names}
    {ends : List (Option Names)} (h : FlowStmt.Ahead info (arm :: rest) otherwise before after ends)
    (hsteady : FlowStmt.Steady consts (.cond info (arm :: rest) otherwise))
    (hbacked : before.Backed env) (hholds : env.Holds consts) :
    (c.chooseArmWatched w (n + 1) plan info arm rest otherwise predicate env).Coincide
      (c.chooseArm (n + 1) plan info arm rest otherwise predicate env) (Env.Holds · consts) := by
  obtain ⟨condition, body⟩ := arm
  obtain ⟨moreEnds, hrest, -⟩ := h.rest
  obtain ⟨hspares, ⟨hbody, hlater⟩, hlast⟩ := hsteady
  rw [Setting.chooseArmWatched, Setting.chooseArm]
  refine .bind_any fun truth => ?_
  split
  · exact unaffected_branch ih plan h.branch hbody hbacked hholds
  · exact ih.runArms plan hrest ⟨hspares, hlater, hlast⟩ hbacked hholds

theorem unaffected_runFor {info : BlockInfo} {target : Target} {source : Expr}
    {body : List FlowStmt} {domain : Option Domain} {strategy : Strategy} {assigned : List String}
    {after again : Names} (h : info.Loops assigned before after again)
    (hrounds : FlowStmt.Rounds target body ⟨before.defined, again⟩)
    (hsteady : FlowStmt.Steady consts (.forIn info target source body domain strategy))
    (hbacked : before.Backed env) (hholds : env.Holds consts) :
    (c.runForWatched w (n + 1) plan info target source body domain strategy env).Coincide
      (c.runFor (n + 1) plan info target source body strategy env) (Env.Holds · consts) := by
  obtain ⟨hspares, htarget, hdomain, hbody⟩ := hsteady
  have hcarried := BlockInfo.spares_inputs hspares
  have hinputs := h.binds_inputs hbacked
  have hstart : Outlook.Backed ⟨before.defined, again⟩ env := hbacked.mono h.again_live
  have hitems : (Exec.ofEval (source.eval env)).Delivers fun items => ∀ d, domain = some d →
      source.listsEntries = false → Domain.classify items target = .ok d := by
    intro s items s' heval d hd hlists
    have hsource := Domain.delivers_ofExpr? hholds (hdomain d hd) hlists
    exact hsource.onFirst s items s' heval
  rw [Setting.runForWatched, runFor_succ, enteringWatched_of_binds hinputs]
  refine .bind ⟨rfl, hitems⟩ fun items hright => coincide_loop hright ?_
  have hhost := ih.hostFor plan items hrounds htarget hbody hstart hholds
  split
  · exact hhost
  refine .bind_any fun found => ?_
  split
  · refine .bind_any fun loop => .bind_any fun init => ?_
    refine coincide_tried ?_ (hholds.insertAll hcarried) hhost
    obtain ⟨entry, head, ended, defined, hagain, -, hjudged⟩ := id hrounds
    dsimp only at hagain
    subst hagain
    rw [forCall]
    congr 2
    funext index carried
    refine congrArg (Exec.ofTracer (loop.2.element index) >>= ·) (funext fun item => ?_)
    refine (target.delivers_assign item _).bind_congr_and
      ((hholds.insertAll hcarried carried).delivers_assign htarget item) fun env₁ h₁ hholds₁ => ?_
    have hgrows : env.Grows env₁ := (env.grows_insertAll info.inputs carried).trans h₁.1
    -- nothing that entered the loop is lost, so it is there at the end of the round
    refine leavingWatched_after
      (ih.runBody none hjudged hbody (FlowStmt.backed_round hstart hgrows h₁.2) hholds₁).eq ?_
    exact ((growing c n).runBody none body env₁).mono fun env₂ h₂ x hx =>
      h₂ x (hgrows x (hinputs x hx))
  split
  · exact .halt
  · exact .bind_any fun _ => hhost

theorem unaffected_hostEach {target : Target} {body : List FlowStmt} (feed : Feed)
    {start : Outlook} (hrounds : FlowStmt.Rounds target body start)
    (htarget : consts.Spares target.names) (hbody : FlowStmt.allSteady consts body)
    (hbacked : start.Backed env) (hholds : env.Holds consts) :
    (c.hostEachWatched w (n + 1) plan target body feed env).Coincide
      (c.hostEach (n + 1) plan target body feed env) (Env.Holds · consts) := by
  rw [Setting.hostEachWatched, Setting.hostEach]
  rcases feed.next? with _ | ⟨item, feed'⟩
  · exact .pure hholds
  · obtain ⟨entry, head, ended, defined, hagain, -, hjudged⟩ := id hrounds
    have hstart : Outlook.Backed ⟨start.defined, entry.without target.names⟩ env := hagain ▸ hbacked
    have hassign : (Exec.ofTracer (target.assign item env)).Coincide _ (Env.Holds · consts) :=
      ⟨rfl, hholds.delivers_assign htarget item⟩
    refine (hassign.and (target.delivers_assign item env)).bind ?_
    rintro env₁ ⟨hholds₁, h₁⟩
    have hround := ih.runBody plan hjudged hbody (FlowStmt.backed_round hstart h₁.1 h₁.2) hholds₁
    refine (hround.and ((growing c n).runBody plan body env₁)).bind ?_
    rintro env₂ ⟨hholds₂, h₂⟩
    exact ih.hostEach plan feed' hrounds htarget hbody (hbacked.grows (h₁.1.trans h₂)) hholds₂

theorem unaffected_runWhile {info : BlockInfo} {condition : Expr} {body : List FlowStmt}
    {assigned : List String} {after again : Names} (h : info.Loops assigned before after again)
    (hrepeats : FlowStmt.Repeats condition body ⟨before.defined, again⟩)
    (hsteady : FlowStmt.Steady consts (.whileDo info condition body)) (hbacked : before.Backed env)
    (hholds : env.Holds consts) :
    (c.runWhileWatched w (n + 1) plan info condition body env).Coincide
      (c.runWhile (n + 1) plan info condition body env) (Env.Holds · consts) := by
  obtain ⟨hspares, hbody⟩ := hsteady
  have hcarried := BlockInfo.spares_inputs hspares
  have hinputs := h.binds_inputs hbacked
  have hstart : Outlook.Backed ⟨before.defined, again⟩ env := hbacked.mono h.again_live
  have hhost := ih.hostWhile plan hrepeats hbody hstart hholds
  rw [Setting.runWhileWatched, runWhile_succ, enteringWatched_of_binds hinputs]
  split
  · exact hhost
  · refine .bind_any fun init => coincide_tried ?_ (hholds.insertAll hcarried) hhost
    obtain ⟨entry, head, ended, defined, hagain, -, hjudged⟩ := id hrepeats
    dsimp only at hagain
    subst hagain
    rw [whileCall]
    congr 2
    funext args
    have hgrows := env.grows_insertAll info.inputs args
    have hround : Outlook.Backed ⟨before.defined, entry⟩
        (Bindings.insertAll env info.inputs args) :=
      (hstart.mono fun x hx => Names.mem_union.mpr (.inl hx)).grows hgrows
    refine leavingWatched_after
      (ih.runBody none hjudged hbody hround (hholds.insertAll hcarried args)).eq ?_
    exact ((growing c n).runBody none body _).mono fun env₁ h₁ x hx =>
      h₁ x (hgrows x (hinputs x hx))

theorem unaffected_hostWhile {condition : Expr} {body : List FlowStmt} {start : Outlook}
    (hrepeats : FlowStmt.Repeats condition body start) (hbody : FlowStmt.allSteady consts body)
    (hbacked : start.Backed env) (hholds : env.Holds consts) :
    (c.hostWhileWatched w (n + 1) plan condition body env).Coincide
      (c.hostWhile (n + 1) plan condition body env) (Env.Holds · consts) := by
  obtain ⟨entry, head, ended, defined, hagain, -, hjudged⟩ := id hrepeats
  have hstart : Outlook.Backed ⟨start.defined, entry.union condition.uses⟩ env := hagain ▸ hbacked
  have hround := hstart.mono fun x hx => Names.mem_union.mpr (.inl hx)
  rw [Setting.hostWhileWatched, Setting.hostWhile]
  refine .bind_any fun predicate => .bind_any fun truth => ?_
  split
  · have hfirst := (ih.runBody plan hjudged hbody hround hholds).and
      ((growing c n).runBody plan body env)
    refine hfirst.bind ?_
    rintro env₁ ⟨hholds₁, h₁⟩
    exact ih.hostWhile plan hrepeats hbody (hbacked.grows h₁) hholds₁
  · exact .pure hholds

end Parts

theorem unaffected_succ (ih : c.Unaffected w consts n) : c.Unaffected w consts (n + 1) where
  run := fun plan _ _ _ _ _ _ h hsteady hbacked hholds =>
    unaffected_run ih plan h hsteady hbacked hholds
  runStmt := fun plan _ _ _ _ _ _ h hsteady hbacked hholds =>
    unaffected_runStmt ih plan h hsteady hbacked hholds
  runBody := fun plan _ _ _ _ _ h hsteady hbacked hholds => by
    rw [Setting.runBodyWatched, Setting.runBody]
    exact (ih.run plan h hsteady hbacked hholds).bind fun r h₁ => .pure h₁
  runArms := fun plan _ _ _ _ _ _ _ h hsteady hbacked hholds =>
    unaffected_runArms ih plan h hsteady hbacked hholds
  chooseArm := fun plan _ _ _ _ _ _ _ predicate _ h hsteady hbacked hholds =>
    unaffected_chooseArm ih plan predicate h hsteady hbacked hholds
  runFor := fun plan _ _ _ _ _ _ _ _ _ _ _ h hrounds hsteady hbacked hholds =>
    unaffected_runFor ih plan h hrounds hsteady hbacked hholds
  hostFor := fun plan _ _ items _ _ hrounds htarget hbody hbacked hholds => by
    rw [Setting.hostForWatched, Setting.hostFor]
    exact .bind_any fun feed => ih.hostEach plan feed hrounds htarget hbody hbacked hholds
  hostEach := fun plan _ _ feed _ _ hrounds htarget hbody hbacked hholds =>
    unaffected_hostEach ih plan feed hrounds htarget hbody hbacked hholds
  runWhile := fun plan _ _ _ _ _ _ _ _ h hrepeats hsteady hbacked hholds =>
    unaffected_runWhile ih plan h hrepeats hsteady hbacked hholds
  hostWhile := fun plan _ _ _ _ hrepeats hbody hbacked hholds =>
    unaffected_hostWhile ih plan hrepeats hbody hbacked hholds

theorem unaffected (c : Setting) (w : Watch) (consts : Constants) (n : Nat) :
    c.Unaffected w consts n := by
  induction n with
  | zero => exact unaffected_zero
  | succ n ih => exact unaffected_succ ih

/-- A watch makes no difference to a call of a converted function. -/
theorem callWatched_eq_call {f : FunctionDef} {options : Options} {c : Setting}
    (h : (f.convert options).result = .ok c.function) (w : Watch) (fuel : Nat)
    (plan : Option FaultPlan) (args : List Value) :
    c.callWatched w fuel plan args = c.call fuel plan args := by
  obtain ⟨live, ended, defined, hjudged⟩ := FunctionDef.convert_judged h
  have hsteady := FunctionDef.convert_steady h
  have hparams : c.function.params = f.params := (FunctionDef.convert_eq_ok h).2.1
  have hspares := constantNames_spares_params c.function.params (foldAll f.body)
  rw [← hparams] at hsteady
  have hempty : Env.Holds [] (constantNames c.function.params (foldAll f.body)) :=
    fun n e v _ hv => by cases hv
  by_cases hlen : args.length = (c.function.params.map Param.name).length
  · have hrun := (unaffected c w _ fuel).run plan hjudged hsteady
      (Outlook.backed_params hlen live) (hempty.insertAll hspares args)
    simp only [callWatched, call, if_pos hlen]
    exact congrArg (· >>= _) hrun.eq
  · simp only [callWatched, call, if_neg hlen]

/-! ## Names that enter or leave a block -/

/-- In a call of a converted function, staged or not, under any options, plan and arguments, it
makes no difference what is done where a name that enters or leaves a block has no value: all of
them have values wherever they are collected. -/
theorem callOr_eq_call {f : FunctionDef} {options : Options} {c : Setting}
    (h : (f.convert options).result = .ok c.function)
    (missing : List String → Env → Exec (List Value)) (fuel : Nat) (plan : Option FaultPlan)
    (args : List Value) : c.callOr missing fuel plan args = c.call fuel plan args :=
  callWatched_eq_call h _ fuel plan args

/-! A conditional and a loop with temporaries: in the graph they bind what they carry and nothing
else. -/

def reach : FunctionDef :=
  ⟨"reach", [⟨"x", none⟩, ⟨"n", none⟩],
    [.choose
        [⟨.binary .lt (.var "x") (.var "n"),
          [.act (.assign (.name "t") (.binary .add (.var "x") (.literal (.int 1)))) .unknown,
            .act (.assign (.name "y") (.var "t")) .unknown], .unknown⟩]
        (some [.act (.assign (.name "y") (.var "n")) .unknown]) .unknown,
      .whileDo (.binary .lt (.var "y") (.var "n"))
        [.act (.assign (.name "u") (.binary .add (.var "y") (.literal (.int 1)))) .unknown,
          .act (.assign (.name "y") (.var "u")) .unknown] .unknown,
      .act (.ret (some (.var "y"))) .unknown], none, none, .unknown⟩

/-- Whether a step has crashed. -/
def crashed {α : Type} : Except (Halt RunError) α → Bool
  | .error (.crash _) => true
  | _ => false

theorem callOr_eq_call_reach :
    ∃ g, (reach.convert {}).result = .ok g ∧
      (⟨g, {}, .staged⟩ : Setting).callOr (fun _ _ => Step.halt (.crash .overflow)) 30 none
          [.traced 0 (.scalar .int), .int 5] =
        (⟨g, {}, .staged⟩ : Setting).call 30 none [.traced 0 (.scalar .int), .int 5] := by
  have hsome : (reach.convert {}).result.toOption.isSome = true := by decide +kernel
  rcases hresult : (reach.convert {}).result with e | g
  · rw [hresult] at hsome
    cases hsome
  · exact ⟨g, rfl, callOr_eq_call (c := ⟨g, {}, .staged⟩) hresult _ 30 none _⟩

/-! A conditional that is to hand on a name which its branch does not assign, as no conversion
leaves it: here the end of the branch is a crash. -/

def unassigning : List FlowStmt :=
  [.cond ⟨0, .conditional, ⟨none, "f", 1, none⟩, [⟨"y", false, false, .unknown, []⟩], []⟩
    [⟨.var "p", []⟩] none]

example :
    let c : Setting := ⟨⟨"f", none, [⟨"p", none⟩], unassigning, "", []⟩, {}, .staged⟩
    let t := ((Tracer.start true).input (.scalar .bool)).2
    let args := [Value.traced 0 (.scalar .bool)]
    crashed (c.callOr (fun _ _ => Step.halt (.crash .overflow)) 10 none args (t, {})).1 = true ∧
      crashed (c.call 10 none args (t, {})).1 = false := by
  decide +kernel

/-! ## Sources of loops -/

/-- In a call of a converted function, staged or not, under any options, plan and arguments, it
makes no difference what is done where a loop runs over something else than it was taken for before
the run: whenever its source is evaluated, the value has the domain that was found. -/
theorem callUnless_eq_call {f : FunctionDef} {options : Options} {c : Setting}
    (h : (f.convert options).result = .ok c.function) (mistaken : Domain → Value → Exec Env)
    (fuel : Nat) (plan : Option FaultPlan) (args : List Value) :
    c.callUnless mistaken fuel plan args = c.call fuel plan args :=
  callWatched_eq_call h _ fuel plan args

/-! Loops over a name that stands for a range, one with numbers and one in a conditional that goes
into the graph. -/

def tally : FunctionDef :=
  ⟨"tally", [⟨"x", none⟩],
    [.act (.assign (.name "steps") (.call .range [.literal (.int 3)])) .unknown,
      .act (.assign (.name "total") (.literal (.int 0))) .unknown,
      .forIn (.tuple [.name "i", .name "k"]) (.call .enumerate [.var "steps", .literal (.int 1)])
        [.act (.update "total" .add (.binary .mul (.var "i") (.var "k"))) .unknown] .unknown,
      .choose
        [⟨.binary .lt (.var "total") (.var "x"),
          [.forIn (.name "k") (.var "steps")
            [.act (.update "total" .add (.var "x")) .unknown] .unknown], .unknown⟩] none .unknown,
      .act (.ret (some (.var "total"))) .unknown], none, none, .unknown⟩

theorem callUnless_eq_call_tally :
    ∃ g, (tally.convert {}).result = .ok g ∧
      (⟨g, {}, .staged⟩ : Setting).callUnless (fun _ _ => Step.halt (.crash .overflow)) 30 none
          [.traced 0 (.scalar .int)] =
        (⟨g, {}, .staged⟩ : Setting).call 30 none [.traced 0 (.scalar .int)] := by
  have hsome : (tally.convert {}).result.toOption.isSome = true := by decide +kernel
  rcases hresult : (tally.convert {}).result with e | g
  · rw [hresult] at hsome
    cases hsome
  · exact ⟨g, rfl, callUnless_eq_call (c := ⟨g, {}, .staged⟩) hresult _ 30 none _⟩

/-! A loop that is taken for one over a text, as no conversion leaves it: over a list it is a
crash. -/

def overText : List FlowStmt :=
  [.forIn ⟨0, .countedLoop, ⟨none, "f", 1, none⟩, [], []⟩ (.name "k") (.var "items") []
    (some (.foreign "str")) .primitive]

example :
    let c : Setting := ⟨⟨"f", none, [⟨"items", none⟩], overText, "", []⟩, {}, .eager⟩
    let args := [Value.list [.int 1]]
    crashed (c.callUnless (fun _ _ => Step.halt (.crash .overflow)) 10 none args
        (Tracer.start true, {})).1 = true ∧
      crashed (c.call 10 none args (Tracer.start true, {})).1 = false := by
  decide +kernel

end Setting

end StagedFlow
