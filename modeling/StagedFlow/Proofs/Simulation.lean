import StagedFlow.Proofs.Execution

/-!
Two runs side by side. A relation between steps that goes along with sequences, with steps on the
tracer and with regions goes along with the control-flow primitives; if it also goes along with the
points at which two settings differ, then it holds between all their runs. Main definitions:
`Tracer.Relational`, `Setting.Simulates`. Main results: `Setting.Simulates.related`,
`Setting.Simulates.call`.
-/
set_option autoImplicit false

namespace StagedFlow

open Tracer

namespace Tracer

variable {ρ ε α : Type}

/-- A relation that goes along with how steps are put together. -/
structure Relational
    (R : (ε α : Type) → Traced Journal ε α → Traced Journal ε α → Prop) : Prop where
  pure : ∀ {ε α : Type} (a : α), R ε α (Pure.pure a) (Pure.pure a)
  halt : ∀ {ε α : Type} (h : Halt ε), R ε α (Step.halt h) (Step.halt h)
  bind : ∀ {ε α β : Type} {x y : Traced Journal ε α} {f g : α → Traced Journal ε β},
    R ε α x y → (∀ a, R ε β (f a) (g a)) → R ε β (x >>= f) (y >>= g)
  onFirst : ∀ {ε α : Type} (x : Step Tracer ε α), R ε α x.onFirst x.onFirst
  inRegion : ∀ {ε : Type} (primitive : Primitive) (types : List ArrayType)
    {body body' : List Value → Traced Journal ε (List Value)},
    (∀ args, R ε (List Value) (body args) (body' args)) →
    R (Failure ε) _ (inRegion primitive types body) (inRegion primitive types body')
  intercept : ∀ (plan : Option FaultPlan) (primitive : Primitive)
    {call call' : Traced Journal (Failure RunError) (List Value)},
    R _ _ call call' →
    R _ _ (FaultPlan.intercept plan primitive call) (FaultPlan.intercept plan primitive call')

/-- Whether a session is active is a matter of the tracer. -/
theorem requireSession_eq (primitive : Primitive) :
    (requireSession primitive : Traced ρ (Failure ε) Unit) =
      Step.onFirst fun t => ((requireSession primitive : Traced Unit (Failure ε) Unit) (t, ())).map
        id Prod.fst := by
  funext ⟨t, r⟩
  simp only [requireSession, Step.onFirst]
  split <;> rfl

theorem bindPrimitive_eq (primitive : Primitive) (kind : NodeKind) (inputs : List Operand)
    (outputs before after : List ArrayType) :
    (bindPrimitive primitive kind inputs outputs before after :
      Traced ρ (Failure ε) (List Value)) =
      Step.onFirst fun t => ((bindPrimitive primitive kind inputs outputs before after :
        Traced Unit (Failure ε) (List Value)) (t, ())).map id Prod.fst := by
  funext ⟨t, r⟩
  simp only [bindPrimitive, Step.onFirst]
  split <;> rfl

namespace Relational

variable {R : (ε α : Type) → Traced Journal ε α → Traced Journal ε α → Prop}

theorem requireSession (h : Relational R) (primitive : Primitive) :
    R (Failure ε) Unit (Tracer.requireSession primitive) (Tracer.requireSession primitive) := by
  rw [requireSession_eq]
  exact h.onFirst _

theorem bindPrimitive (h : Relational R) (primitive : Primitive) (kind : NodeKind)
    (inputs : List Operand) (outputs before after : List ArrayType) :
    R (Failure ε) _ (Tracer.bindPrimitive primitive kind inputs outputs before after)
      (Tracer.bindPrimitive primitive kind inputs outputs before after) := by
  rw [bindPrimitive_eq]
  exact h.onFirst _

theorem checked (h : Relational R) (primitive : Primitive) (x : Except Fault α) :
    R (Failure ε) α (Tracer.checked primitive x) (Tracer.checked primitive x) := by
  cases x with
  | ok a => exact h.pure a
  | error f => exact h.halt _

theorem cond (h : Relational R) (predicate : Value) (operands : List Value)
    {thenBranch elseBranch thenBranch' elseBranch' : List Value → Traced Journal ε (List Value)}
    (hthen : ∀ args, R _ _ (thenBranch args) (thenBranch' args))
    (helse : ∀ args, R _ _ (elseBranch args) (elseBranch' args)) :
    R _ _ (Tracer.cond predicate operands thenBranch elseBranch)
      (Tracer.cond predicate operands thenBranch' elseBranch') := by
  unfold Tracer.cond
  refine h.bind (h.requireSession _) fun _ => ?_
  refine h.bind (h.checked _ _) fun ⟨p, type⟩ => ?_
  dsimp only
  split
  · refine h.bind (h.checked _ _) fun ⟨inputs, types⟩ => ?_
    refine h.bind (h.inRegion _ _ hthen) fun ⟨thenRegion, thenTypes⟩ => ?_
    refine h.bind (h.inRegion _ _ helse) fun ⟨elseRegion, elseTypes⟩ => ?_
    refine h.bind (h.checked _ _) fun _ => ?_
    exact h.bindPrimitive _ _ _ _ _ _
  · exact h.halt _

theorem forLoop (h : Relational R) (range : LoopRange) (init : List Value)
    {body body' : Value → List Value → Traced Journal ε (List Value)}
    (hbody : ∀ index carried, R _ _ (body index carried) (body' index carried)) :
    R _ _ (Tracer.forLoop range init body) (Tracer.forLoop range init body') := by
  have hindex : ∀ args, R _ _ (onIndex body args) (onIndex body' args) := by
    intro args
    cases args with
    | nil => exact hbody _ _
    | cons index carried => exact hbody index carried
  unfold Tracer.forLoop
  refine h.bind (h.requireSession _) fun _ => ?_
  refine h.bind (h.checked _ _) fun ⟨bounds, boundTypes⟩ => ?_
  dsimp only
  split
  · exact h.halt _
  · refine h.bind (h.checked _ _) fun ⟨inputs, types⟩ => ?_
    refine h.bind (h.inRegion _ _ hindex) fun ⟨region, found⟩ => ?_
    refine h.bind (h.checked _ _) fun _ => ?_
    exact h.bindPrimitive _ _ _ _ _ _

theorem whileLoop (h : Relational R) (init : List Value)
    {predicate predicate' : List Value → Traced Journal ε Value}
    {body body' : List Value → Traced Journal ε (List Value)}
    (hpredicate : ∀ args, R _ _ (predicate args) (predicate' args))
    (hbody : ∀ args, R _ _ (body args) (body' args)) :
    R _ _ (Tracer.whileLoop init predicate body) (Tracer.whileLoop init predicate' body') := by
  have hyield : ∀ args, R _ _ (yieldOne predicate args) (yieldOne predicate' args) :=
    fun args => h.bind (hpredicate args) fun v => h.pure [v]
  unfold Tracer.whileLoop
  refine h.bind (h.requireSession _) fun _ => ?_
  refine h.bind (h.checked _ _) fun ⟨inputs, types⟩ => ?_
  refine h.bind (h.inRegion _ _ hyield) fun ⟨condRegion, condTypes⟩ => ?_
  dsimp only
  split
  · refine h.bind (h.inRegion _ _ hbody) fun ⟨region, found⟩ => ?_
    refine h.bind (h.checked _ _) fun _ => ?_
    exact h.bindPrimitive _ _ _ _ _ _
  · exact h.halt _

end Relational

end Tracer

/-! ## Runs -/

namespace Setting

/-- What becomes of a loop over something that the graph cannot iterate. -/
def untried (c : Setting) (info : BlockInfo) (reason : String) (host : Exec Env) : Exec Env :=
  if c.options.strict then Step.fail (info.violation (.iteration reason))
  else do
    Exec.warn c.options ⟨.domain, info.kind, info.location, reason, []⟩
    host

/-- A relation between the steps of two settings for the same function, which may differ in what
they check at the edges of blocks and in what they do about a block that cannot be traced. -/
structure Simulates (c c' : Setting)
    (R : (ε α : Type) → Traced Journal ε α → Traced Journal ε α → Prop) : Prop
    extends Relational R where
  file : c'.function.file = c.function.file
  name : c'.function.name = c.function.name
  params : c'.function.params = c.function.params
  body : c'.function.body = c.function.body
  mode : c'.mode = c.mode
  entering : ∀ info env, R _ _ (c.entering info env) (c'.entering info env)
  leaving : ∀ info init outputs env,
    R _ _ (c.leaving info init outputs env) (c'.leaving info init outputs env)
  tried : ∀ (info : BlockInfo) (commit : List Value → Env) {call call' host host'},
    R _ _ call call' → R _ _ host host' →
    R _ _ (c.tried info call commit host) (c'.tried info call' commit host')
  untried : ∀ (info : BlockInfo) (reason : String) {host host'}, R _ _ host host' →
    R _ _ (c.untried info reason host) (c'.untried info reason host')

/-- With this much fuel, the parts of the two runs are related. -/
structure Related (c c' : Setting)
    (R : (ε α : Type) → Traced Journal ε α → Traced Journal ε α → Prop) (n : Nat) : Prop where
  run : ∀ plan body env, R _ _ (c.run n plan body env) (c'.run n plan body env)
  runStmt : ∀ plan s env, R _ _ (c.runStmt n plan s env) (c'.runStmt n plan s env)
  runBody : ∀ plan body env, R _ _ (c.runBody n plan body env) (c'.runBody n plan body env)
  runArms : ∀ plan info arms otherwise env,
    R _ _ (c.runArms n plan info arms otherwise env) (c'.runArms n plan info arms otherwise env)
  chooseArm : ∀ plan info arm rest otherwise predicate env,
    R _ _ (c.chooseArm n plan info arm rest otherwise predicate env)
      (c'.chooseArm n plan info arm rest otherwise predicate env)
  runFor : ∀ plan info target source body strategy env,
    R _ _ (c.runFor n plan info target source body strategy env)
      (c'.runFor n plan info target source body strategy env)
  hostFor : ∀ plan target body items env,
    R _ _ (c.hostFor n plan target body items env) (c'.hostFor n plan target body items env)
  hostEach : ∀ plan target body feed env,
    R _ _ (c.hostEach n plan target body feed env) (c'.hostEach n plan target body feed env)
  runWhile : ∀ plan info condition body env,
    R _ _ (c.runWhile n plan info condition body env) (c'.runWhile n plan info condition body env)
  hostWhile : ∀ plan condition body env,
    R _ _ (c.hostWhile n plan condition body env) (c'.hostWhile n plan condition body env)

namespace Simulates

variable {c c' : Setting}
  {R : (ε α : Type) → Traced Journal ε α → Traced Journal ε α → Prop} (h : c.Simulates c' R)

include h

theorem act (span : Span) (env : Env) (action : Action) :
    R _ _ (c.act span env action) (c'.act span env action) := by
  cases action with
  | assign target value =>
    refine h.bind (h.onFirst _) fun v => ?_
    exact h.bind (h.onFirst _) fun env' => h.pure (Exit.next, env')
  | update name op value =>
    refine h.bind (h.onFirst _) fun current => ?_
    refine h.bind (h.onFirst _) fun v => ?_
    exact h.bind (h.onFirst _) fun result => h.pure _
  | eval expr => exact h.bind (h.onFirst _) fun _ => h.pure (Exit.next, env)
  | ret value =>
    cases value with
    | none => exact h.pure _
    | some value => exact h.bind (h.onFirst _) fun v => h.pure (Exit.ret v, env)
  | raise message =>
    have hlocate : c'.locate span = c.locate span := by
      unfold locate
      rw [h.file, h.name]
    unfold Setting.act
    rw [hlocate]
    exact h.halt _
  | pass => exact h.pure _

theorem related_zero : c.Related c' R 0 where
  run := fun _ _ _ => by
    rw [Setting.run, Setting.run]
    exact h.halt _
  runStmt := fun _ _ _ => by
    rw [Setting.runStmt, Setting.runStmt]
    exact h.halt _
  runBody := fun _ _ _ => by
    rw [Setting.runBody, Setting.runBody]
    exact h.halt _
  runArms := fun _ _ _ _ _ => by
    rw [Setting.runArms, Setting.runArms]
    exact h.halt _
  chooseArm := fun _ _ _ _ _ _ _ => by
    rw [Setting.chooseArm, Setting.chooseArm]
    exact h.halt _
  runFor := fun _ _ _ _ _ _ _ => by
    rw [Setting.runFor, Setting.runFor]
    exact h.halt _
  hostFor := fun _ _ _ _ _ => by
    rw [Setting.hostFor, Setting.hostFor]
    exact h.halt _
  hostEach := fun _ _ _ _ _ => by
    rw [Setting.hostEach, Setting.hostEach]
    exact h.halt _
  runWhile := fun _ _ _ _ _ => by
    rw [Setting.runWhile, Setting.runWhile]
    exact h.halt _
  hostWhile := fun _ _ _ _ => by
    rw [Setting.hostWhile, Setting.hostWhile]
    exact h.halt _

/-! One lemma for each part of a run that does more than hand on to another part. -/

section Parts

variable {n : Nat} (ih : c.Related c' R n) (plan : Option FaultPlan) (env : Env)

include ih

theorem related_run (body : List FlowStmt) :
    R _ _ (c.run (n + 1) plan body env) (c'.run (n + 1) plan body env) := by
  cases body with
  | nil =>
    rw [Setting.run, Setting.run]
    exact h.pure _
  | cons s rest =>
    rw [Setting.run, Setting.run]
    refine h.bind (ih.runStmt plan s env) ?_
    rintro ⟨exit, env'⟩
    cases exit with
    | ret v => exact h.pure _
    | next => exact ih.run plan rest env'

theorem related_runStmt (s : FlowStmt) :
    R _ _ (c.runStmt (n + 1) plan s env) (c'.runStmt (n + 1) plan s env) := by
  cases s with
  | act action span =>
    rw [Setting.runStmt, Setting.runStmt]
    exact h.act span env action
  | cond info arms otherwise =>
    rw [Setting.runStmt, Setting.runStmt]
    exact h.bind (ih.runArms plan info arms otherwise env) fun env' => h.pure (Exit.next, env')
  | forIn info target source body _ strategy =>
    rw [Setting.runStmt, Setting.runStmt]
    exact h.bind (ih.runFor plan info target source body strategy env) fun env' =>
      h.pure (Exit.next, env')
  | whileDo info condition body =>
    rw [Setting.runStmt, Setting.runStmt]
    exact h.bind (ih.runWhile plan info condition body env) fun env' => h.pure (Exit.next, env')

theorem related_runArms (info : BlockInfo) (arms : List FlowArm)
    (otherwise : Option (List FlowStmt)) :
    R _ _ (c.runArms (n + 1) plan info arms otherwise env)
      (c'.runArms (n + 1) plan info arms otherwise env) := by
  cases arms with
  | nil =>
    cases otherwise with
    | none =>
      rw [Setting.runArms, Setting.runArms]
      exact h.pure env
    | some body =>
      rw [Setting.runArms, Setting.runArms]
      exact ih.runBody plan body env
  | cons arm rest =>
    rw [runArms_cons, runArms_cons]
    refine h.bind (h.onFirst _) fun predicate => ?_
    have hhost := ih.chooseArm plan info arm rest otherwise predicate env
    rw [h.mode]
    split
    · exact hhost
    · refine h.bind (h.entering info env) fun init => ?_
      refine h.tried info _ (h.intercept plan .cond ?_) hhost
      refine h.cond predicate init (fun args => ?_) fun args => ?_
      · exact h.bind (ih.runBody none arm.body _) fun env' => h.leaving info init _ env'
      · exact h.bind (ih.runArms none info rest otherwise _) fun env' => h.leaving info init _ env'

theorem related_chooseArm (info : BlockInfo) (arm : FlowArm) (rest : List FlowArm)
    (otherwise : Option (List FlowStmt)) (predicate : Value) :
    R _ _ (c.chooseArm (n + 1) plan info arm rest otherwise predicate env)
      (c'.chooseArm (n + 1) plan info arm rest otherwise predicate env) := by
  rw [Setting.chooseArm, Setting.chooseArm]
  refine h.bind (h.onFirst _) fun truth => ?_
  split
  · exact ih.runBody plan arm.body env
  · exact ih.runArms plan info rest otherwise env

theorem related_runFor (info : BlockInfo) (target : Target) (source : Expr)
    (body : List FlowStmt) (strategy : Strategy) :
    R _ _ (c.runFor (n + 1) plan info target source body strategy env)
      (c'.runFor (n + 1) plan info target source body strategy env) := by
  rw [runFor_succ, runFor_succ]
  refine h.bind (h.onFirst _) fun items => ?_
  have hhost := ih.hostFor plan target body items env
  rw [h.mode]
  split
  · exact hhost
  · refine h.bind (h.onFirst _) fun domain => ?_
    split
    · refine h.bind (h.onFirst _) fun ⟨range, elements⟩ => ?_
      refine h.bind (h.entering info env) fun init => ?_
      refine h.tried info _ (h.intercept plan .forLoop ?_) hhost
      refine h.forLoop range init fun index carried => ?_
      refine h.bind (h.onFirst _) fun item => ?_
      refine h.bind (h.onFirst _) fun env' => ?_
      exact h.bind (ih.runBody none body env') fun env' => h.leaving info init _ env'
    · exact h.untried info _ hhost

theorem related_hostEach (target : Target) (body : List FlowStmt) (feed : Feed) :
    R _ _ (c.hostEach (n + 1) plan target body feed env)
      (c'.hostEach (n + 1) plan target body feed env) := by
  rw [Setting.hostEach, Setting.hostEach]
  split
  · exact h.pure env
  · next item feed' _ =>
    refine h.bind (h.onFirst _) fun env₁ => ?_
    refine h.bind (ih.runBody plan body env₁) fun env₂ => ?_
    exact ih.hostEach plan target body feed' env₂

theorem related_runWhile (info : BlockInfo) (condition : Expr) (body : List FlowStmt) :
    R _ _ (c.runWhile (n + 1) plan info condition body env)
      (c'.runWhile (n + 1) plan info condition body env) := by
  rw [runWhile_succ, runWhile_succ]
  have hhost := ih.hostWhile plan condition body env
  rw [h.mode]
  split
  · exact hhost
  · refine h.bind (h.entering info env) fun init => ?_
    refine h.tried info _ (h.intercept plan .whileLoop ?_) hhost
    refine h.whileLoop init (fun args => h.onFirst _) fun args => ?_
    exact h.bind (ih.runBody none body _) fun env' => h.leaving info init _ env'

theorem related_hostWhile (condition : Expr) (body : List FlowStmt) :
    R _ _ (c.hostWhile (n + 1) plan condition body env)
      (c'.hostWhile (n + 1) plan condition body env) := by
  rw [Setting.hostWhile, Setting.hostWhile]
  refine h.bind (h.onFirst _) fun predicate => ?_
  refine h.bind (h.onFirst _) fun truth => ?_
  split
  · refine h.bind (ih.runBody plan body env) fun env' => ?_
    exact ih.hostWhile plan condition body env'
  · exact h.pure env

end Parts

theorem related_succ {n : Nat} (ih : c.Related c' R n) : c.Related c' R (n + 1) where
  run := fun plan body env => h.related_run ih plan env body
  runStmt := fun plan s env => h.related_runStmt ih plan env s
  runBody := fun plan body env => by
    rw [Setting.runBody, Setting.runBody]
    exact h.bind (ih.run plan body env) fun r => h.pure r.2
  runArms := fun plan info arms otherwise env => h.related_runArms ih plan env info arms otherwise
  chooseArm := fun plan info arm rest otherwise predicate env =>
    h.related_chooseArm ih plan env info arm rest otherwise predicate
  runFor := fun plan info target source body strategy env =>
    h.related_runFor ih plan env info target source body strategy
  hostFor := fun plan target body items env => by
    rw [Setting.hostFor, Setting.hostFor]
    exact h.bind (h.onFirst _) fun feed => ih.hostEach plan target body feed env
  hostEach := fun plan target body feed env => h.related_hostEach ih plan env target body feed
  runWhile := fun plan info condition body env =>
    h.related_runWhile ih plan env info condition body
  hostWhile := fun plan condition body env => h.related_hostWhile ih plan env condition body

/-- The runs of the two settings are related, whatever they run. -/
theorem related (n : Nat) : c.Related c' R n := by
  induction n with
  | zero => exact h.related_zero
  | succ n ih => exact h.related_succ ih

theorem call (fuel : Nat) (plan : Option FaultPlan) (args : List Value) :
    R _ _ (c.call fuel plan args) (c'.call fuel plan args) := by
  unfold Setting.call
  dsimp only
  rw [h.params, h.body, h.name]
  split
  · refine h.bind ((h.related fuel).run plan _ _) fun ⟨exit, env⟩ => ?_
    cases exit with
    | ret v => exact h.pure v
    | next => exact h.pure Value.none
  · exact h.halt _

end Simulates

end Setting

end StagedFlow
