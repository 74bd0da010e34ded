import StagedFlow.Exec.Run
import StagedFlow.Proofs.Evaluation
import StagedFlow.Proofs.Primitives

/-!
What a run does to a tracer. A run of statements adds nodes to the current region and reports
warnings, whatever becomes of the attempts in it; if it starts from values that are known to the
tracer, then it ends with such values. Main definitions: `Setting.tried`, `Setting.condCall`,
`Setting.forCall`, `Setting.whileCall`, `Setting.Sound`. Main result: `Setting.sound`.
-/
set_option autoImplicit false

namespace StagedFlow

open Tracer

namespace Exec

variable {known : Prop} {s : Tracer × Journal} {α : Type}

theorem keeps_ofEval {x : Eval α} {Q : α → Tracer → Prop}
    (h : x.Keeps (Tracer.protocol known) s.1 Q) :
    (Exec.ofEval x).Keeps (Exec.protocol known) s fun a s' => Q a s'.1 := by
  intro hs
  refine Step.Ensures.onFirst ((h hs).mono (fun a t' h' => ?_) fun _ t' h' => ?_)
  · exact ⟨⟨h'.1, List.prefix_rfl⟩, h'.2⟩
  · exact ⟨h', List.prefix_rfl⟩

theorem keeps_ofTracer {x : Step Tracer Fault α} {Q : α → Tracer → Prop}
    (h : x.Keeps (Tracer.protocol known) s.1 Q) :
    (Exec.ofTracer x).Keeps (Exec.protocol known) s fun a s' => Q a s'.1 :=
  keeps_ofEval h.mapError

/-- A known outcome is there at once. -/
theorem bind_ofOutcome_ok {β : Type} (a : α) (f : α → Exec β) :
    (Exec.ofEval (Eval.ofOutcome (.ok a)) >>= f) = f a :=
  rfl

theorem ofExcept_eq_ok {x : Except RunError α} {a : α} {s' : Tracer × Journal}
    (h : Exec.ofExcept x s = (.ok a, s')) : x = .ok a ∧ s' = s := by
  cases x with
  | ok b =>
    cases h
    exact ⟨rfl, rfl⟩
  | error e => cases h

theorem keeps_ofExcept {x : Except RunError α} {Q : α → Tracer × Journal → Prop}
    (h : ∀ a, x = .ok a → Q a s) : (Exec.ofExcept x).Keeps (Exec.protocol known) s Q := by
  cases x with
  | ok a => exact .done (h a rfl)
  | error e => exact .fail

theorem keeps_warn {options : Options} {d : Diagnostic} :
    (Exec.warn options d).Keeps (Exec.protocol known) s fun _ _ => True := by
  intro _
  refine Step.Ensures.modify ⟨⟨.of_nothing (.refl s.1), ?_⟩, trivial⟩
  simp only [Journal.report]
  split
  · exact List.prefix_rfl
  · exact List.prefix_append _ _

end Exec

/-- Warnings since a mark make way for one, if warnings are wanted. -/
theorem Journal.diagnostics_replaced {j j' : Journal} (options : Options) (d : Diagnostic)
    (h : j.diagnostics <+: j'.diagnostics) :
    ((j'.rewind j.diagnostics.length).report options d).diagnostics =
      j.diagnostics ++ (if options.quiet then [] else [d]) := by
  have htake : j'.diagnostics.take j.diagnostics.length = j.diagnostics :=
    (List.prefix_iff_eq_take.mp h).symm
  unfold report
  split
  · simp only [rewind, htake, List.append_nil]
  · simp only [rewind, htake]

/-- What is returned is known. -/
def Exit.Known (t : Tracer) : Exit → Prop
  | next => True
  | ret v => t.Knows v

namespace Setting

/-! ## Blocks at the point of their attempts -/

/-- Attempt a block; if that fails, its warning takes the place of all that came during the attempt,
and the host runs the block. -/
def tried (c : Setting) (info : BlockInfo) (call : Traced Journal (Failure RunError) (List Value))
    (commit : List Value → Env) (host : Exec Env) : Exec Env := do
  let mark ← Exec.mark
  let result ← info.attempt c.options.strict call
  match result with
  | .committed values => return commit values
  | .fallback d =>
    Exec.replaceWarnings c.options mark d
    host

/-- A conditional in the graph, from an arm on. -/
def condCall (c : Setting) (n : Nat) (plan : Option FaultPlan) (info : BlockInfo) (arm : FlowArm)
    (rest : List FlowArm) (otherwise : Option (List FlowStmt)) (predicate : Value) (env : Env)
    (init : List Value) : Traced Journal (Failure RunError) (List Value) :=
  FaultPlan.intercept plan .cond <|
    Tracer.cond predicate init
      (fun args => do
        let env ← c.runBody n none arm.body (Bindings.insertAll env info.inputs args)
        c.leaving info init info.outputs env)
      (fun args => do
        let env ← c.runArms n none info rest otherwise (Bindings.insertAll env info.inputs args)
        c.leaving info init info.outputs env)

/-- A counted loop in the graph. -/
def forCall (c : Setting) (n : Nat) (plan : Option FaultPlan) (info : BlockInfo) (target : Target)
    (body : List FlowStmt) (range : LoopRange) (elements : Elements) (env : Env)
    (init : List Value) : Traced Journal (Failure RunError) (List Value) :=
  FaultPlan.intercept plan .forLoop <|
    Tracer.forLoop range init fun index carried => do
      let env := Bindings.insertAll env info.inputs carried
      let item ← Exec.ofTracer (elements.element index)
      let env ← Exec.ofTracer (target.assign item env)
      let env ← c.runBody n none body env
      c.leaving info init info.inputs env

/-- A conditional loop in the graph. -/
def whileCall (c : Setting) (n : Nat) (plan : Option FaultPlan) (info : BlockInfo)
    (condition : Expr) (body : List FlowStmt) (env : Env) (init : List Value) :
    Traced Journal (Failure RunError) (List Value) :=
  FaultPlan.intercept plan .whileLoop <|
    Tracer.whileLoop init
      (fun args => Exec.ofEval (condition.eval (Bindings.insertAll env info.inputs args)))
      (fun args => do
        let env ← c.runBody n none body (Bindings.insertAll env info.inputs args)
        c.leaving info init info.inputs env)

section Equations

variable (c : Setting) (n : Nat) (plan : Option FaultPlan) (info : BlockInfo) (env : Env)

theorem runArms_cons (arm : FlowArm) (rest : List FlowArm) (otherwise : Option (List FlowStmt)) :
    c.runArms (n + 1) plan info (arm :: rest) otherwise env = (do
      let predicate ← Exec.ofEval (arm.condition.eval env)
      if c.mode = .eager || !predicate.isTraced then
        c.chooseArm n plan info arm rest otherwise predicate env
      else do
        let init ← c.entering info env
        c.tried info (c.condCall n plan info arm rest otherwise predicate env init)
          (Bindings.insertAll env info.outputs)
          (c.chooseArm n plan info arm rest otherwise predicate env)) := by
  rw [runArms]
  rfl

theorem runFor_succ (target : Target) (source : Expr) (body : List FlowStmt) (strategy : Strategy) :
    c.runFor (n + 1) plan info target source body strategy env = (do
      let items ← Exec.ofEval (source.eval env)
      if c.mode = .eager || strategy != .primitive then c.hostFor n plan target body items env
      else do
        let domain ← Exec.ofEval (Eval.ofOutcome (Domain.classify items target))
        if domain.kind.isConvertible then do
          let loop ← Exec.ofEval (Eval.ofOutcome items.loopRange)
          let init ← c.entering info env
          c.tried info (c.forCall n plan info target body loop.1 loop.2 env init)
            (Bindings.insertAll env info.inputs) (c.hostFor n plan target body items env)
        else if c.options.strict then Step.fail (info.violation (.iteration domain.reason))
        else do
          Exec.warn c.options ⟨.domain, info.kind, info.location, domain.reason, []⟩
          c.hostFor n plan target body items env) := by
  rw [runFor]
  rfl

theorem runWhile_succ (condition : Expr) (body : List FlowStmt) :
    c.runWhile (n + 1) plan info condition body env =
      (if c.mode = .eager then c.hostWhile n plan condition body env
      else do
        let init ← c.entering info env
        c.tried info (c.whileCall n plan info condition body env init)
          (Bindings.insertAll env info.inputs) (c.hostWhile n plan condition body env)) := by
  rw [runWhile]
  rfl

end Equations

/-! ## Single steps -/

section Steps

variable {known : Prop} {c : Setting} {s : Tracer × Journal} {env : Env}

theorem entering_eq_ok {info : BlockInfo} {init : List Value} {s' : Tracer × Journal}
    (h : c.entering info env s = (.ok init, s')) :
    s' = s ∧ env.collect info.inputs = .ok init := by
  obtain ⟨values, s₁, hvalues, h₁⟩ := Step.bind_eq_ok h
  obtain ⟨hcollect, rfl⟩ := Exec.ofExcept_eq_ok hvalues
  obtain ⟨_, s₂, hchecked, h₂⟩ := Step.bind_eq_ok h₁
  obtain ⟨-, rfl⟩ := Exec.ofExcept_eq_ok hchecked
  cases h₂
  exact ⟨rfl, hcollect⟩

theorem keeps_entering {info : BlockInfo} :
    (c.entering info env).Keeps (Exec.protocol known) s
      fun init s' => s' = s ∧ env.collect info.inputs = .ok init := by
  refine Step.Keeps.bind (Exec.keeps_ofExcept (Q := fun init s' => s' = s ∧
    env.collect info.inputs = .ok init) fun init h => ⟨rfl, h⟩) ?_
  rintro init s₁ _ _ ⟨rfl, hinit⟩
  refine Step.Keeps.bind (Exec.keeps_ofExcept (Q := fun _ s' => s' = s₁) fun _ _ => rfl) ?_
  rintro _ _ _ _ rfl
  exact .pure ⟨rfl, hinit⟩

theorem keeps_leaving {info : BlockInfo} {init : List Value} {outputs : List String}
    (henv : known → env.Known s.1) :
    (c.leaving info init outputs env).Keeps (Exec.protocol known) s
      fun values s' => known → ∀ v ∈ values, s'.1.Knows v := by
  refine Step.Keeps.bind (Exec.keeps_ofExcept (Q := fun values s' => s' = s ∧
    env.collect outputs = .ok values) fun values h => ⟨rfl, h⟩) ?_
  rintro values s₁ _ _ ⟨rfl, hvalues⟩
  refine Step.Keeps.bind (Exec.keeps_ofExcept (Q := fun _ s' => s' = s₁) fun _ _ => rfl) ?_
  rintro _ _ _ _ rfl
  exact .pure fun hk => (henv hk).collect hvalues

theorem keeps_act (span : Span) (action : Action) (henv : known → env.Known s.1) :
    (c.act span env action).Keeps (Exec.protocol known) s
      fun r s' => known → r.1.Known s'.1 ∧ r.2.Known s'.1 := by
  have hlater : ∀ {s'}, s.1.Numbered → (Exec.protocol known).leads s s' → known → env.Known s'.1 :=
    fun hs h hk => h.1.known hs (henv hk)
  cases action with
  | assign target value =>
    refine (Exec.keeps_ofEval (Expr.keeps_eval value s.1 henv)).bind fun v s' hs h hv => ?_
    refine (Exec.keeps_ofTracer (target.keeps_assign hv (hlater hs h))).bind
      fun env' s'' _ _ henv' => ?_
    exact .pure fun hk => ⟨trivial, henv' hk⟩
  | update name op value =>
    refine Step.Keeps.bind (Exec.keeps_ofExcept (Q := fun v s' => s' = s ∧
      env.lookup name = .ok v) fun v h => ⟨rfl, h⟩) ?_
    rintro current _ _ _ ⟨rfl, hcurrent⟩
    refine (Exec.keeps_ofEval (Expr.keeps_eval value _ henv)).bind fun v s' hs h hv => ?_
    have hargs : known → ∀ w ∈ [current, v], s'.1.Knows w := fun hk =>
      knows_pair (hlater hs h hk name _ (Env.lookup_eq_ok hcurrent)) (hv hk)
    refine (Exec.keeps_ofTracer (Tracer.keeps_apply (.binary op) hargs)).bind
      fun result s'' hs' h' hresult => ?_
    refine .pure fun hk => ⟨trivial, ?_⟩
    exact (h'.1.known hs' (hlater hs h hk)).insert (hresult hk) name
  | eval expr =>
    refine (Exec.keeps_ofEval (Expr.keeps_eval expr s.1 henv)).bind fun v s' hs h _ => ?_
    exact .pure fun hk => ⟨trivial, hlater hs h hk⟩
  | ret value =>
    cases value with
    | none => exact .pure fun hk => ⟨knows_of_nil rfl, henv hk⟩
    | some value =>
      refine (Exec.keeps_ofEval (Expr.keeps_eval value s.1 henv)).bind fun v s' hs h hv => ?_
      exact .pure fun hk => ⟨hv hk, hlater hs h hk⟩
  | raise message => exact .fail
  | pass => exact .pure fun hk => ⟨trivial, henv hk⟩

/-- A block that is tried follows the protocol: an attempt that failed has left nothing, and its
warning stands where it began. -/
theorem keeps_tried {info : BlockInfo} {call : Traced Journal (Failure RunError) (List Value)}
    {commit : List Value → Env} {host : Exec Env} (hcall : s.1.Numbered → Calls known call s)
    (hcommit : ∀ values s', s.1.Numbered → (Exec.protocol known).leads s s' → known →
      (∀ v ∈ values, s'.1.Knows v) → (commit values).Known s'.1)
    (hhost : ∀ s', s.1.Numbered → (Exec.protocol known).leads s s' →
      host.Keeps (Exec.protocol known) s' fun env s'' => known → env.Known s''.1) :
    (c.tried info call commit host).Keeps (Exec.protocol known) s
      fun env s' => known → env.Known s'.1 := by
  intro hs
  unfold tried
  refine .bind (.of_eq (y := Step.done s.2.diagnostics.length) rfl (.done ?_))
  refine .bind ((BlockInfo.ensures_attempt info c.options.strict hs (hcall hs)).mono ?_ ?_)
  · rintro (values | d) s' ⟨hreported, hresult⟩
    · have hleads : (Exec.protocol known).leads s s' := ⟨hresult.1, hreported⟩
      exact .pure ⟨hleads, fun hk => hcommit values s' hs hleads hk (hresult.2 hk)⟩
    · -- the warnings of the attempt are dropped, and those from before it are all still there
      refine .bind (.modify ?_)
      obtain ⟨t', j'⟩ := s'
      have hleads : (Exec.protocol known).leads s
          (t', (j'.rewind s.2.diagnostics.length).report c.options d) := by
        refine ⟨.of_nothing hresult.1, ?_⟩
        rw [Journal.diagnostics_replaced c.options d hreported]
        exact List.prefix_append _ _
      have hs' := (Exec.protocol known).keeps hs hleads
      refine (hhost _ hs hleads hs').mono (fun env s'' h => ?_) fun _ s'' h => ?_
      · exact ⟨(Exec.protocol known).trans hs hleads h.1, h.2⟩
      · exact (Exec.protocol known).trans hs hleads h
  · rintro _ s' ⟨hreported, hnothing⟩
    exact ⟨.of_nothing hnothing, hreported⟩

/-- A block that is attempted where the environment is known leads to a known one: the attempt binds
names to known values, and the host starts from where the attempt began. -/
theorem keeps_attempted {info : BlockInfo} {names : List String}
    {call : List Value → Traced Journal (Failure RunError) (List Value)} {host : Exec Env}
    (henv : known → env.Known s.1)
    (hcall : ∀ init, s.1.Numbered → (known → ∀ v ∈ init, s.1.Knows v) → Calls known (call init) s)
    (hhost : ∀ s', s.1.Numbered → (Exec.protocol known).leads s s' →
      host.Keeps (Exec.protocol known) s' fun env s'' => known → env.Known s''.1) :
    (do
      let init ← c.entering info env
      c.tried info (call init) (Bindings.insertAll env names) host).Keeps (Exec.protocol known) s
        fun env s' => known → env.Known s'.1 := by
  refine keeps_entering.bind ?_
  rintro init s₁ _ _ ⟨rfl, hinit⟩
  refine keeps_tried (fun hs => hcall init hs fun hk => (henv hk).collect hinit)
    (fun values s' hs h hk hvalues => ?_) hhost
  exact (h.1.known hs (henv hk)).insertAll hvalues

end Steps

/-! ## Runs -/

/-- With this much fuel, all parts of a run follow the protocol. -/
structure Sound (c : Setting) (known : Prop) (n : Nat) : Prop where
  run : ∀ plan body {env : Env} {s : Tracer × Journal}, (known → env.Known s.1) →
    (c.run n plan body env).Keeps (Exec.protocol known) s
      fun r s' => known → r.1.Known s'.1 ∧ r.2.Known s'.1
  runStmt : ∀ plan stmt {env : Env} {s : Tracer × Journal}, (known → env.Known s.1) →
    (c.runStmt n plan stmt env).Keeps (Exec.protocol known) s
      fun r s' => known → r.1.Known s'.1 ∧ r.2.Known s'.1
  runBody : ∀ plan body {env : Env} {s : Tracer × Journal}, (known → env.Known s.1) →
    (c.runBody n plan body env).Keeps (Exec.protocol known) s fun env s' => known → env.Known s'.1
  runArms : ∀ plan info arms otherwise {env : Env} {s : Tracer × Journal},
    (known → env.Known s.1) → (c.runArms n plan info arms otherwise env).Keeps
      (Exec.protocol known) s fun env s' => known → env.Known s'.1
  chooseArm : ∀ plan info arm rest otherwise predicate {env : Env} {s : Tracer × Journal},
    (known → env.Known s.1) → (c.chooseArm n plan info arm rest otherwise predicate env).Keeps
      (Exec.protocol known) s fun env s' => known → env.Known s'.1
  runFor : ∀ plan info target source body strategy {env : Env} {s : Tracer × Journal},
    (known → env.Known s.1) → (c.runFor n plan info target source body strategy env).Keeps
      (Exec.protocol known) s fun env s' => known → env.Known s'.1
  hostFor : ∀ plan target body {items : Value} {env : Env} {s : Tracer × Journal},
    (known → s.1.Knows items) → (known → env.Known s.1) →
    (c.hostFor n plan target body items env).Keeps (Exec.protocol known) s
      fun env s' => known → env.Known s'.1
  hostEach : ∀ plan target body {feed : Feed} {env : Env} {s : Tracer × Journal},
    (known → feed.Known s.1) → (known → env.Known s.1) →
    (c.hostEach n plan target body feed env).Keeps (Exec.protocol known) s
      fun env s' => known → env.Known s'.1
  runWhile : ∀ plan info condition body {env : Env} {s : Tracer × Journal},
    (known → env.Known s.1) → (c.runWhile n plan info condition body env).Keeps
      (Exec.protocol known) s fun env s' => known → env.Known s'.1
  hostWhile : ∀ plan condition body {env : Env} {s : Tracer × Journal},
    (known → env.Known s.1) → (c.hostWhile n plan condition body env).Keeps
      (Exec.protocol known) s fun env s' => known → env.Known s'.1

section Runs

variable {known : Prop} {c : Setting} {n : Nat}

theorem sound_zero : c.Sound known 0 where
  run := fun _ _ _ _ _ => by
    rw [Setting.run]
    exact .halt_outOfFuel
  runStmt := fun _ _ _ _ _ => by
    rw [Setting.runStmt]
    exact .halt_outOfFuel
  runBody := fun _ _ _ _ _ => by
    rw [Setting.runBody]
    exact .halt_outOfFuel
  runArms := fun _ _ _ _ _ _ _ => by
    rw [Setting.runArms]
    exact .halt_outOfFuel
  chooseArm := fun _ _ _ _ _ _ _ _ _ => by
    rw [Setting.chooseArm]
    exact .halt_outOfFuel
  runFor := fun _ _ _ _ _ _ _ _ _ => by
    rw [Setting.runFor]
    exact .halt_outOfFuel
  hostFor := fun _ _ _ _ _ _ _ _ => by
    rw [Setting.hostFor]
    exact .halt_outOfFuel
  hostEach := fun _ _ _ _ _ _ _ _ => by
    rw [Setting.hostEach]
    exact .halt_outOfFuel
  runWhile := fun _ _ _ _ _ _ _ => by
    rw [Setting.runWhile]
    exact .halt_outOfFuel
  hostWhile := fun _ _ _ _ _ _ => by
    rw [Setting.hostWhile]
    exact .halt_outOfFuel

/-- A part of a block as a callback: it starts from the environment with its arguments in it. -/
theorem callback_part {t : Tracer} {env : Env} {info : BlockInfo} {init : List Value}
    {outputs : List String} {part : Env → Exec Env} (henv : known → env.Known t)
    (hpart : ∀ {env : Env} {s : Tracer × Journal}, (known → env.Known s.1) →
      (part env).Keeps (Exec.protocol known) s fun env s' => known → env.Known s'.1) :
    Callback known t (fun args => do
      let env ← part (Bindings.insertAll env info.inputs args)
      c.leaving info init outputs env) := by
  intro args t' j ht hargs
  have henv' : known → Env.Known t' (Bindings.insertAll env info.inputs args) :=
    fun hk => Env.Known.insertAll (fun name v hv => ht v (henv hk name v hv)) hargs
  exact (hpart (s := (t', j)) henv').bind fun env' s' _ _ h => keeps_leaving h

theorem calls_condCall (ih : c.Sound known n) (plan : Option FaultPlan) (info : BlockInfo)
    (arm : FlowArm) (rest : List FlowArm) (otherwise : Option (List FlowStmt)) {predicate : Value}
    {env : Env} {init : List Value} {s : Tracer × Journal} (hs : s.1.Numbered)
    (hpredicate : known → s.1.Knows predicate) (henv : known → env.Known s.1)
    (hinit : known → ∀ v ∈ init, s.1.Knows v) :
    Calls known (c.condCall n plan info arm rest otherwise predicate env init) s := by
  obtain ⟨t, j⟩ := s
  refine FaultPlan.calls_intercept plan .cond fun j' _ => ?_
  refine calls_cond (s := (t, j')) hs hpredicate hinit ?_ ?_
  · exact callback_part henv (ih.runBody none arm.body)
  · exact callback_part henv (ih.runArms none info rest otherwise)

theorem calls_whileCall (ih : c.Sound known n) (plan : Option FaultPlan) (info : BlockInfo)
    (condition : Expr) (body : List FlowStmt) {env : Env} {init : List Value}
    {s : Tracer × Journal} (hs : s.1.Numbered) (henv : known → env.Known s.1)
    (hinit : known → ∀ v ∈ init, s.1.Knows v) :
    Calls known (c.whileCall n plan info condition body env init) s := by
  obtain ⟨t, j⟩ := s
  refine FaultPlan.calls_intercept plan .whileLoop fun j' _ => ?_
  refine calls_whileLoop (s := (t, j')) hs hinit ?_ ?_
  · intro args t' j'' ht hargs
    have henv' : known → Env.Known t' (Bindings.insertAll env info.inputs args) :=
      fun hk => Env.Known.insertAll (fun name v hv => ht v (henv hk name v hv)) hargs
    refine (Exec.keeps_ofEval (s := (t', j'')) (Expr.keeps_eval condition t' henv')).bind
      fun v s' _ _ hv => ?_
    refine .pure fun hk w hw => ?_
    rw [List.mem_singleton.mp hw]
    exact hv hk
  · exact callback_part henv (ih.runBody none body)

theorem calls_forCall (ih : c.Sound known n) (plan : Option FaultPlan) (info : BlockInfo)
    (target : Target) (body : List FlowStmt) {range : LoopRange} {elements : Elements} {env : Env}
    {init : List Value} {s : Tracer × Journal} (hs : s.1.Numbered)
    (hrange : known → range.Known s.1 ∧ elements.Known s.1) (henv : known → env.Known s.1)
    (hinit : known → ∀ v ∈ init, s.1.Knows v) :
    Calls known (c.forCall n plan info target body range elements env init) s := by
  obtain ⟨t, j⟩ := s
  refine FaultPlan.calls_intercept plan .forLoop fun j' _ => ?_
  refine calls_forLoop (s := (t, j')) hs (fun hk => (hrange hk).1) hinit ?_
  have hround : ∀ index carried t' j'', (∀ v, t.Knows v → t'.Knows v) → t'.Knows index →
      (∀ v ∈ carried, t'.Knows v) →
      (do
        let item ← Exec.ofTracer (elements.element index)
        let env ← Exec.ofTracer (target.assign item (Bindings.insertAll env info.inputs carried))
        let env ← c.runBody n none body env
        c.leaving info init info.inputs env).Keeps (Exec.protocol known) (t', j'')
          fun values s => known → ∀ v ∈ values, s.1.Knows v := by
    intro index carried t' j'' ht hindex hcarried
    have henv' : known → Env.Known t' (Bindings.insertAll env info.inputs carried) :=
      fun hk => Env.Known.insertAll (fun name v hv => ht v (henv hk name v hv)) hcarried
    have helements : known → elements.Known t' := fun hk => (hrange hk).2.mono ht
    refine (Exec.keeps_ofTracer (s := (t', j''))
      (Elements.keeps_element helements fun _ => hindex)).bind fun item s₁ hs₁ h₁ hitem => ?_
    refine (Exec.keeps_ofTracer (target.keeps_assign hitem
      fun hk => h₁.1.known hs₁ (henv' hk))).bind fun env₂ s₂ _ _ henv₂ => ?_
    refine (ih.runBody none body henv₂).bind fun env₃ s₃ _ _ henv₃ => ?_
    exact keeps_leaving henv₃
  intro args t' j'' ht hargs
  cases args with
  | nil => exact hround (.int 0) [] t' j'' ht (knows_of_nil rfl) hargs
  | cons index carried =>
    exact hround index carried t' j'' ht (hargs index (by simp)) fun v hv => hargs v (by simp [hv])

/-! One lemma for each part of a run: with one more unit of fuel it follows the protocol. -/

section Parts

variable {env : Env} {s : Tracer × Journal} (ih : c.Sound known n) (plan : Option FaultPlan)
  (henv : known → env.Known s.1)

include ih henv

theorem sound_run (body : List FlowStmt) :
    (c.run (n + 1) plan body env).Keeps (Exec.protocol known) s
      fun r s' => known → r.1.Known s'.1 ∧ r.2.Known s'.1 := by
  cases body with
  | nil =>
    rw [Setting.run]
    exact .pure fun hk => ⟨trivial, henv hk⟩
  | cons stmt rest =>
    rw [Setting.run]
    refine (ih.runStmt plan stmt henv).bind fun r s' _ _ hr => ?_
    obtain ⟨exit, env'⟩ := r
    cases exit with
    | ret v => exact .pure hr
    | next => exact ih.run plan rest fun hk => (hr hk).2

theorem sound_runStmt (stmt : FlowStmt) :
    (c.runStmt (n + 1) plan stmt env).Keeps (Exec.protocol known) s
      fun r s' => known → r.1.Known s'.1 ∧ r.2.Known s'.1 := by
  cases stmt with
  | act action span =>
    rw [Setting.runStmt]
    exact keeps_act span action henv
  | cond info arms otherwise =>
    rw [Setting.runStmt]
    exact (ih.runArms plan info arms otherwise henv).bind fun env' s' _ _ henv' =>
      .pure fun hk => ⟨trivial, henv' hk⟩
  | forIn info target source body _ strategy =>
    rw [Setting.runStmt]
    exact (ih.runFor plan info target source body strategy henv).bind fun env' s' _ _ henv' =>
      .pure fun hk => ⟨trivial, henv' hk⟩
  | whileDo info condition body =>
    rw [Setting.runStmt]
    exact (ih.runWhile plan info condition body henv).bind fun env' s' _ _ henv' =>
      .pure fun hk => ⟨trivial, henv' hk⟩

theorem sound_runArms (info : BlockInfo) (arms : List FlowArm)
    (otherwise : Option (List FlowStmt)) :
    (c.runArms (n + 1) plan info arms otherwise env).Keeps (Exec.protocol known) s
      fun env s' => known → env.Known s'.1 := by
  cases arms with
  | nil =>
    cases otherwise with
    | none =>
      rw [Setting.runArms]
      exact .pure henv
    | some body =>
      rw [Setting.runArms]
      exact ih.runBody plan body henv
  | cons arm rest =>
    rw [runArms_cons]
    refine (Exec.keeps_ofEval (Expr.keeps_eval arm.condition s.1 henv)).bind
      fun predicate s₁ hs h₁ hpredicate => ?_
    have henv₁ : known → env.Known s₁.1 := fun hk => h₁.1.known hs (henv hk)
    split
    · exact ih.chooseArm plan info arm rest otherwise predicate henv₁
    · refine keeps_attempted henv₁ (fun init hs₁ hinit => ?_) fun s' hs₁ h => ?_
      · exact calls_condCall ih plan info arm rest otherwise hs₁ hpredicate henv₁ hinit
      · exact ih.chooseArm plan info arm rest otherwise predicate
          fun hk => h.1.known hs₁ (henv₁ hk)

theorem sound_chooseArm (info : BlockInfo) (arm : FlowArm) (rest : List FlowArm)
    (otherwise : Option (List FlowStmt)) (predicate : Value) :
    (c.chooseArm (n + 1) plan info arm rest otherwise predicate env).Keeps (Exec.protocol known) s
      fun env s' => known → env.Known s'.1 := by
  rw [Setting.chooseArm]
  refine (Exec.keeps_ofEval (Eval.keeps_ofFault (Q := fun _ t' => t' = s.1)
    fun _ _ => rfl)).bind fun truth s' hs h _ => ?_
  have henv' : known → env.Known s'.1 := fun hk => h.1.known hs (henv hk)
  split
  · exact ih.runBody plan arm.body henv'
  · exact ih.runArms plan info rest otherwise henv'

theorem sound_runFor (info : BlockInfo) (target : Target) (source : Expr) (body : List FlowStmt)
    (strategy : Strategy) :
    (c.runFor (n + 1) plan info target source body strategy env).Keeps (Exec.protocol known) s
      fun env s' => known → env.Known s'.1 := by
  rw [runFor_succ]
  refine (Exec.keeps_ofEval (Expr.keeps_eval source s.1 henv)).bind
    fun items s₁ hs h₁ hitems => ?_
  have henv₁ : known → env.Known s₁.1 := fun hk => h₁.1.known hs (henv hk)
  -- from `s₁` on the items are there, and the host can take them up at any later point
  have hhost : ∀ s', s₁.1.Numbered → (Exec.protocol known).leads s₁ s' →
      (c.hostFor n plan target body items env).Keeps (Exec.protocol known) s'
        fun env s'' => known → env.Known s''.1 := fun s' hs₁ h =>
    ih.hostFor plan target body (fun hk => h.1.knows hs₁ (hitems hk))
      fun hk => h.1.known hs₁ (henv₁ hk)
  split
  · exact ih.hostFor plan target body hitems henv₁
  refine (Exec.keeps_ofEval (Eval.keeps_ofOutcome (Q := fun _ t' => t' = s₁.1)
    fun _ _ => rfl)).bind fun domain s₂ hs₁ h₂ ht₂ => ?_
  have henv₂ : known → env.Known s₂.1 := fun hk => h₂.1.known hs₁ (henv₁ hk)
  split
  · refine (Exec.keeps_ofEval (Eval.keeps_ofOutcome (Q := fun r t' => t' = s₂.1 ∧
      items.loopRange = .ok r) fun _ h => ⟨rfl, h⟩)).bind ?_
    rintro ⟨range, elements⟩ s₃ hs₂ h₃ ⟨ht₃, hrange⟩
    have henv₃ : known → env.Known s₃.1 := fun hk => h₃.1.known hs₂ (henv₂ hk)
    have hknown : known → range.Known s₃.1 ∧ elements.Known s₃.1 := by
      intro hk
      rw [ht₃, ht₂]
      exact Value.known_loopRange (hitems hk) hrange
    refine keeps_attempted henv₃ (fun init hs₃ hinit => ?_) fun s' hs₃ h => ?_
    · exact calls_forCall ih plan info target body hs₃ hknown henv₃ hinit
    · exact hhost s' hs₁ ((Exec.protocol known).trans hs₁ h₂
        ((Exec.protocol known).trans hs₂ h₃ h))
  split
  · exact .fail
  · exact Exec.keeps_warn.bind fun _ s₃ hs₂ h₃ _ =>
      hhost s₃ hs₁ ((Exec.protocol known).trans hs₁ h₂ h₃)

theorem sound_hostEach (target : Target) (body : List FlowStmt) {feed : Feed}
    (hfeed : known → feed.Known s.1) :
    (c.hostEach (n + 1) plan target body feed env).Keeps (Exec.protocol known) s
      fun env s' => known → env.Known s'.1 := by
  rw [Setting.hostEach]
  split
  · exact .pure henv
  · next item feed' hnext =>
    have hitem : known → s.1.Knows item ∧ feed'.Known s.1 := fun hk => (hfeed hk).next? hnext
    refine (Exec.keeps_ofTracer (target.keeps_assign (fun hk => (hitem hk).1) henv)).bind
      fun env₁ s₁ hs h₁ henv₁ => ?_
    refine (ih.runBody plan body henv₁).bind fun env₂ s₂ hs₁ h₂ henv₂ => ?_
    refine ih.hostEach plan target body (fun hk => ?_) henv₂
    exact (hitem hk).2.mono fun v hv => h₂.1.knows hs₁ (h₁.1.knows hs hv)

theorem sound_runWhile (info : BlockInfo) (condition : Expr) (body : List FlowStmt) :
    (c.runWhile (n + 1) plan info condition body env).Keeps (Exec.protocol known) s
      fun env s' => known → env.Known s'.1 := by
  rw [runWhile_succ]
  split
  · exact ih.hostWhile plan condition body henv
  · refine keeps_attempted henv (fun init hs hinit => ?_) fun s' hs h => ?_
    · exact calls_whileCall ih plan info condition body hs henv hinit
    · exact ih.hostWhile plan condition body fun hk => h.1.known hs (henv hk)

theorem sound_hostWhile (condition : Expr) (body : List FlowStmt) :
    (c.hostWhile (n + 1) plan condition body env).Keeps (Exec.protocol known) s
      fun env s' => known → env.Known s'.1 := by
  rw [Setting.hostWhile]
  refine (Exec.keeps_ofEval (Expr.keeps_eval condition s.1 henv)).bind
    fun predicate s₁ hs h₁ _ => ?_
  have henv₁ : known → env.Known s₁.1 := fun hk => h₁.1.known hs (henv hk)
  refine (Exec.keeps_ofEval (Eval.keeps_ofFault (Q := fun _ t' => t' = s₁.1)
    fun _ _ => rfl)).bind fun truth s₂ hs₁ h₂ _ => ?_
  have henv₂ : known → env.Known s₂.1 := fun hk => h₂.1.known hs₁ (henv₁ hk)
  split
  · refine (ih.runBody plan body henv₂).bind fun env₃ s₃ _ _ henv₃ => ?_
    exact ih.hostWhile plan condition body henv₃
  · exact .pure henv₂

end Parts

theorem sound_succ (ih : c.Sound known n) : c.Sound known (n + 1) where
  run := fun plan body _ _ henv => sound_run ih plan henv body
  runStmt := fun plan stmt _ _ henv => sound_runStmt ih plan henv stmt
  runBody := fun plan body _ _ henv => by
    rw [Setting.runBody]
    exact (ih.run plan body henv).bind fun r s' _ _ hr => .pure fun hk => (hr hk).2
  runArms := fun plan info arms otherwise _ _ henv =>
    sound_runArms ih plan henv info arms otherwise
  chooseArm := fun plan info arm rest otherwise predicate _ _ henv =>
    sound_chooseArm ih plan henv info arm rest otherwise predicate
  runFor := fun plan info target source body strategy _ _ henv =>
    sound_runFor ih plan henv info target source body strategy
  hostFor := fun plan target body items env s hitems henv => by
    rw [Setting.hostFor]
    refine (Exec.keeps_ofTracer (Feed.keeps_of hitems)).bind fun feed s' hs h hfeed => ?_
    exact ih.hostEach plan target body hfeed fun hk => h.1.known hs (henv hk)
  hostEach := fun plan target body _ _ _ hfeed henv =>
    sound_hostEach ih plan henv target body hfeed
  runWhile := fun plan info condition body _ _ henv =>
    sound_runWhile ih plan henv info condition body
  hostWhile := fun plan condition body _ _ henv => sound_hostWhile ih plan henv condition body

/-- Every run follows the protocol, whatever its fuel. -/
theorem sound (c : Setting) (known : Prop) (n : Nat) : c.Sound known n := by
  induction n with
  | zero => exact sound_zero
  | succ n ih => exact sound_succ ih

end Runs

end Setting

end StagedFlow
