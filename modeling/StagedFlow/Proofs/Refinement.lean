import StagedFlow.Proofs.Conversion
import StagedFlow.Proofs.StagedBlocks

/-!
A staged run of a program on scalars does what the run on the host does, whichever of its blocks were
taken into the graph: if the nodes that the run has added come to an end, then so does the run on the
host, with environments that agree on what is live. Main definitions: `Setting.onHost`,
`Setting.Refines`. Main result: `Setting.refines`.
-/
set_option autoImplicit false

namespace StagedFlow

open Tracer Store Step

theorem Store.Reads.truthy {σ : Store} {bound : Nat} {v w : Value} {truth : Bool}
    (h : σ.Reads bound v w) (hv : v.truthy = .ok truth) : w.truthy = .ok truth := by
  cases h with
  | host _ => exact hv
  | traced _ _ => cases hv

namespace Setting

/-! ## Parts of a run only add nodes -/

section Growth

variable {c : Setting} {n : Nat} {plan : Option FaultPlan} {env : Env} {info : BlockInfo}
  {target : Target} {source condition : Expr} {body : List FlowStmt} {arm : FlowArm}
  {arms : List FlowArm} {otherwise : Option (List FlowStmt)} {init : List Value}
  {commit : List Value → Env} {host : Exec Env}

instance : Grows Prod.fst (c.run n plan body env) :=
  grows_exec_of_keeps fun _ => (c.sound False n).run plan body False.elim

instance (stmt : FlowStmt) : Grows Prod.fst (c.runStmt n plan stmt env) :=
  grows_exec_of_keeps fun _ => (c.sound False n).runStmt plan stmt False.elim

instance : Grows Prod.fst (c.runBody n plan body env) :=
  grows_exec_of_keeps fun _ => (c.sound False n).runBody plan body False.elim

instance : Grows Prod.fst (c.runArms n plan info arms otherwise env) :=
  grows_exec_of_keeps fun _ => (c.sound False n).runArms plan info arms otherwise False.elim

instance (predicate : Value) :
    Grows Prod.fst (c.chooseArm n plan info arm arms otherwise predicate env) :=
  grows_exec_of_keeps fun _ =>
    (c.sound False n).chooseArm plan info arm arms otherwise predicate False.elim

instance (strategy : Strategy) :
    Grows Prod.fst (c.runFor n plan info target source body strategy env) :=
  grows_exec_of_keeps fun _ =>
    (c.sound False n).runFor plan info target source body strategy False.elim

instance (items : Value) : Grows Prod.fst (c.hostFor n plan target body items env) :=
  grows_exec_of_keeps fun _ => (c.sound False n).hostFor plan target body False.elim False.elim

instance (feed : Feed) : Grows Prod.fst (c.hostEach n plan target body feed env) :=
  grows_exec_of_keeps fun _ => (c.sound False n).hostEach plan target body False.elim False.elim

instance : Grows Prod.fst (c.runWhile n plan info condition body env) :=
  grows_exec_of_keeps fun _ => (c.sound False n).runWhile plan info condition body False.elim

instance : Grows Prod.fst (c.hostWhile n plan condition body env) :=
  grows_exec_of_keeps fun _ => (c.sound False n).hostWhile plan condition body False.elim

instance : Grows Prod.fst (c.entering info env) :=
  grows_exec_of_keeps fun _ => keeps_entering

instance (options : Options) (d : Diagnostic) : Grows Prod.fst (Exec.warn options d) :=
  grows_exec_of_keeps fun _ => Exec.keeps_warn

instance {α : Type} (x : Except Fault α) : Grows id (Eval.ofFault x) :=
  grows_of_keeps fun t => Eval.keeps_ofFault (Q := fun _ t' => t' = t) fun _ _ => rfl

instance {α : Type} (x : Outcome α) : Grows id (Eval.ofOutcome x) :=
  grows_of_keeps fun t => Eval.keeps_ofOutcome (Q := fun _ t' => t' = t) fun _ _ => rfl

instance (predicate : Value) [Grows Prod.fst host] :
    Grows Prod.fst (c.tried info (c.condCall n plan info arm arms otherwise predicate env init)
      commit host) :=
  grows_tried fun _ hs => calls_condCall (c.sound False n) plan info arm arms otherwise hs False.elim
    False.elim False.elim

instance (range : LoopRange) (elements : Elements) [Grows Prod.fst host] :
    Grows Prod.fst (c.tried info (c.forCall n plan info target body range elements env init) commit
      host) :=
  grows_tried fun _ hs => calls_forCall (c.sound False n) plan info target body hs False.elim
    False.elim False.elim

end Growth

/-! ## The refinement -/

/-- The same function and options, with all blocks on the host. -/
def onHost (c : Setting) : Setting :=
  { c with mode := .eager }

/-- With this much fuel, each part of a run follows the same part on the host. -/
structure Refines (c : Setting) (n : Nat) : Prop where
  run : ∀ {inside : Bool} {body : List FlowStmt} {before after : List String} {env host : Env}
    {s : Tracer × Journal} {σ : Store}, FlowStmt.allScalar inside body = true →
    FlowStmt.allThread BlockInfo.Hands body before after → Agrees σ s.1.nextValue before env host →
    (c.run n none body env).Records Prod.fst s σ fun r s' σ' =>
      ∃ r', Yields (fun m => c.onHost.run m none body host) r' ∧
        Ends σ' s'.1.nextValue inside before after (FlowStmt.assignedIn body) host r r'
  runStmt : ∀ {inside : Bool} {stmt : FlowStmt} {before after : List String} {env host : Env}
    {s : Tracer × Journal} {σ : Store}, stmt.isScalar inside = true →
    stmt.Threads BlockInfo.Hands before after → Agrees σ s.1.nextValue before env host →
    (c.runStmt n none stmt env).Records Prod.fst s σ fun r s' σ' =>
      ∃ r', Yields (fun m => c.onHost.runStmt m none stmt host) r' ∧
        Ends σ' s'.1.nextValue inside before after stmt.assigned host r r'
  runBody : ∀ {body : List FlowStmt} {before after : List String} {env host : Env}
    {s : Tracer × Journal} {σ : Store}, FlowStmt.allScalar true body = true →
    FlowStmt.allThread BlockInfo.Hands body before after → Agrees σ s.1.nextValue before env host →
    (c.runBody n none body env).Follows s σ before after (FlowStmt.assignedIn body) host
      fun m => c.onHost.runBody m none body host
  runArms : ∀ {inside : Bool} {info : BlockInfo} {arms : List FlowArm}
    {otherwise : Option (List FlowStmt)} {before after : List String} {env host : Env}
    {s : Tracer × Journal} {σ : Store}, (FlowStmt.cond info arms otherwise).isScalar inside = true →
    (FlowStmt.cond info arms otherwise).Threads BlockInfo.Hands before after →
    Agrees σ s.1.nextValue before env host →
    (c.runArms n none info arms otherwise env).Follows s σ before after
      (FlowStmt.cond info arms otherwise).assigned host
      fun m => c.onHost.runArms m none info arms otherwise host
  chooseArm : ∀ {inside : Bool} {info : BlockInfo} {arm : FlowArm} {rest : List FlowArm}
    {otherwise : Option (List FlowStmt)} {before after : List String} {env host : Env}
    {predicate : Value} {x : Scalar} {s : Tracer × Journal} {σ : Store},
    (FlowStmt.cond info (arm :: rest) otherwise).isScalar inside = true →
    (FlowStmt.cond info (arm :: rest) otherwise).Threads BlockInfo.Hands before after →
    Agrees σ s.1.nextValue before env host → σ.Reads s.1.nextValue predicate (.scalar x) →
    (c.chooseArm n none info arm rest otherwise predicate env).Follows s σ before after
      (FlowStmt.cond info (arm :: rest) otherwise).assigned host
      fun m => c.onHost.chooseArm m none info arm rest otherwise (.scalar x) host
  runFor : ∀ {inside : Bool} {info : BlockInfo} {target : Target} {source : Expr}
    {body : List FlowStmt} {domain : Option Domain} {strategy : Strategy}
    {before after : List String} {env host : Env} {s : Tracer × Journal} {σ : Store},
    (FlowStmt.forIn info target source body domain strategy).isScalar inside = true →
    (FlowStmt.forIn info target source body domain strategy).Threads BlockInfo.Hands before after →
    Agrees σ s.1.nextValue before env host →
    (c.runFor n none info target source body strategy env).Follows s σ before after
      (FlowStmt.forIn info target source body domain strategy).assigned host
      fun m => c.onHost.runFor m none info target source body strategy host
  hostFor : ∀ {info : BlockInfo} {target : String} {source : Expr} {body : List FlowStmt}
    {strategy : Strategy} {items : Value} {head entry : List String} {env host : Env}
    {s : Tracer × Journal} {σ : Store}, (∃ start stop step, items = .range start stop step) →
    (∀ counting, items.counting? = some counting → (source.eval host).Returns items) →
    FlowStmt.allScalar true body = true → FlowStmt.allThread BlockInfo.Hands body entry head →
    (∀ x ∈ entry, x ≠ target → x ∈ head) → Agrees σ s.1.nextValue head env host →
    (c.hostFor n none (.name target) body items env).Follows s σ head head
      (target :: FlowStmt.assignedIn body) host
      fun m => c.onHost.runFor m none info (.name target) source body strategy host
  hostEach : ∀ {target : String} {body : List FlowStmt} {counting : Counting} {k : Nat}
    {head entry : List String} {env host : Env} {s : Tracer × Journal} {σ : Store},
    FlowStmt.allScalar true body = true → FlowStmt.allThread BlockInfo.Hands body entry head →
    (∀ x ∈ entry, x ≠ target → x ∈ head) → Agrees σ s.1.nextValue head env host →
    (c.hostEach n none (.name target) body (.counting counting k) env).Follows s σ head head
      (target :: FlowStmt.assignedIn body) host
      fun m => c.onHost.hostEach m none (.name target) body (.counting counting k) host
  runWhile : ∀ {inside : Bool} {info : BlockInfo} {condition : Expr} {body : List FlowStmt}
    {before after : List String} {env host : Env} {s : Tracer × Journal} {σ : Store},
    (FlowStmt.whileDo info condition body).isScalar inside = true →
    (FlowStmt.whileDo info condition body).Threads BlockInfo.Hands before after →
    Agrees σ s.1.nextValue before env host →
    (c.runWhile n none info condition body env).Follows s σ before after
      (FlowStmt.whileDo info condition body).assigned host
      fun m => c.onHost.runWhile m none info condition body host
  hostWhile : ∀ {condition : Expr} {body : List FlowStmt} {head : List String} {env host : Env}
    {s : Tracer × Journal} {σ : Store}, condition.isScalar = true → condition.uses ⊆ head →
    FlowStmt.allScalar true body = true → FlowStmt.allThread BlockInfo.Hands body head head →
    Agrees σ s.1.nextValue head env host →
    (c.hostWhile n none condition body env).Follows s σ head head (FlowStmt.assignedIn body) host
      fun m => c.onHost.hostWhile m none condition body host

section Steps

variable {c : Setting} {n : Nat} {env host : Env} {s : Tracer × Journal} {σ : Store}

theorem refines_zero : c.Refines 0 where
  run := fun _ _ _ => by
    rw [Setting.run]
    exact Records.of_halt
  runStmt := fun _ _ _ => by
    rw [Setting.runStmt]
    exact Records.of_halt
  runBody := fun _ _ _ => by
    rw [Setting.runBody]
    exact Records.of_halt
  runArms := fun _ _ _ => by
    rw [Setting.runArms]
    exact Records.of_halt
  chooseArm := fun _ _ _ _ => by
    rw [Setting.chooseArm]
    exact Records.of_halt
  runFor := fun _ _ _ => by
    rw [Setting.runFor]
    exact Records.of_halt
  hostFor := fun _ _ _ _ _ _ => by
    rw [Setting.hostFor]
    exact Records.of_halt
  hostEach := fun _ _ _ _ => by
    rw [Setting.hostEach]
    exact Records.of_halt
  runWhile := fun _ _ _ => by
    rw [Setting.runWhile]
    exact Records.of_halt
  hostWhile := fun _ _ _ _ _ => by
    rw [Setting.hostWhile]
    exact Records.of_halt

theorem ofFault_eq_ok {α : Type} {x : Except Fault α} {a : α} {s' : Tracer × Journal}
    (h : Exec.ofEval (Eval.ofFault x) s = (.ok a, s')) : s' = s ∧ x = .ok a := by
  cases x with
  | error f => cases h
  | ok b =>
    cases h
    exact ⟨rfl, rfl⟩

/-! ### Statements -/

section Statements

variable {inside : Bool} {body : List FlowStmt} {before after : List String}

theorem grows_afterStmt (c : Setting) (n : Nat) (rest : List FlowStmt) (r : Exit × Env) :
    Grows Prod.fst (match r with
      | (exit, env) => match exit with
        | .ret v => (pure (.ret v, env) : Exec (Exit × Env))
        | .next => c.run n none rest env) := by
  obtain ⟨exit, env⟩ := r
  cases exit with
  | ret v => exact inferInstanceAs (Grows Prod.fst (pure (Exit.ret v, env)))
  | next => exact inferInstanceAs (Grows Prod.fst (c.run n none rest env))

theorem refines_run (ih : c.Refines n) (hscalar : FlowStmt.allScalar inside body = true)
    (hthreads : FlowStmt.allThread BlockInfo.Hands body before after)
    (hagree : Agrees σ s.1.nextValue before env host) :
    (c.run (n + 1) none body env).Records Prod.fst s σ fun r s' σ' =>
      ∃ r', Yields (fun m => c.onHost.run m none body host) r' ∧
        Ends σ' s'.1.nextValue inside before after (FlowStmt.assignedIn body) host r r' := by
  cases body with
  | nil =>
    rw [Setting.run]
    exact Records.pure ⟨_, yields_run_nil,
      .next ⟨hagree.mono hthreads, .refl _ host, fun _ hx _ => hthreads hx⟩⟩
  | cons stmt rest =>
    simp only [FlowStmt.allScalar, Bool.and_eq_true] at hscalar
    obtain ⟨mid, hstmt, hrest⟩ := hthreads
    have hgrows := c.grows_afterStmt n rest
    rw [Setting.run]
    refine (ih.runStmt hscalar.1 hstmt hagree).bind ?_
    rintro ⟨exit, env₁⟩ s₁ σ₁ - ⟨r', hyields, hends⟩
    cases hends with
    | ret hinside hv =>
      exact Records.pure ⟨_, yields_run_ret hyields, .ret hinside hv⟩
    | next hsettles =>
      refine (ih.run hscalar.2 hrest hsettles.agrees).mono ?_
      rintro r s₂ σ₂ - ⟨r'', hyields', hends'⟩
      refine ⟨r'', yields_run_cons hyields hyields', ?_⟩
      cases hends' with
      | ret hinside hv => exact .ret hinside hv
      | next hsettles' =>
        have hfirst := hsettles.mono (List.Subset.refl _) (List.Subset.refl _)
          (List.subset_append_left _ (FlowStmt.assignedIn rest))
        have hsecond := hsettles'.mono (List.Subset.refl _) (List.Subset.refl _)
          (List.subset_append_right stmt.assigned _)
        exact .next (hfirst.trans hsecond)

theorem refines_runBody (ih : c.Refines n) (hscalar : FlowStmt.allScalar true body = true)
    (hthreads : FlowStmt.allThread BlockInfo.Hands body before after)
    (hagree : Agrees σ s.1.nextValue before env host) :
    (c.runBody (n + 1) none body env).Follows s σ before after (FlowStmt.assignedIn body) host
      fun m => c.onHost.runBody m none body host := by
  rw [Setting.runBody]
  refine (ih.run hscalar hthreads hagree).bind ?_
  rintro ⟨exit, env₁⟩ s₁ σ₁ - ⟨r', hyields, hends⟩
  cases hends with
  -- inside a block there is nothing to return from
  | ret hinside hv => cases hinside
  | next hsettles => exact Records.pure ⟨_, yields_runBody hyields, hsettles⟩

theorem refines_runStmt (ih : c.Refines n) {stmt : FlowStmt}
    (hscalar : stmt.isScalar inside = true) (hthreads : stmt.Threads BlockInfo.Hands before after)
    (hagree : Agrees σ s.1.nextValue before env host) :
    (c.runStmt (n + 1) none stmt env).Records Prod.fst s σ fun r s' σ' =>
      ∃ r', Yields (fun m => c.onHost.runStmt m none stmt host) r' ∧
        Ends σ' s'.1.nextValue inside before after stmt.assigned host r r' := by
  cases stmt with
  | act action span =>
    simp only [FlowStmt.isScalar, Bool.and_eq_true, Bool.not_eq_true'] at hscalar
    rw [Setting.runStmt]
    refine (c.records_act c.onHost hscalar.1 hscalar.2 (hagree.mono hthreads)).mono ?_
    rintro r s₁ σ₁ - ⟨r', hreturns, hends⟩
    refine ⟨r', yields_act hreturns, ?_⟩
    cases hends with
    | ret hinside hv => exact .ret hinside hv
    | next hsettles =>
      exact .next (hsettles.mono hthreads (List.Subset.refl _) (List.Subset.refl _))
  | cond info arms otherwise =>
    rw [Setting.runStmt]
    refine (ih.runArms hscalar hthreads hagree).bind ?_
    rintro env₁ s₁ σ₁ - ⟨host', hyields, hsettles⟩
    exact Records.pure ⟨_, yields_cond hyields, .next hsettles⟩
  | forIn info target source body domain strategy =>
    rw [Setting.runStmt]
    refine (ih.runFor hscalar hthreads hagree).bind ?_
    rintro env₁ s₁ σ₁ - ⟨host', hyields, hsettles⟩
    exact Records.pure ⟨_, yields_forIn hyields, .next hsettles⟩
  | whileDo info condition body =>
    rw [Setting.runStmt]
    refine (ih.runWhile hscalar hthreads hagree).bind ?_
    rintro env₁ s₁ σ₁ - ⟨host', hyields, hsettles⟩
    exact Records.pure ⟨_, yields_whileDo hyields, .next hsettles⟩

end Statements

/-! ### Conditionals -/

section Conditionals

variable {inside : Bool} {info : BlockInfo} {arm : FlowArm} {rest : List FlowArm}
  {otherwise : Option (List FlowStmt)} {before after : List String}

theorem mem_assigned_cond_cons {x : String} :
    x ∈ (FlowStmt.cond info (arm :: rest) otherwise).assigned ↔
      x ∈ FlowStmt.assignedIn arm.body ∨ x ∈ (FlowStmt.cond info rest otherwise).assigned := by
  obtain ⟨condition, body⟩ := arm
  cases otherwise with
  | none => simp only [FlowStmt.assigned, FlowStmt.armsAssigned, List.mem_append, or_assoc]
  | some last => simp only [FlowStmt.assigned, FlowStmt.armsAssigned, List.mem_append, or_assoc]

theorem isScalar_cond_cons (h : (FlowStmt.cond info (arm :: rest) otherwise).isScalar inside = true) :
    arm.condition.isScalar = true ∧ FlowStmt.allScalar true arm.body = true ∧
      (FlowStmt.cond info rest otherwise).isScalar inside = true := by
  obtain ⟨condition, body⟩ := arm
  simp only [FlowStmt.isScalar, FlowStmt.armsScalar, Bool.and_eq_true] at h ⊢
  exact ⟨h.1.1.1, h.1.1.2, h.1.2, h.2⟩

theorem threads_cond_cons
    (h : (FlowStmt.cond info (arm :: rest) otherwise).Threads BlockInfo.Hands before after) :
    arm.condition.uses ⊆ before ∧ FlowStmt.allThread BlockInfo.Hands arm.body before after ∧
      (FlowStmt.cond info rest otherwise).Threads BlockInfo.Hands before after := by
  obtain ⟨condition, body⟩ := arm
  obtain ⟨⟨huses, hbody, hrest⟩, hlast, hhands⟩ := h
  exact ⟨huses, hbody, hrest, hlast, fun x hx =>
    hhands x (mem_assigned_cond_cons.mpr (.inr hx))⟩

theorem refines_chooseArm (ih : c.Refines n) {predicate : Value} {x : Scalar}
    (hscalar : (FlowStmt.cond info (arm :: rest) otherwise).isScalar inside = true)
    (hthreads : (FlowStmt.cond info (arm :: rest) otherwise).Threads BlockInfo.Hands before after)
    (hagree : Agrees σ s.1.nextValue before env host)
    (hpredicate : σ.Reads s.1.nextValue predicate (.scalar x)) :
    (c.chooseArm (n + 1) none info arm rest otherwise predicate env).Follows s σ before after
      (FlowStmt.cond info (arm :: rest) otherwise).assigned host
      fun m => c.onHost.chooseArm m none info arm rest otherwise (.scalar x) host := by
  obtain ⟨-, hbody, hrest⟩ := isScalar_cond_cons hscalar
  obtain ⟨-, hbodyThreads, hrestThreads⟩ := threads_cond_cons hthreads
  rw [Setting.chooseArm]
  refine Records.bind_silent (fun _ _ => ofFault_eq_ok) fun truth htruth => ?_
  have hhost := hpredicate.truthy htruth
  cases truth with
  | true =>
    have hfollows := ih.runBody hbody hbodyThreads hagree
    exact (hfollows.of_yields fun _ => yields_chooseArm_true hhost).mono_names
      fun _ hx => mem_assigned_cond_cons.mpr (.inl hx)
  | false =>
    have hfollows := ih.runArms hrest hrestThreads hagree
    exact (hfollows.of_yields fun _ => yields_chooseArm_false hhost).mono_names
      fun _ hx => mem_assigned_cond_cons.mpr (.inr hx)

theorem condCall_eq (predicate : Value) (init : List Value) :
    c.condCall n none info arm rest otherwise predicate env init =
      Tracer.cond predicate init (c.enclosed info init info.outputs (c.runBody n none arm.body) env)
        (c.enclosed info init info.outputs (c.runArms n none info rest otherwise) env) := rfl

theorem refines_runArms (ih : c.Refines n) {arms : List FlowArm}
    (hscalar : (FlowStmt.cond info arms otherwise).isScalar inside = true)
    (hthreads : (FlowStmt.cond info arms otherwise).Threads BlockInfo.Hands before after)
    (hagree : Agrees σ s.1.nextValue before env host) :
    (c.runArms (n + 1) none info arms otherwise env).Follows s σ before after
      (FlowStmt.cond info arms otherwise).assigned host
      fun m => c.onHost.runArms m none info arms otherwise host := by
  cases arms with
  | nil =>
    obtain ⟨-, hlast, -⟩ := hthreads
    cases otherwise with
    | none =>
      rw [Setting.runArms]
      exact Records.pure ⟨host, yields_runArms_none, hagree.mono hlast, .refl _ host,
        fun _ hx _ => hlast hx⟩
    | some body =>
      rw [Setting.runArms]
      exact (ih.runBody hscalar hlast hagree).of_yields fun _ => yields_runArms_some
  | cons arm rest =>
    obtain ⟨hcondition, hbody, hrest⟩ := isScalar_cond_cons hscalar
    obtain ⟨huses, hbodyThreads, hrestThreads⟩ := threads_cond_cons hthreads
    rw [runArms_cons]
    refine (Expr.records_eval hcondition (hagree.mono huses)).onFirst.bind ?_
    rintro predicate s₁ σ₁ hlater ⟨x, hx, hv⟩
    have hagree₁ := hagree.later hlater
    have hchoose : ∀ s₂, s₁.1.Appends [] s₂.1 →
        (c.chooseArm n none info arm rest otherwise predicate env).Follows s₂ σ₁ before after
          (FlowStmt.cond info (arm :: rest) otherwise).assigned host
          fun m => c.onHost.runArms m none info (arm :: rest) otherwise host := by
      intro s₂ hnothing
      have hlater₂ := hnothing.later_self σ₁
      exact (ih.chooseArm hscalar hthreads (hagree₁.later hlater₂) (hv.later hlater₂)).of_yields
        fun _ => yields_runArms_cons rfl hx
    split
    · exact hchoose s₁ (.refl s₁.1)
    refine Records.bind_silent (fun _ _ => entering_eq_ok) fun init hinit => ?_
    refine records_tried (fun hs => ?_) ?_ hchoose
    · exact calls_condCall (c.sound False n) none info arm rest otherwise hs False.elim False.elim
        False.elim
    · rw [condCall_eq]
      refine (records_cond hv hagree₁ hinit (fun y hy hafter => (hthreads.2.2 y hy hafter).1)
        (fun h => (ih.runBody hbody hbodyThreads h).mono_names
          fun _ hy => mem_assigned_cond_cons.mpr (.inl hy))
        fun h => (ih.runArms hrest hrestThreads h).mono_names
          fun _ hy => mem_assigned_cond_cons.mpr (.inr hy)).mono ?_
      rintro values s₂ σ₂ - ⟨truth, host', htruth, hyields, hsettles⟩
      refine ⟨host', yields_runArms_cons rfl hx ?_, hsettles⟩
      cases truth with
      | true => exact yields_chooseArm_true htruth hyields
      | false => exact yields_chooseArm_false htruth hyields

end Conditionals

/-! ### Conditional loops -/

section WhileLoops

variable {inside : Bool} {info : BlockInfo} {condition : Expr} {body : List FlowStmt}
  {before after head : List String}

theorem refines_hostWhile (ih : c.Refines n) (hcondition : condition.isScalar = true)
    (huses : condition.uses ⊆ head) (hbody : FlowStmt.allScalar true body = true)
    (hthreads : FlowStmt.allThread BlockInfo.Hands body head head)
    (hagree : Agrees σ s.1.nextValue head env host) :
    (c.hostWhile (n + 1) none condition body env).Follows s σ head head
      (FlowStmt.assignedIn body) host fun m => c.onHost.hostWhile m none condition body host := by
  rw [Setting.hostWhile]
  refine (Expr.records_eval hcondition (hagree.mono huses)).onFirst.bind ?_
  rintro predicate s₁ σ₁ hlater ⟨x, hx, hv⟩
  have hagree₁ := hagree.later hlater
  refine Records.bind_silent (fun _ _ => ofFault_eq_ok) fun truth htruth => ?_
  have hhost := hv.truthy htruth
  cases truth with
  | false =>
    exact Records.pure ⟨host, yields_hostWhile_end hx hhost, hagree₁, .refl _ host,
      fun _ hx _ => hx⟩
  | true =>
    refine (ih.runBody hbody hthreads hagree₁).bind ?_
    rintro env₁ s₂ σ₂ - ⟨host₁, hyields, hsettles⟩
    refine Records.mono (ih.hostWhile hcondition huses hbody hthreads hsettles.agrees) ?_
    rintro env₂ s₃ σ₃ - ⟨host', hyields', hsettles'⟩
    exact ⟨host', yields_hostWhile_round hx hhost hyields hyields', hsettles.trans hsettles'⟩

theorem whileCall_eq (init : List Value) :
    c.whileCall n none info condition body env init =
      Tracer.whileLoop init (predicateOf info condition env)
        (c.enclosed info init info.inputs (c.runBody n none body) env) := rfl

theorem refines_runWhile (ih : c.Refines n)
    (hscalar : (FlowStmt.whileDo info condition body).isScalar inside = true)
    (hthreads : (FlowStmt.whileDo info condition body).Threads BlockInfo.Hands before after)
    (hagree : Agrees σ s.1.nextValue before env host) :
    (c.runWhile (n + 1) none info condition body env).Follows s σ before after
      (FlowStmt.whileDo info condition body).assigned host
      fun m => c.onHost.runWhile m none info condition body host := by
  simp only [FlowStmt.isScalar, Bool.and_eq_true] at hscalar
  obtain ⟨head, entry, hafter, hbefore, hentered, hentry, huses, hhands⟩ := hthreads
  have hround := FlowStmt.allThread_mono hentry (List.Subset.refl head) hentered
  -- the loop goes from its head to its head, which lies between what is live after and before it
  suffices hloop : (c.runWhile (n + 1) none info condition body env).Follows s σ head head
      (FlowStmt.assignedIn body) host fun m => c.onHost.runWhile m none info condition body host from
    hloop.mono hbefore hafter
  have hhead := hagree.mono hbefore
  have hhost : ∀ s', s.1.Appends [] s'.1 →
      (c.hostWhile n none condition body env).Follows s' σ head head (FlowStmt.assignedIn body) host
        fun m => c.onHost.runWhile m none info condition body host := by
    intro s' hnothing
    have hhead' := hhead.later (hnothing.later_self σ)
    exact (ih.hostWhile hscalar.1 huses hscalar.2 hround hhead').of_yields
      fun _ => yields_runWhile rfl
  rw [runWhile_succ]
  split
  · exact hhost s (.refl s.1)
  refine Records.bind_silent (fun _ _ => entering_eq_ok) fun init hinit => ?_
  refine records_tried (fun hs => ?_) ?_ hhost
  · exact calls_whileCall (c.sound False n) none info condition body hs False.elim False.elim
  · rw [whileCall_eq]
    refine (records_whileLoop (fun x hx hlive => (hhands x hx hlive).2 rfl) hscalar.1 huses
      (fun h => ih.runBody hscalar.2 hround h) hhead hinit).mono ?_
    rintro values s₁ σ₁ - ⟨host', hyields, hsettles⟩
    exact ⟨host', yields_runWhile rfl hyields, hsettles⟩

end WhileLoops

/-! ### Counted loops -/

section ForLoops

variable {inside : Bool} {info : BlockInfo} {source : Expr} {target : String}
  {body : List FlowStmt} {strategy : Strategy} {before after head entry : List String}
  {start stop step : Value} {counting : Counting}

theorem returns_feed (hcounting : (Value.range start stop step).counting? = some counting)
    (hstep : counting.step ≠ 0) :
    (Feed.of (.range start stop step)).Returns (.counting counting 0) := by
  simp only [Feed.of, hcounting, hstep, if_false]
  exact .pure _

/-- The items of a range come one by one, from bounds that are known. -/
theorem feed_of_range {feed : Feed} {s' : Tracer × Journal}
    (h : Exec.ofTracer (Feed.of (.range start stop step)) s = (.ok feed, s')) :
    s' = s ∧ ∃ counting, (Value.range start stop step).counting? = some counting ∧
      counting.step ≠ 0 ∧ feed = .counting counting 0 := by
  rcases hcounting : (Value.range start stop step).counting? with _ | counting
  · simp only [Feed.of, Value.hostItems, hcounting] at h
    cases h
  · by_cases hstep : counting.step = 0
    · simp only [Feed.of, Value.hostItems, hcounting, hstep, if_true] at h
      cases h
    · have hreturns : Exec.ofTracer (Feed.of (.range start stop step)) s = _ :=
        (returns_feed hcounting hstep).mapError.onFirst s
      obtain ⟨hfeed, rfl⟩ := Prod.mk.inj (hreturns.symm.trans h)
      exact ⟨rfl, counting, rfl, hstep, (Except.ok.inj hfeed).symm⟩

/-- A range that the graph can count through has known bounds. -/
theorem counting_of_convertible {traced : Bool}
    (h : (Domain.ofRange (.range start stop step) traced).kind.isConvertible = true) :
    ∃ counting, (Value.range start stop step).counting? = some counting ∧ counting.step ≠ 0 := by
  unfold Domain.ofRange at h
  rcases hcounting : (Value.range start stop step).counting? with _ | counting
  · rw [hcounting] at h
    dsimp only at h
    split at h <;> cases h
  · refine ⟨counting, rfl, fun hstep => ?_⟩
    rw [hcounting] at h
    simp only [hstep, if_true] at h
    cases h

theorem refines_hostEach (ih : c.Refines n) {k : Nat}
    (hbody : FlowStmt.allScalar true body = true)
    (hthreads : FlowStmt.allThread BlockInfo.Hands body entry head)
    (hentry : ∀ x ∈ entry, x ≠ target → x ∈ head)
    (hagree : Agrees σ s.1.nextValue head env host) :
    (c.hostEach (n + 1) none (.name target) body (.counting counting k) env).Follows s σ head head
      (target :: FlowStmt.assignedIn body) host
      fun m => c.onHost.hostEach m none (.name target) body (.counting counting k) host := by
  rw [Setting.hostEach]
  by_cases hk : k < counting.length
  · have hnext : (Feed.counting counting k).next? =
        some (.int (counting.nth k), .counting counting (k + 1)) := if_pos hk
    rw [hnext]
    have hagree' := hagree.insert (v := .int (counting.nth k)) (y := .int (counting.nth k))
      (.host rfl) hentry
    refine Records.bind_silent (P := (· = Bindings.insert env target (.int (counting.nth k))))
      (fun env' s' h => ?_) fun env' henv' => ?_
    · cases h
      exact ⟨rfl, rfl⟩
    subst henv'
    refine (ih.runBody hbody hthreads hagree').bind ?_
    rintro env₁ s₁ σ₁ - ⟨host₁, hyields, hsettles⟩
    have honly : Env.ChangesOnly (target :: FlowStmt.assignedIn body) host host₁ :=
      (Env.ChangesOnly.insert List.mem_cons_self host _).trans
        (hsettles.only.mono (List.subset_cons_self _ _))
    refine Records.mono (ih.hostEach hbody hthreads hentry hsettles.agrees) ?_
    rintro env₂ s₂ σ₂ - ⟨host', hyields', hsettles'⟩
    exact ⟨host', yields_hostEach_cons hnext (.pure _) hyields hyields', hsettles'.agrees,
      honly.trans hsettles'.only, fun _ hx _ => hx⟩
  · have hnext : (Feed.counting counting k).next? = none := if_neg hk
    rw [hnext]
    exact Records.pure ⟨host, yields_hostEach_nil hnext, hagree, .refl _ host, fun _ hx _ => hx⟩

theorem refines_hostFor (ih : c.Refines n) {items : Value}
    (hitems : ∃ start stop step, items = .range start stop step)
    (hsource : ∀ counting, items.counting? = some counting → (source.eval host).Returns items)
    (hbody : FlowStmt.allScalar true body = true)
    (hthreads : FlowStmt.allThread BlockInfo.Hands body entry head)
    (hentry : ∀ x ∈ entry, x ≠ target → x ∈ head)
    (hagree : Agrees σ s.1.nextValue head env host) :
    (c.hostFor (n + 1) none (.name target) body items env).Follows s σ head head
      (target :: FlowStmt.assignedIn body) host
      fun m => c.onHost.runFor m none info (.name target) source body strategy host := by
  obtain ⟨start, stop, step, rfl⟩ := hitems
  rw [Setting.hostFor]
  refine Records.bind_silent (fun _ _ => feed_of_range) fun feed hfeed => ?_
  obtain ⟨counting, hcounting, hstep, rfl⟩ := hfeed
  exact (ih.hostEach hbody hthreads hentry hagree).of_yields fun _ hyields =>
    yields_runFor rfl (hsource counting hcounting)
      (yields_hostFor (returns_feed hcounting hstep) hyields)

theorem forCall_eq (range : LoopRange) (init : List Value) :
    c.forCall n none info (.name target) body range .index env init =
      Tracer.forLoop range init (c.roundOf info init target (c.runBody n none body) env) := rfl

theorem refines_runFor (ih : c.Refines n) {target : Target} {domain : Option Domain}
    (hscalar : (FlowStmt.forIn info target source body domain strategy).isScalar inside = true)
    (hthreads : (FlowStmt.forIn info target source body domain strategy).Threads BlockInfo.Hands
      before after) (hagree : Agrees σ s.1.nextValue before env host) :
    (c.runFor (n + 1) none info target source body strategy env).Follows s σ before after
      (FlowStmt.forIn info target source body domain strategy).assigned host
      fun m => c.onHost.runFor m none info target source body strategy host := by
  simp only [FlowStmt.isScalar, Bool.and_eq_true] at hscalar
  obtain ⟨⟨hname, hrange⟩, hbody⟩ := hscalar
  cases target with
  | tuple items => cases hname
  | name target =>
  obtain ⟨huses, head, entry, hafter, hbefore, hentered, hentry, hhands⟩ := hthreads
  have hkept : ∀ x ∈ entry, x ≠ target → x ∈ head :=
    fun x hx hne => hentry x hx fun hmem => hne (List.mem_singleton.mp hmem)
  suffices hloop : (c.runFor (n + 1) none info (.name target) source body strategy env).Follows s σ
      head head (target :: FlowStmt.assignedIn body) host
      fun m => c.onHost.runFor m none info (.name target) source body strategy host from
    hloop.mono hbefore hafter
  rw [runFor_succ]
  refine (Expr.records_range hrange (hagree.mono huses)).onFirst.bind ?_
  rintro items s₁ σ₁ hlater ⟨hitems, hsource⟩
  have hhead := (hagree.mono hbefore).later hlater
  have hhost : ∀ s₂, s₁.1.Appends [] s₂.1 →
      (c.hostFor n none (.name target) body items env).Follows s₂ σ₁ head head
        (target :: FlowStmt.assignedIn body) host
        fun m => c.onHost.runFor m none info (.name target) source body strategy host :=
    fun s₂ hnothing => ih.hostFor hitems hsource hbody hentered hkept
      (hhead.later (hnothing.later_self σ₁))
  split
  · exact hhost s₁ (.refl s₁.1)
  obtain ⟨start, stop, step, rfl⟩ := hitems
  have hdomain : ∀ target, Domain.classify (.range start stop step) target =
      .ok ((Domain.ofRange (.range start stop step) _).forTarget target) := fun _ => rfl
  rw [hdomain, Exec.bind_ofOutcome_ok]
  split
  · next hconvertible =>
    obtain ⟨counting, hcounting, hstep⟩ := counting_of_convertible hconvertible
    have hloop : (Value.range start stop step).loopRange =
        .ok (⟨.int counting.start, .int counting.stop, .int counting.step⟩, .index) := by
      simp only [Value.loopRange, hcounting]
    rw [hloop, Exec.bind_ofOutcome_ok]
    refine Records.bind_silent (fun _ _ => entering_eq_ok) fun init hinit => ?_
    refine records_tried (fun hs => ?_) ?_ hhost
    · exact calls_forCall (c.sound False n) none info (.name target) body hs False.elim False.elim
        False.elim
    · rw [forCall_eq]
      refine (records_forLoop (fun x hx hlive => (hhands x hx hlive).2 rfl) List.mem_cons_self hkept
        (fun h => (ih.runBody hbody hentered h).mono_names (List.subset_cons_self _ _)) hhead
        hinit).mono ?_
      rintro values s₂ σ₂ - ⟨host', hyields, hsettles⟩
      exact ⟨host', yields_runFor rfl (hsource counting hcounting)
        (yields_hostFor (returns_feed hcounting hstep) hyields), hsettles⟩
  split
  · exact Records.of_halt
  · refine Records.bind_quiet (P := fun _ _ => True) (fun _ s' h => ?_) fun _ s₂ htracer _ => ?_
    · cases h
      exact ⟨rfl, trivial⟩
    · exact hhost s₂ (htracer ▸ .refl s₂.1)

end ForLoops

theorem refines_succ (ih : c.Refines n) : c.Refines (n + 1) where
  run := refines_run ih
  runStmt := refines_runStmt ih
  runBody := refines_runBody ih
  runArms := refines_runArms ih
  chooseArm := refines_chooseArm ih
  runFor := refines_runFor ih
  hostFor := refines_hostFor ih
  hostEach := refines_hostEach ih
  runWhile := refines_runWhile ih
  hostWhile := refines_hostWhile ih

/-- Every run of a program on scalars follows the host, whatever its fuel. -/
theorem refines (c : Setting) (n : Nat) : c.Refines n := by
  induction n with
  | zero => exact refines_zero
  | succ n ih => exact refines_succ ih

end Steps

end Setting

end StagedFlow
