import StagedFlow.Proofs.Reading
import StagedFlow.Proofs.StagedBlocks

/-!
What a run binds stays bound: whatever becomes of the attempts in it, no part of a run takes a
binding away. Main definitions: `Step.Delivers`, `Env.Binds`, `Env.Grows`, `Setting.Growing`. Main
results: `Target.delivers_assign`, `Tracer.delivers_cond`, `Setting.growing`.
-/
set_option autoImplicit false

namespace StagedFlow

/-! ## Values of steps -/

namespace Step

variable {σ ρ ε δ α β : Type}

/-- Whatever a step returns, from whatever state, has the property `Q`. -/
def Delivers (x : Step σ ε α) (Q : α → Prop) : Prop :=
  ∀ s a s', x s = (.ok a, s') → Q a

namespace Delivers

variable {x : Step σ ε α} {f : α → Step σ ε β} {Q Q' : α → Prop} {R : β → Prop}

theorem pure {a : α} (h : Q a) : (Pure.pure a : Step σ ε α).Delivers Q := by
  intro s b s' hb
  cases hb
  exact h

theorem halt {h : Halt ε} : (Step.halt h : Step σ ε α).Delivers Q := by
  intro s a s' ha
  cases ha

theorem mono (h : x.Delivers Q) (hQ : ∀ a, Q a → Q' a) : x.Delivers Q' :=
  fun s a s' ha => hQ a (h s a s' ha)

theorem bind (hx : x.Delivers Q) (hf : ∀ a, Q a → (f a).Delivers R) : (x >>= f).Delivers R := by
  intro s b s' h
  obtain ⟨a, s₁, ha, hb⟩ := bind_eq_ok h
  exact hf a (hx s a s₁ ha) s₁ b s' hb

/-- A step may be followed by one of which nothing has to be known. -/
theorem bind_any (hf : ∀ a, (f a).Delivers R) : (x >>= f).Delivers R :=
  bind (Q := fun _ => True) (fun _ _ _ _ => trivial) fun a _ => hf a

theorem mapError {g : ε → δ} (h : x.Delivers Q) : (x.mapError g).Delivers Q :=
  fun s a s' ha => h s a s' (mapError_eq_ok ha)

theorem onFirst (h : x.Delivers Q) : (x.onFirst : Step (σ × ρ) ε α).Delivers Q :=
  fun s a s' ha => h s.1 a s'.1 (onFirst_eq_ok ha).1

end Delivers

end Step

/-! ## Environments -/

namespace Env

def Binds (env : Env) (x : String) : Prop :=
  (Bindings.find? env x).isSome = true

/-- No name loses its value. -/
def Grows (env env' : Env) : Prop :=
  ∀ x, env.Binds x → env'.Binds x

theorem Grows.refl (env : Env) : env.Grows env :=
  fun _ hx => hx

theorem Grows.trans {env env' env'' : Env} (h : env.Grows env') (h' : env'.Grows env'') :
    env.Grows env'' :=
  fun x hx => h' x (h x hx)

theorem grows_insertAll (env : Env) (names : List String) (values : List Value) :
    env.Grows (Bindings.insertAll env names values) :=
  fun x hx => Bindings.isSome_find?_insertAll names values env x hx

theorem binds_insertAll {names : List String} {values : List Value}
    (hlen : names.length = values.length) (env : Env) {x : String} (hx : x ∈ names) :
    Env.Binds (Bindings.insertAll env names values) x :=
  Bindings.find?_insertAll_isSome hlen hx env

/-- Values are found for names that have them. -/
theorem collect_of_binds {env : Env} : ∀ {names : List String}, (∀ x ∈ names, env.Binds x) →
    ∃ values, env.collect names = .ok values
  | [], _ => ⟨[], rfl⟩
  | name :: rest, h => by
    obtain ⟨v, hv⟩ := Option.isSome_iff_exists.mp (h name List.mem_cons_self)
    obtain ⟨vs, hvs⟩ := collect_of_binds fun x hx => h x (List.mem_cons_of_mem name hx)
    refine ⟨v :: vs, ?_⟩
    rw [collect, lookup, hv, hvs]
    rfl

end Env

/-- An assignment takes no binding away, and binds all names of its target. -/
theorem Target.delivers_assign (target : Target) (v : Value) (env : Env) :
    (Exec.ofTracer (target.assign v env)).Delivers fun env' =>
      env.Grows env' ∧ ∀ x ∈ target.names, env'.Binds x := by
  refine Step.Delivers.onFirst (Step.Delivers.mapError ?_)
  intro t env' t' h
  rw [assign_eq] at h
  obtain ⟨values, t₁, hvalues, h₁⟩ := Step.bind_eq_ok h
  cases h₁
  exact ⟨env.grows_insertAll _ _, fun x hx => env.binds_insertAll (length_parts hvalues) hx⟩

/-! ## Attempts -/

namespace Tracer

variable {ρ ε : Type}

/-- What a conditional of the graph gives are placeholders of the types that its first branch
yields. -/
theorem delivers_cond_placed {predicate : Value} {operands : List Value}
    {thenBranch elseBranch : List Value → Traced ρ ε (List Value)} {Q : List Value → Prop}
    (h : ∀ args, (thenBranch args).Delivers Q) :
    (cond predicate operands thenBranch elseBranch).Delivers fun values =>
      ∃ outs results types ids, Q outs ∧ operandsOf outs = .ok (results, types) ∧
        ids.length = types.length ∧ values = placeholders ids types := by
  intro s values s' hcond
  have h₁ := bind_session_eq_ok hcond
  obtain ⟨⟨p, type⟩, -, h₂⟩ := bind_checked_eq_ok h₁
  dsimp only at h₂
  split at h₂
  swap
  · cases h₂
  obtain ⟨⟨inputs, types⟩, -, h₃⟩ := bind_checked_eq_ok h₂
  obtain ⟨⟨r, outTypes⟩, s₁, hthen, h₄⟩ := Step.bind_eq_ok h₃
  obtain ⟨⟨r', outTypes'⟩, s₂, -, h₅⟩ := Step.bind_eq_ok h₄
  obtain ⟨_, -, h₆⟩ := bind_checked_eq_ok h₅
  obtain ⟨-, hvalues, -⟩ := bindPrimitive_eq_ok h₆
  obtain ⟨outs, s₃, results, hbody, houts, -, -⟩ := inRegion_eq_ok hthen
  exact ⟨outs, results, outTypes, _, h _ _ outs s₃ hbody, houts, List.length_range', hvalues⟩

/-- A conditional in the graph yields as many values as its first branch. -/
theorem delivers_cond {predicate : Value} {operands : List Value}
    {thenBranch elseBranch : List Value → Traced ρ ε (List Value)} {Q : List Value → Prop}
    (h : ∀ args, (thenBranch args).Delivers Q) :
    (cond predicate operands thenBranch elseBranch).Delivers fun values =>
      ∃ outs, Q outs ∧ outs.length = values.length := by
  refine (delivers_cond_placed h).mono ?_
  rintro values ⟨outs, results, types, ids, hQ, houts, hids, rfl⟩
  refine ⟨outs, hQ, ?_⟩
  rw [← (operandsOf_length houts).2]
  simp [placeholders, hids]

end Tracer

theorem FaultPlan.delivers_intercept {plan : Option FaultPlan} {primitive : Primitive}
    {call : Tracer.Traced Journal (Failure RunError) (List Value)} {Q : List Value → Prop}
    (h : call.Delivers Q) : (intercept plan primitive call).Delivers Q := by
  intro ⟨t, j⟩ values s' hcall
  cases plan with
  | none => exact h (t, j) values s' hcall
  | some plan =>
    simp only [intercept] at hcall
    split at hcall
    · split at hcall
      · unfold failAfter at hcall
        split at hcall
        · cases hcall
        · exact h _ values s' hcall
      · cases hcall
    · exact h (t, j) values s' hcall

namespace Setting

variable {c : Setting}

theorem delivers_tried {info : BlockInfo}
    {call : Tracer.Traced Journal (Failure RunError) (List Value)} {commit : List Value → Env}
    {host : Exec Env} {Q : Env → Prop} (hcall : call.Delivers fun values => Q (commit values))
    (hhost : host.Delivers Q) : (c.tried info call commit host).Delivers Q := by
  refine .bind_any fun mark => ?_
  refine .bind (Q := fun result => ∀ values, result = .committed values → Q (commit values)) ?_ ?_
  · rintro s result s' hattempt values rfl
    exact hcall s values s' (BlockInfo.call_of_committed hattempt)
  · intro result hresult
    cases result with
    | committed values => exact .pure (hresult values rfl)
    | fallback d => exact .bind_any fun _ => hhost

theorem delivers_leaving {info : BlockInfo} {init : List Value} {outputs : List String}
    {env : Env} :
    (c.leaving info init outputs env).Delivers fun values => outputs.length = values.length := by
  refine .bind (Q := fun values => outputs.length = values.length) ?_ fun values hlen => ?_
  · intro s values s' h
    exact Env.collect_length (Exec.ofExcept_eq_ok h).1
  · exact .bind_any fun _ => .pure hlen

/-! ## Growth -/

/-- With this much fuel, no part of a run takes a binding away. -/
structure Growing (c : Setting) (n : Nat) : Prop where
  run : ∀ plan body (env : Env), (c.run n plan body env).Delivers fun r => env.Grows r.2
  runStmt : ∀ plan stmt (env : Env), (c.runStmt n plan stmt env).Delivers fun r => env.Grows r.2
  runBody : ∀ plan body (env : Env), (c.runBody n plan body env).Delivers env.Grows
  runArms : ∀ plan info arms otherwise (env : Env),
    (c.runArms n plan info arms otherwise env).Delivers env.Grows
  chooseArm : ∀ plan info arm rest otherwise predicate (env : Env),
    (c.chooseArm n plan info arm rest otherwise predicate env).Delivers env.Grows
  runFor : ∀ plan info target source body strategy (env : Env),
    (c.runFor n plan info target source body strategy env).Delivers env.Grows
  hostFor : ∀ plan target body items (env : Env),
    (c.hostFor n plan target body items env).Delivers env.Grows
  hostEach : ∀ plan target body feed (env : Env),
    (c.hostEach n plan target body feed env).Delivers env.Grows
  runWhile : ∀ plan info condition body (env : Env),
    (c.runWhile n plan info condition body env).Delivers env.Grows
  hostWhile : ∀ plan condition body (env : Env),
    (c.hostWhile n plan condition body env).Delivers env.Grows

theorem growing_zero : c.Growing 0 where
  run := fun _ _ _ => by
    rw [Setting.run]
    exact .halt
  runStmt := fun _ _ _ => by
    rw [Setting.runStmt]
    exact .halt
  runBody := fun _ _ _ => by
    rw [Setting.runBody]
    exact .halt
  runArms := fun _ _ _ _ _ => by
    rw [Setting.runArms]
    exact .halt
  chooseArm := fun _ _ _ _ _ _ _ => by
    rw [Setting.chooseArm]
    exact .halt
  runFor := fun _ _ _ _ _ _ _ => by
    rw [Setting.runFor]
    exact .halt
  hostFor := fun _ _ _ _ _ => by
    rw [Setting.hostFor]
    exact .halt
  hostEach := fun _ _ _ _ _ => by
    rw [Setting.hostEach]
    exact .halt
  runWhile := fun _ _ _ _ _ => by
    rw [Setting.runWhile]
    exact .halt
  hostWhile := fun _ _ _ _ => by
    rw [Setting.hostWhile]
    exact .halt

theorem delivers_act_grows (span : Span) (env : Env) (action : Action) :
    (c.act span env action).Delivers fun r => env.Grows r.2 := by
  cases action with
  | assign target value =>
    refine .bind_any fun v => ?_
    exact (target.delivers_assign v env).bind fun env' h => .pure h.1
  | update name op value =>
    refine .bind_any fun current => .bind_any fun v => .bind_any fun result => .pure ?_
    exact env.grows_insertAll [name] [result]
  | eval expr => exact .bind_any fun _ => .pure (.refl env)
  | ret value =>
    cases value with
    | none => exact .pure (.refl env)
    | some value => exact .bind_any fun v => .pure (.refl env)
  | raise message => exact .halt
  | pass => exact .pure (.refl env)

section Parts

variable {n : Nat} (ih : c.Growing n) (plan : Option FaultPlan) (env : Env)

include ih

theorem growing_run (body : List FlowStmt) :
    (c.run (n + 1) plan body env).Delivers fun r => env.Grows r.2 := by
  cases body with
  | nil =>
    rw [Setting.run]
    exact .pure (.refl env)
  | cons stmt rest =>
    rw [Setting.run]
    refine (ih.runStmt plan stmt env).bind ?_
    rintro ⟨exit, env₁⟩ h₁
    cases exit with
    | ret v => exact .pure h₁
    | next => exact (ih.run plan rest env₁).mono fun r h => h₁.trans h

theorem growing_runStmt (stmt : FlowStmt) :
    (c.runStmt (n + 1) plan stmt env).Delivers fun r => env.Grows r.2 := by
  cases stmt with
  | act action span =>
    rw [Setting.runStmt]
    exact delivers_act_grows span env action
  | cond info arms otherwise =>
    rw [Setting.runStmt]
    exact (ih.runArms plan info arms otherwise env).bind fun env₁ h => .pure h
  | forIn info target source body domain strategy =>
    rw [Setting.runStmt]
    exact (ih.runFor plan info target source body strategy env).bind fun env₁ h => .pure h
  | whileDo info condition body =>
    rw [Setting.runStmt]
    exact (ih.runWhile plan info condition body env).bind fun env₁ h => .pure h

theorem growing_runArms (info : BlockInfo) (arms : List FlowArm)
    (otherwise : Option (List FlowStmt)) :
    (c.runArms (n + 1) plan info arms otherwise env).Delivers env.Grows := by
  cases arms with
  | nil =>
    cases otherwise with
    | none =>
      rw [Setting.runArms]
      exact .pure (.refl env)
    | some body =>
      rw [Setting.runArms]
      exact ih.runBody plan body env
  | cons arm rest =>
    rw [runArms_cons]
    refine .bind_any fun predicate => ?_
    split
    · exact ih.chooseArm plan info arm rest otherwise predicate env
    · refine .bind_any fun init => ?_
      exact delivers_tried (fun _ values _ _ => env.grows_insertAll info.outputs values)
        (ih.chooseArm plan info arm rest otherwise predicate env)

theorem growing_runFor (info : BlockInfo) (target : Target) (source : Expr) (body : List FlowStmt)
    (strategy : Strategy) :
    (c.runFor (n + 1) plan info target source body strategy env).Delivers env.Grows := by
  rw [runFor_succ]
  refine .bind_any fun items => ?_
  have hhost := ih.hostFor plan target body items env
  split
  · exact hhost
  refine .bind_any fun domain => ?_
  split
  · refine .bind_any fun loop => .bind_any fun init => ?_
    exact delivers_tried (fun _ values _ _ => env.grows_insertAll info.inputs values) hhost
  split
  · exact .halt
  · exact .bind_any fun _ => hhost

theorem growing_hostEach (target : Target) (body : List FlowStmt) (feed : Feed) :
    (c.hostEach (n + 1) plan target body feed env).Delivers env.Grows := by
  rw [Setting.hostEach]
  split
  · exact .pure (.refl env)
  · next item feed' _ =>
    refine (target.delivers_assign item env).bind fun env₁ h₁ => ?_
    refine (ih.runBody plan body env₁).bind fun env₂ h₂ => ?_
    exact (ih.hostEach plan target body feed' env₂).mono fun env₃ h₃ => (h₁.1.trans h₂).trans h₃

theorem growing_runWhile (info : BlockInfo) (condition : Expr) (body : List FlowStmt) :
    (c.runWhile (n + 1) plan info condition body env).Delivers env.Grows := by
  rw [runWhile_succ]
  have hhost := ih.hostWhile plan condition body env
  split
  · exact hhost
  · refine .bind_any fun init => ?_
    exact delivers_tried (fun _ values _ _ => env.grows_insertAll info.inputs values) hhost

theorem growing_hostWhile (condition : Expr) (body : List FlowStmt) :
    (c.hostWhile (n + 1) plan condition body env).Delivers env.Grows := by
  rw [Setting.hostWhile]
  refine .bind_any fun predicate => .bind_any fun truth => ?_
  split
  · refine (ih.runBody plan body env).bind fun env₁ h₁ => ?_
    exact (ih.hostWhile plan condition body env₁).mono fun env₂ h₂ => h₁.trans h₂
  · exact .pure (.refl env)

end Parts

theorem growing_succ {n : Nat} (ih : c.Growing n) : c.Growing (n + 1) where
  run := fun plan body env => growing_run ih plan env body
  runStmt := fun plan stmt env => growing_runStmt ih plan env stmt
  runBody := fun plan body env => by
    rw [Setting.runBody]
    exact (ih.run plan body env).bind fun r h => .pure h
  runArms := fun plan info arms otherwise env => growing_runArms ih plan env info arms otherwise
  chooseArm := fun plan info arm rest otherwise predicate env => by
    rw [Setting.chooseArm]
    refine .bind_any fun truth => ?_
    split
    · exact ih.runBody plan arm.body env
    · exact ih.runArms plan info rest otherwise env
  runFor := fun plan info target source body strategy env =>
    growing_runFor ih plan env info target source body strategy
  hostFor := fun plan target body items env => by
    rw [Setting.hostFor]
    exact .bind_any fun feed => ih.hostEach plan target body feed env
  hostEach := fun plan target body feed env => growing_hostEach ih plan env target body feed
  runWhile := fun plan info condition body env => growing_runWhile ih plan env info condition body
  hostWhile := fun plan condition body env => growing_hostWhile ih plan env condition body

theorem growing (c : Setting) (n : Nat) : c.Growing n := by
  induction n with
  | zero => exact growing_zero
  | succ n ih => exact growing_succ ih

end Setting

end StagedFlow
