import StagedFlow.Proofs.Conversion
import StagedFlow.Proofs.Execution
import StagedFlow.Proofs.Reading

/-!
Liveness as a property of two runs. If two environments agree on the names that are live before
statements, then the host runs them to the same end in both, and where they are run through, the
environments agree on the names that are live after them. Main definitions: `Step.Matches`,
`Setting.Parallel`. Main results: `Setting.parallel`, `Setting.run_agrees_of_live`.
-/
set_option autoImplicit false

namespace StagedFlow

/-! ## Steps that match -/

namespace Step

variable {σ ε α β : Type}

/-- From every state both steps halt in the same way or return related values, and they leave the
same state. -/
def Matches (x y : Step σ ε α) (R : α → α → Prop) : Prop :=
  ∀ s, (∃ h s', x s = (.error h, s') ∧ y s = (.error h, s')) ∨
    ∃ a b s', x s = (.ok a, s') ∧ y s = (.ok b, s') ∧ R a b

namespace Matches

variable {x y : Step σ ε α} {R : α → α → Prop}

theorem refl (x : Step σ ε α) : Matches x x Eq := by
  intro s
  rcases hx : x s with ⟨h | a, s'⟩
  · exact .inl ⟨h, s', rfl, rfl⟩
  · exact .inr ⟨a, a, s', rfl, rfl, rfl⟩

theorem pure {a b : α} (h : R a b) : Matches (Pure.pure a : Step σ ε α) (Pure.pure b) R :=
  fun s => .inr ⟨a, b, s, rfl, rfl, h⟩

theorem halt (h : Halt ε) : Matches (Step.halt h : Step σ ε α) (Step.halt h) R :=
  fun s => .inl ⟨h, s, rfl, rfl⟩

theorem bind {f g : α → Step σ ε β} {Q : β → β → Prop} (hx : Matches x y R)
    (hf : ∀ a b, R a b → Matches (f a) (g b) Q) : Matches (x >>= f) (y >>= g) Q := by
  intro s
  rcases hx s with ⟨h, s', hx, hy⟩ | ⟨a, b, s', hx, hy, hR⟩
  · rw [bind_of_error hx, bind_of_error hy]
    exact .inl ⟨h, s', rfl, rfl⟩
  · rw [bind_of_ok hx, bind_of_ok hy]
    exact hf a b hR s'

/-- Two runs of one step go on from the same value. -/
theorem bind_same {f g : α → Step σ ε β} {Q : β → β → Prop} (x : Step σ ε α)
    (hf : ∀ a, Matches (f a) (g a) Q) : Matches (x >>= f) (x >>= g) Q := by
  refine (refl x).bind fun a b hab => ?_
  subst hab
  exact hf a

end Matches

end Step

open Step

/-- An assignment makes environments agree on the names of its target. -/
theorem Target.matches_assign {names : List String} {env env' : Env} (target : Target) (v : Value)
    (h : ∀ x ∈ names, x ∉ target.names → Bindings.find? env x = Bindings.find? env' x) :
    Matches (Exec.ofTracer (target.assign v env)) (Exec.ofTracer (target.assign v env'))
      (Env.AgreeOn names) := by
  intro s
  obtain ⟨t, j⟩ := s
  rw [assign_eq target v env, assign_eq target v env']
  rcases hparts : target.parts v t with ⟨e | values, t'⟩
  · refine .inl ⟨e.map .fault, (t', j), ?_, ?_⟩
    · simp only [Exec.ofTracer, Step.onFirst, Step.mapError, Step.bind_of_error hparts]
    · simp only [Exec.ofTracer, Step.onFirst, Step.mapError, Step.bind_of_error hparts]
  · refine .inr ⟨Bindings.insertAll env target.names values,
      Bindings.insertAll env' target.names values, (t', j), ?_, ?_,
      Env.AgreeOn.insertAll (length_parts hparts) h⟩
    · simp only [Exec.ofTracer, Step.onFirst, Step.mapError, Step.bind_of_ok hparts,
        Step.pure_apply]
    · simp only [Exec.ofTracer, Step.onFirst, Step.mapError, Step.bind_of_ok hparts,
        Step.pure_apply]

/-! ## Actions -/

/-- How two runs of a statement `inside` a block or not have to end: control leaves it in the same
way, and where it goes on the environments agree on the names. -/
def Exit.SameEnd (inside : Bool) (names : List String) (r r' : Exit × Env) : Prop :=
  r.1 = r'.1 ∧ (inside = true → r.1 = .next) ∧ (r.1 = .next → Env.AgreeOn names r.2 r'.2)

theorem Exit.SameEnd.next {inside : Bool} {names : List String} {env env' : Env}
    (h : Env.AgreeOn names env env') :
    Exit.SameEnd inside names (.next, env) (.next, env') :=
  ⟨rfl, fun _ => rfl, fun _ => h⟩

theorem Exit.SameEnd.ret {inside : Bool} {names : List String} {v : Value} {env env' : Env}
    (h : inside = true → Exit.ret v = .next) :
    Exit.SameEnd inside names (.ret v, env) (.ret v, env') :=
  ⟨rfl, h, fun hexit => by cases hexit⟩

namespace Setting

variable {c : Setting}

theorem matches_act (inside : Bool) (span : Span) {action : Action} {after : Names} {env env' : Env}
    (hstays : (inside && action.isReturn) = false)
    (h : Env.AgreeOn (action.liveBefore after) env env') :
    Matches (c.act span env action) (c.act span env' action) (Exit.SameEnd inside after) := by
  cases action with
  | assign target value =>
    have hvalue : Env.AgreeOn value.uses env env' :=
      h.mono fun x hx => Names.mem_union.mpr (.inr hx)
    rw [act, act, Expr.eval_congr hvalue]
    refine .bind_same _ fun v => ?_
    refine (target.matches_assign v fun x hx hxt => ?_).bind fun env₁ env₁' h₁ => .pure (.next h₁)
    exact h x (Names.mem_union.mpr (.inl (Names.mem_without.mpr ⟨hx, hxt⟩)))
  | update name op value =>
    have hvalue : Env.AgreeOn value.uses env env' :=
      h.mono fun x hx => Names.mem_union.mpr (.inr hx)
    have hname : name ∈ Action.liveBefore (.update name op value) after :=
      Names.mem_union.mpr (.inl (Names.mem_add.mpr (.inr rfl)))
    rw [act, act, Expr.eval_congr hvalue, h.lookup hname]
    refine .bind_same _ fun current => ?_
    refine .bind_same _ fun v => ?_
    refine .bind_same _ fun result => .pure (.next fun x hx => ?_)
    rw [Bindings.find?_insert, Bindings.find?_insert,
      h x (Names.mem_union.mpr (.inl (Names.mem_add.mpr (.inl hx))))]
  | eval expr =>
    have hexpr : Env.AgreeOn expr.uses env env' :=
      h.mono fun x hx => Names.mem_union.mpr (.inr hx)
    rw [act, act, Expr.eval_congr hexpr]
    refine .bind_same _ fun _ => .pure (.next ?_)
    exact h.mono fun x hx => Names.mem_union.mpr (.inl hx)
  | ret value =>
    obtain rfl : inside = false := by simpa [Action.isReturn] using hstays
    cases value with
    | none =>
      rw [act, act]
      exact .pure (.ret Bool.noConfusion)
    | some value =>
      have hvalue : Env.AgreeOn value.uses env env' := h.mono fun x hx => Names.mem_ofList.mpr hx
      rw [act, act, Expr.eval_congr hvalue]
      exact .bind_same _ fun v => .pure (.ret Bool.noConfusion)
  | raise message => exact .halt _
  | pass => exact .pure (.next h)

/-! ## Runs -/

/-- With this much fuel, all parts of a run on the host come to the same end from environments that
agree on what is live. Of the head of a loop nothing is asked but that a round keeps to it. -/
structure Parallel (c : Setting) (n : Nat) : Prop where
  run : ∀ plan inside body after table env env', FlowStmt.allStay inside body = true →
    Env.AgreeOn (FlowStmt.liveIn body after table).1 env env' →
    Matches (c.run n plan body env) (c.run n plan body env') (Exit.SameEnd inside after)
  runStmt : ∀ plan inside stmt after table env env', FlowStmt.stays inside stmt = true →
    Env.AgreeOn (stmt.liveBefore after table).1 env env' →
    Matches (c.runStmt n plan stmt env) (c.runStmt n plan stmt env') (Exit.SameEnd inside after)
  runBody : ∀ plan body after table env env', FlowStmt.allStay true body = true →
    Env.AgreeOn (FlowStmt.liveIn body after table).1 env env' →
    Matches (c.runBody n plan body env) (c.runBody n plan body env') (Env.AgreeOn after)
  runArms : ∀ plan info arms otherwise after table table' env env',
    FlowStmt.armsStay arms = true → FlowStmt.lastStays otherwise = true →
    Env.AgreeOn (FlowStmt.liveArms arms after table).1 env env' →
    Env.AgreeOn (FlowStmt.liveLast otherwise after table').1 env env' →
    Matches (c.runArms n plan info arms otherwise env) (c.runArms n plan info arms otherwise env')
      (Env.AgreeOn after)
  chooseArm : ∀ plan info arm rest otherwise predicate after table table' env env',
    FlowStmt.armsStay (arm :: rest) = true → FlowStmt.lastStays otherwise = true →
    Env.AgreeOn (FlowStmt.liveArms (arm :: rest) after table).1 env env' →
    Env.AgreeOn (FlowStmt.liveLast otherwise after table').1 env env' →
    Matches (c.chooseArm n plan info arm rest otherwise predicate env)
      (c.chooseArm n plan info arm rest otherwise predicate env') (Env.AgreeOn after)
  hostFor : ∀ plan target body items head table env env', FlowStmt.allStay true body = true →
    (∀ x ∈ (FlowStmt.liveIn body head table).1, x ∉ target.names → x ∈ head) →
    Env.AgreeOn head env env' →
    Matches (c.hostFor n plan target body items env) (c.hostFor n plan target body items env')
      (Env.AgreeOn head)
  hostEach : ∀ plan target body feed head table env env', FlowStmt.allStay true body = true →
    (∀ x ∈ (FlowStmt.liveIn body head table).1, x ∉ target.names → x ∈ head) →
    Env.AgreeOn head env env' →
    Matches (c.hostEach n plan target body feed env) (c.hostEach n plan target body feed env')
      (Env.AgreeOn head)
  hostWhile : ∀ plan condition body head table env env', FlowStmt.allStay true body = true →
    condition.uses ⊆ head → (FlowStmt.liveIn body head table).1 ⊆ head →
    Env.AgreeOn head env env' →
    Matches (c.hostWhile n plan condition body env) (c.hostWhile n plan condition body env')
      (Env.AgreeOn head)
  runFor : ∀ plan info target source body strategy head table env env',
    FlowStmt.allStay true body = true → Env.AgreeOn source.uses env env' →
    (∀ x ∈ (FlowStmt.liveIn body head table).1, x ∉ target.names → x ∈ head) →
    Env.AgreeOn head env env' →
    Matches (c.runFor n plan info target source body strategy env)
      (c.runFor n plan info target source body strategy env') (Env.AgreeOn head)
  runWhile : ∀ plan info condition body head table env env',
    FlowStmt.allStay true body = true → condition.uses ⊆ head →
    (FlowStmt.liveIn body head table).1 ⊆ head → Env.AgreeOn head env env' →
    Matches (c.runWhile n plan info condition body env) (c.runWhile n plan info condition body env')
      (Env.AgreeOn head)

section Runs

variable {n : Nat}

theorem parallel_zero : c.Parallel 0 where
  run := fun _ _ _ _ _ _ _ _ _ => by
    rw [Setting.run, Setting.run]
    exact .halt _
  runStmt := fun _ _ _ _ _ _ _ _ _ => by
    rw [Setting.runStmt, Setting.runStmt]
    exact .halt _
  runBody := fun _ _ _ _ _ _ _ _ => by
    rw [Setting.runBody, Setting.runBody]
    exact .halt _
  runArms := fun _ _ _ _ _ _ _ _ _ _ _ _ _ => by
    rw [Setting.runArms, Setting.runArms]
    exact .halt _
  chooseArm := fun _ _ _ _ _ _ _ _ _ _ _ _ _ _ _ => by
    rw [Setting.chooseArm, Setting.chooseArm]
    exact .halt _
  hostFor := fun _ _ _ _ _ _ _ _ _ _ _ => by
    rw [Setting.hostFor, Setting.hostFor]
    exact .halt _
  hostEach := fun _ _ _ _ _ _ _ _ _ _ _ => by
    rw [Setting.hostEach, Setting.hostEach]
    exact .halt _
  hostWhile := fun _ _ _ _ _ _ _ _ _ _ _ => by
    rw [Setting.hostWhile, Setting.hostWhile]
    exact .halt _
  runFor := fun _ _ _ _ _ _ _ _ _ _ _ _ _ _ => by
    rw [Setting.runFor, Setting.runFor]
    exact .halt _
  runWhile := fun _ _ _ _ _ _ _ _ _ _ _ _ => by
    rw [Setting.runWhile, Setting.runWhile]
    exact .halt _

section Parts

variable (ih : c.Parallel n) (plan : Option FaultPlan) {inside : Bool} {after head : Names}
  {table table' : LiveTable} {env env' : Env}

include ih

theorem parallel_run {body : List FlowStmt} (hstay : FlowStmt.allStay inside body = true)
    (h : Env.AgreeOn (FlowStmt.liveIn body after table).1 env env') :
    Matches (c.run (n + 1) plan body env) (c.run (n + 1) plan body env')
      (Exit.SameEnd inside after) := by
  cases body with
  | nil =>
    rw [Setting.run, Setting.run]
    exact .pure (.next h)
  | cons stmt rest =>
    rw [FlowStmt.allStay, Bool.and_eq_true] at hstay
    rw [Setting.run, Setting.run]
    refine (ih.runStmt plan inside stmt _ _ env env' hstay.1 h).bind ?_
    rintro ⟨exit, env₁⟩ ⟨exit', env₁'⟩ ⟨hexit, hnext, hagree⟩
    obtain rfl : exit = exit' := hexit
    cases exit with
    | ret v => exact .pure (.ret hnext)
    | next => exact ih.run plan inside rest after table env₁ env₁' hstay.2 (hagree rfl)

theorem parallel_runStmt {stmt : FlowStmt} (hstays : stmt.stays inside = true)
    (h : Env.AgreeOn (stmt.liveBefore after table).1 env env') :
    Matches (c.runStmt (n + 1) plan stmt env) (c.runStmt (n + 1) plan stmt env')
      (Exit.SameEnd inside after) := by
  cases stmt with
  | act action span =>
    rw [Setting.runStmt, Setting.runStmt]
    exact matches_act inside span (by simpa only [FlowStmt.stays, Bool.not_eq_true'] using hstays) h
  | cond info arms otherwise =>
    rw [FlowStmt.stays, Bool.and_eq_true] at hstays
    rw [Setting.runStmt, Setting.runStmt]
    rw [FlowStmt.liveBefore_cond] at h
    refine (ih.runArms plan info arms otherwise after table _ env env' hstays.1 hstays.2
      (h.mono fun x hx => Names.mem_union.mpr (.inl hx))
      (h.mono fun x hx => Names.mem_union.mpr (.inr hx))).bind fun env₁ env₁' h₁ => ?_
    exact .pure (.next h₁)
  | forIn info target source body domain strategy =>
    obtain ⟨head, table₀, hafter, -, hround, heq⟩ :=
      liveHead_spec (FlowStmt.liveIn_subset body) (Names.without_subset target.names)
        ((FlowStmt.readIn body).length + 1) after table
        (Nat.lt_succ_of_le (List.length_filter_le _ _))
    simp only [FlowStmt.liveBefore, heq] at h
    rw [Setting.runStmt, Setting.runStmt]
    refine (ih.runFor plan info target source body strategy head table₀ env env' hstays
      (h.mono fun x hx => Names.mem_union.mpr (.inr hx))
      (fun x hx hxt => hround (Names.mem_without.mpr ⟨hx, hxt⟩))
      (h.mono fun x hx => Names.mem_union.mpr (.inl hx))).bind fun env₁ env₁' h₁ => ?_
    exact .pure (.next (h₁.mono hafter))
  | whileDo info condition body =>
    obtain ⟨head, table₀, hstart, -, hround, heq⟩ :=
      liveHead_spec (FlowStmt.liveIn_subset body) Names.id_subset
        ((FlowStmt.readIn body).length + 1) (after.union condition.uses) table
        (Nat.lt_succ_of_le (List.length_filter_le _ _))
    simp only [FlowStmt.liveBefore, heq] at h
    rw [Setting.runStmt, Setting.runStmt]
    refine (ih.runWhile plan info condition body head table₀ env env' hstays
      (fun x hx => hstart (Names.mem_union.mpr (.inr hx))) hround h).bind fun env₁ env₁' h₁ => ?_
    exact .pure (.next (h₁.mono fun x hx => hstart (Names.mem_union.mpr (.inl hx))))

theorem parallel_runBody {body : List FlowStmt} (hstay : FlowStmt.allStay true body = true)
    (h : Env.AgreeOn (FlowStmt.liveIn body after table).1 env env') :
    Matches (c.runBody (n + 1) plan body env) (c.runBody (n + 1) plan body env')
      (Env.AgreeOn after) := by
  rw [Setting.runBody, Setting.runBody]
  refine (ih.run plan true body after table env env' hstay h).bind ?_
  rintro ⟨exit, env₁⟩ ⟨exit', env₁'⟩ ⟨-, hnext, hagree⟩
  exact .pure (hagree (hnext rfl))

theorem parallel_runArms (hmode : c.mode = .eager) (info : BlockInfo) {arms : List FlowArm}
    {otherwise : Option (List FlowStmt)} (harms : FlowStmt.armsStay arms = true)
    (hlast : FlowStmt.lastStays otherwise = true)
    (h : Env.AgreeOn (FlowStmt.liveArms arms after table).1 env env')
    (h' : Env.AgreeOn (FlowStmt.liveLast otherwise after table').1 env env') :
    Matches (c.runArms (n + 1) plan info arms otherwise env)
      (c.runArms (n + 1) plan info arms otherwise env') (Env.AgreeOn after) := by
  cases arms with
  | nil =>
    cases otherwise with
    | none =>
      rw [Setting.runArms, Setting.runArms]
      exact .pure h'
    | some body =>
      rw [Setting.runArms, Setting.runArms]
      exact ih.runBody plan body after table' env env' hlast h'
  | cons arm rest =>
    obtain ⟨condition, body⟩ := arm
    have hcondition : Env.AgreeOn condition.uses env env' := by
      refine h.mono fun x hx => ?_
      simp [FlowStmt.liveArms, hx]
    rw [runArms_cons, runArms_cons, Expr.eval_congr hcondition]
    refine .bind_same _ fun predicate => ?_
    simp only [hmode, decide_true, Bool.true_or, if_true]
    exact ih.chooseArm plan info ⟨condition, body⟩ rest otherwise predicate after table table' env
      env' harms hlast h h'

theorem parallel_chooseArm (info : BlockInfo) {arm : FlowArm} {rest : List FlowArm}
    {otherwise : Option (List FlowStmt)} (predicate : Value)
    (harms : FlowStmt.armsStay (arm :: rest) = true)
    (hlast : FlowStmt.lastStays otherwise = true)
    (h : Env.AgreeOn (FlowStmt.liveArms (arm :: rest) after table).1 env env')
    (h' : Env.AgreeOn (FlowStmt.liveLast otherwise after table').1 env env') :
    Matches (c.chooseArm (n + 1) plan info arm rest otherwise predicate env)
      (c.chooseArm (n + 1) plan info arm rest otherwise predicate env') (Env.AgreeOn after) := by
  obtain ⟨condition, body⟩ := arm
  rw [FlowStmt.armsStay, Bool.and_eq_true] at harms
  rw [Setting.chooseArm, Setting.chooseArm]
  refine .bind_same _ fun truth => ?_
  have hbody : Env.AgreeOn (FlowStmt.liveIn body after table).1 env env' := by
    refine h.mono fun x hx => ?_
    simp [FlowStmt.liveArms, hx]
  have hrest : Env.AgreeOn
      (FlowStmt.liveArms rest after (FlowStmt.liveIn body after table).2).1 env env' := by
    refine h.mono fun x hx => ?_
    simp [FlowStmt.liveArms, hx]
  split
  · exact ih.runBody plan body after table env env' harms.1 hbody
  · exact ih.runArms plan info rest otherwise after _ table' env env' harms.2 hlast hrest h'

theorem parallel_runFor (hmode : c.mode = .eager) (info : BlockInfo) {target : Target}
    {source : Expr} {body : List FlowStmt} (strategy : Strategy)
    (hstay : FlowStmt.allStay true body = true) (hsource : Env.AgreeOn source.uses env env')
    (hround : ∀ x ∈ (FlowStmt.liveIn body head table).1, x ∉ target.names → x ∈ head)
    (h : Env.AgreeOn head env env') :
    Matches (c.runFor (n + 1) plan info target source body strategy env)
      (c.runFor (n + 1) plan info target source body strategy env') (Env.AgreeOn head) := by
  rw [runFor_succ, runFor_succ, Expr.eval_congr hsource]
  refine .bind_same _ fun items => ?_
  simp only [hmode, decide_true, Bool.true_or, if_true]
  exact ih.hostFor plan target body items head table env env' hstay hround h

theorem parallel_hostEach {target : Target} {body : List FlowStmt} (feed : Feed)
    (hstay : FlowStmt.allStay true body = true)
    (hround : ∀ x ∈ (FlowStmt.liveIn body head table).1, x ∉ target.names → x ∈ head)
    (h : Env.AgreeOn head env env') :
    Matches (c.hostEach (n + 1) plan target body feed env)
      (c.hostEach (n + 1) plan target body feed env') (Env.AgreeOn head) := by
  rw [Setting.hostEach, Setting.hostEach]
  split
  · exact .pure h
  · next item feed' _ =>
    -- the target is bound, and what else is live in the round was live before it
    refine (target.matches_assign item fun x hx hxt => h x (hround x hx hxt)).bind
      fun env₁ env₁' h₁ => ?_
    refine (ih.runBody plan body head table env₁ env₁' hstay h₁).bind fun env₂ env₂' h₂ => ?_
    exact ih.hostEach plan target body feed' head table env₂ env₂' hstay hround h₂

theorem parallel_hostWhile {condition : Expr} {body : List FlowStmt}
    (hstay : FlowStmt.allStay true body = true) (hcondition : condition.uses ⊆ head)
    (hround : (FlowStmt.liveIn body head table).1 ⊆ head) (h : Env.AgreeOn head env env') :
    Matches (c.hostWhile (n + 1) plan condition body env)
      (c.hostWhile (n + 1) plan condition body env') (Env.AgreeOn head) := by
  rw [Setting.hostWhile, Setting.hostWhile, Expr.eval_congr (h.mono hcondition)]
  refine .bind_same _ fun predicate => ?_
  refine .bind_same _ fun truth => ?_
  split
  · refine (ih.runBody plan body head table env env' hstay (h.mono hround)).bind
      fun env₁ env₁' h₁ => ?_
    exact ih.hostWhile plan condition body head table env₁ env₁' hstay hcondition hround h₁
  · exact .pure h

end Parts

theorem parallel_succ (hmode : c.mode = .eager) (ih : c.Parallel n) : c.Parallel (n + 1) where
  run := fun plan _ _ _ _ _ _ hstay h => parallel_run ih plan hstay h
  runStmt := fun plan _ _ _ _ _ _ hstays h => parallel_runStmt ih plan hstays h
  runBody := fun plan _ _ _ _ _ hstay h => parallel_runBody ih plan hstay h
  runArms := fun plan info _ _ _ _ _ _ _ harms hlast h h' =>
    parallel_runArms ih plan hmode info harms hlast h h'
  chooseArm := fun plan info _ _ _ predicate _ _ _ _ _ harms hlast h h' =>
    parallel_chooseArm ih plan info predicate harms hlast h h'
  hostFor := fun plan target body items head table env env' hstay hround h => by
    rw [Setting.hostFor, Setting.hostFor]
    exact .bind_same _ fun feed =>
      ih.hostEach plan target body feed head table env env' hstay hround h
  hostEach := fun plan _ _ feed _ _ _ _ hstay hround h =>
    parallel_hostEach ih plan feed hstay hround h
  hostWhile := fun plan _ _ _ _ _ _ hstay hcondition hround h =>
    parallel_hostWhile ih plan hstay hcondition hround h
  runFor := fun plan info _ _ _ strategy _ _ _ _ hstay hsource hround h =>
    parallel_runFor ih plan hmode info strategy hstay hsource hround h
  runWhile := fun plan info condition body head table env env' hstay hcondition hround h => by
    rw [runWhile_succ, runWhile_succ, if_pos hmode, if_pos hmode]
    exact ih.hostWhile plan condition body head table env env' hstay hcondition hround h

theorem parallel (hmode : c.mode = .eager) (n : Nat) : c.Parallel n := by
  induction n with
  | zero => exact parallel_zero
  | succ n ih => exact parallel_succ hmode ih

/-- From environments that agree on what is live before statements, the host runs them to the same
end: both runs halt in the same way, return the same value, or go on with environments that agree on
what is live after them. As that is so for all amounts of fuel, one run ends if the other does. -/
theorem run_agrees_of_live (hmode : c.mode = .eager) (n : Nat) (plan : Option FaultPlan)
    {body : List FlowStmt} (hstay : FlowStmt.allStay false body = true) {after : Names}
    {table : LiveTable} {env env' : Env}
    (h : Env.AgreeOn (FlowStmt.liveIn body after table).1 env env') (s : Tracer × Journal) :
    (∃ halt s', c.run n plan body env s = (.error halt, s') ∧
      c.run n plan body env' s = (.error halt, s')) ∨
    (∃ v env₁ env₁' s', c.run n plan body env s = (.ok (.ret v, env₁), s') ∧
      c.run n plan body env' s = (.ok (.ret v, env₁'), s')) ∨
    ∃ env₁ env₁' s', c.run n plan body env s = (.ok (.next, env₁), s') ∧
      c.run n plan body env' s = (.ok (.next, env₁'), s') ∧ Env.AgreeOn after env₁ env₁' := by
  rcases (parallel hmode n).run plan false body after table env env' hstay h s with
    hhalt | ⟨⟨exit, env₁⟩, ⟨exit', env₁'⟩, s', hrun, hrun', hexit, -, hagree⟩
  · exact .inl hhalt
  · obtain rfl : exit = exit' := hexit
    cases exit with
    | ret v => exact .inr (.inl ⟨v, env₁, env₁', s', hrun, hrun'⟩)
    | next => exact .inr (.inr ⟨env₁, env₁', s', hrun, hrun', hagree rfl⟩)

/-! A loop with a temporary: what was bound to it before the loop makes no difference. -/

def temporaryLoop : List FlowStmt :=
  [.whileDo (.fresh 0 .conditionalLoop ⟨none, "climb", 1, none⟩)
    (.binary .lt (.var "x") (.var "n"))
    [.act (.assign (.name "y") (.binary .add (.var "x") (.literal (.int 1)))) .unknown,
      .act (.assign (.name "x") (.var "y")) .unknown]]

/-- Whether a run went on to the end of its statements. -/
def ranThrough : Except (Halt RunError) (Exit × Env) → Bool
  | .ok (.next, _) => true
  | _ => false

theorem run_agrees_of_live_temporary :
    let c : Setting := ⟨default, {}, .eager⟩
    let env : Env := [("x", .int 1), ("n", .int 3), ("y", .int 7)]
    let env' : Env := [("n", .int 3), ("x", .int 1)]
    let s : Tracer × Journal := (Tracer.start false, {})
    Env.AgreeOn (FlowStmt.liveIn temporaryLoop ["x"] []).1 env env' ∧
      ∃ env₁ env₁' s', c.run 30 none temporaryLoop env s = (.ok (.next, env₁), s') ∧
        c.run 30 none temporaryLoop env' s = (.ok (.next, env₁'), s') ∧
        Env.AgreeOn ["x"] env₁ env₁' := by
  intro c env env' s
  have hlive : (FlowStmt.liveIn temporaryLoop ["x"] []).1 = ["x", "n"] := by decide +kernel
  have hagree : Env.AgreeOn (FlowStmt.liveIn temporaryLoop ["x"] []).1 env env' := by
    intro x hx
    rw [hlive] at hx
    simp only [List.mem_cons, List.not_mem_nil, or_false] at hx
    rcases hx with rfl | rfl
    · rfl
    · rfl
  have hthrough : ranThrough (c.run 30 none temporaryLoop env s).1 = true := by decide +kernel
  refine ⟨hagree, ?_⟩
  rcases run_agrees_of_live (c := c) rfl 30 none (by decide) hagree s with
    ⟨halt, s', hrun, -⟩ | ⟨v, env₁, env₁', s', hrun, -⟩ | hnext
  · rw [hrun] at hthrough
    cases hthrough
  · rw [hrun] at hthrough
    cases hthrough
  · exact hnext

end Runs

end Setting

end StagedFlow
