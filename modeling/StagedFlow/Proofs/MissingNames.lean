import StagedFlow.Proofs.Availability

/-!
Reads that fail. The path of a run on the host to the read of a name without a value passes blocks
that were run through and enters loops; in a converted function none of them assigns the name. Main
definitions: `Step.Lacks`, `Part`, `Setting.Misses`, `Setting.Located`. Main results:
`Expr.lacks_eval`, `Setting.located`, `Setting.Misses.unassigned`,
`Setting.unassigned_of_undefined`.
-/
set_option autoImplicit false

namespace StagedFlow

/-! ## Names for want of which steps fail -/

namespace Step

variable {σ ρ α β : Type}

/-- If a step fails for want of a value, then the name has the property `P`. -/
def Lacks (x : Step σ RunError α) (P : String → Prop) : Prop :=
  ∀ s name s', x s = (.error (.error (.undefined name)), s') → P name

/-- A sequence that fails fails in its first step, or after it. -/
theorem bind_eq_error {ε : Type} {x : Step σ ε α} {f : α → Step σ ε β} {s s' : σ} {e : Halt ε}
    (h : (x >>= f) s = (.error e, s')) :
    x s = (.error e, s') ∨ ∃ a s₁, x s = (.ok a, s₁) ∧ f a s₁ = (.error e, s') := by
  rcases hx : x s with ⟨e' | a, s₁⟩
  · rw [bind_of_error hx] at h
    cases h
    exact .inl rfl
  · rw [bind_of_ok hx] at h
    exact .inr ⟨a, s₁, rfl, h⟩

namespace Lacks

variable {x : Step σ RunError α} {f : α → Step σ RunError β} {P P' : String → Prop}

theorem done (a : α) : (Step.done a : Step σ RunError α).Lacks P := by
  intro s name s' h
  cases h

theorem bind (hx : x.Lacks P) (hf : ∀ a, (f a).Lacks P) : (x >>= f).Lacks P := by
  intro s name s' h
  rcases bind_eq_error h with hfirst | ⟨a, s₁, -, hsecond⟩
  · exact hx s name s' hfirst
  · exact hf a s₁ name s' hsecond

theorem mono (h : x.Lacks P) (hP : ∀ name, P name → P' name) : x.Lacks P' :=
  fun s name s' hx => hP name (h s name s' hx)

/-- A fault is no missing value. -/
theorem of_fault (y : Step σ Fault α) : (y.mapError RunError.fault).Lacks P := by
  intro s name s' h
  unfold mapError at h
  rcases hy : y s with ⟨e | a, s₁⟩
  · rw [hy] at h
    cases e <;> cases h
  · rw [hy] at h
    cases h

theorem onFirst (h : x.Lacks P) : (x.onFirst : Step (σ × ρ) RunError α).Lacks P := by
  intro s name s' hx
  refine h s.1 name s'.1 ?_
  obtain ⟨hresult, rfl⟩ := Prod.mk.inj hx
  exact Prod.ext hresult rfl

end Lacks

end Step

open Step

theorem Env.lacks_lookup (env : Env) (name : String) :
    (Eval.ofExcept (env.lookup name)).Lacks fun x => x = name ∧ ¬env.Binds x := by
  intro t x t' h
  unfold Env.lookup at h
  split at h
  · cases h
  · next hfind =>
    cases h
    refine ⟨rfl, fun hbinds => ?_⟩
    rw [Env.Binds, hfind] at hbinds
    cases hbinds

namespace Expr

variable {env : Env} {P : String → Prop}

theorem lacks_evalLogical (op : LogicalOp) (left : Value) {right : Eval Value}
    (h : right.Lacks P) : (evalLogical op left right).Lacks P := by
  have hplain : (do
      let truth ← Eval.ofFault left.truthy
      if decides op truth then return left else right).Lacks P := by
    refine (Lacks.of_fault _).bind fun truth => ?_
    split
    · exact .done left
    · exact h
  cases left with
  | traced id type =>
    refine h.bind fun v => ?_
    split
    · exact .of_fault _
    · intro t name t' hfail
      cases hfail
  | _ => exact hplain

theorem lacks_evalNot (v : Value) : (evalNot v).Lacks P := by
  unfold evalNot
  split
  · exact .of_fault _
  · exact (Lacks.of_fault _).bind fun truth => .done _

theorem lacks_evalIndex (base i : Value) : (evalIndex base i).Lacks P := by
  unfold evalIndex
  split
  · exact .of_fault _
  · exact .of_fault _

/-- A name with no value in an environment that is one of `names`. -/
def Unbound (env : Env) (names : List String) (x : String) : Prop :=
  x ∈ names ∧ ¬env.Binds x

theorem Unbound.mono {names more : List String} {x : String} (h : Unbound env names x)
    (hsub : names ⊆ more) : Unbound env more x :=
  h.imp_left (@hsub x)

mutual

/-- An expression fails for want of a value only if it uses the name. -/
theorem lacks_eval : ∀ e : Expr, (e.eval env).Lacks (Unbound env e.uses)
  | literal l => .done l.value
  | var name => (env.lacks_lookup name).mono fun x h => ⟨by simp [uses, h.1], h.2⟩
  | binary op left right => by
    rw [eval]
    refine ((lacks_eval left).mono fun x h => h.mono (List.subset_append_left _ _)).bind fun _ => ?_
    refine ((lacks_eval right).mono fun x h => h.mono (List.subset_append_right _ _)).bind fun _ => ?_
    exact .of_fault _
  | neg operand => by
    rw [eval]
    exact (lacks_eval operand).bind fun _ => .of_fault _
  | and left right => by
    rw [eval]
    refine ((lacks_eval left).mono fun x h => h.mono (List.subset_append_left _ _)).bind fun v => ?_
    exact lacks_evalLogical _ v
      ((lacks_eval right).mono fun x h => h.mono (List.subset_append_right _ _))
  | or left right => by
    rw [eval]
    refine ((lacks_eval left).mono fun x h => h.mono (List.subset_append_left _ _)).bind fun v => ?_
    exact lacks_evalLogical _ v
      ((lacks_eval right).mono fun x h => h.mono (List.subset_append_right _ _))
  | not operand => by
    rw [eval]
    exact (lacks_eval operand).bind fun v => lacks_evalNot v
  | list items => by
    rw [eval]
    exact (lacks_evalAll items).bind fun _ => .done _
  | tuple items => by
    rw [eval]
    exact (lacks_evalAll items).bind fun _ => .done _
  | dict entries => by
    rw [eval]
    exact (lacks_evalEntries entries).bind fun _ => .done _
  | index base i => by
    rw [eval]
    refine ((lacks_eval base).mono fun x h => h.mono (List.subset_append_left _ _)).bind fun _ => ?_
    refine ((lacks_eval i).mono fun x h => h.mono (List.subset_append_right _ _)).bind fun _ => ?_
    exact lacks_evalIndex _ _
  | call function args => by
    rw [eval]
    exact (lacks_evalAll args).bind fun _ => .of_fault _

theorem lacks_evalAll : ∀ es : List Expr, (evalAll env es).Lacks (Unbound env (usesOf es))
  | [] => .done []
  | e :: rest => by
    rw [evalAll]
    refine ((lacks_eval e).mono fun x h => h.mono (List.subset_append_left _ _)).bind fun _ => ?_
    refine ((lacks_evalAll rest).mono fun x h => h.mono (List.subset_append_right _ _)).bind
      fun _ => .done _

theorem lacks_evalEntries : ∀ es : List (Expr × Expr),
    (evalEntries env es).Lacks (Unbound env (usesOfEntries es))
  | [] => .done []
  | (k, v) :: rest => by
    have hboth : k.uses ++ v.uses ⊆ usesOfEntries ((k, v) :: rest) := List.subset_append_left _ _
    rw [evalEntries]
    refine ((lacks_eval k).mono fun x h =>
      h.mono (List.Subset.trans (List.subset_append_left _ _) hboth)).bind fun _ => ?_
    refine ((lacks_eval v).mono fun x h =>
      h.mono (List.Subset.trans (List.subset_append_right _ _) hboth)).bind fun _ => ?_
    exact ((lacks_evalEntries rest).mono fun x h => h.mono (List.subset_append_right _ _)).bind
      fun _ => .done _

end

end Expr

/-- An action fails for want of a value only if the name is live before it. -/
theorem Setting.lacks_act (c : Setting) (span : Span) (env : Env) (after : Names)
    (action : Action) :
    (c.act span env action).Lacks (Expr.Unbound env (action.liveBefore after)) := by
  have hvalue : ∀ (e : Expr) {names : List String}, e.uses ⊆ names →
      (Exec.ofEval (e.eval env)).Lacks (Expr.Unbound env names) :=
    fun e names hsub => ((Expr.lacks_eval e).mono fun x h => h.mono hsub).onFirst
  cases action with
  | assign target value =>
    refine (hvalue value fun x hx => Names.mem_union.mpr (.inr hx)).bind fun v => ?_
    exact (Lacks.of_fault _).onFirst.bind fun _ => .done _
  | update name op value =>
    have hname : name ∈ Action.liveBefore (.update name op value) after :=
      Names.mem_union.mpr (.inl (Names.mem_add.mpr (.inr rfl)))
    refine ((env.lacks_lookup name).mono fun x h => ⟨h.1 ▸ hname, h.2⟩).onFirst.bind
      fun current => ?_
    refine (hvalue value fun x hx => Names.mem_union.mpr (.inr hx)).bind fun v => ?_
    exact (Lacks.of_fault _).onFirst.bind fun _ => .done _
  | eval expr =>
    exact (hvalue expr fun x hx => Names.mem_union.mpr (.inr hx)).bind fun _ => .done _
  | ret value =>
    cases value with
    | none => exact .done _
    | some value => exact (hvalue value fun x hx => Names.mem_ofList.mpr hx).bind fun _ => .done _
  | raise message =>
    intro s name s' h
    cases h
  | pass => exact .done _

/-! ## The path to a read -/

/-- A part of a run on the host: statements, one statement, a conditional from an arm on, and the
rounds that are left of a loop. -/
inductive Part
  | stmts (body : List FlowStmt)
  | stmt (s : FlowStmt)
  | arms (info : BlockInfo) (arms : List FlowArm) (otherwise : Option (List FlowStmt))
  | rounds (target : Target) (body : List FlowStmt) (feed : Feed)
  | repeats (condition : Expr) (body : List FlowStmt)

/-- A part comes, from an environment and a state, to a read of `x` that fails. On the way the
blocks in `passed` have been run through, those inside them and those of earlier rounds included,
and the loops in `around` have been entered: their body or their condition has the read. -/
inductive Setting.Misses (c : Setting) (x : String) :
    Part → Env → Tracer × Journal → List FlowStmt → List FlowStmt → Prop
  | act {action : Action} {span : Span} {env : Env} {s s' : Tracer × Journal} :
    c.act span env action s = (.error (.error (.undefined x)), s') →
    Misses c x (.stmt (.act action span)) env s [] []
  | first {stmt : FlowStmt} {rest passed around : List FlowStmt} {env : Env}
    {s : Tracer × Journal} :
    Misses c x (.stmt stmt) env s passed around →
    Misses c x (.stmts (stmt :: rest)) env s passed around
  | later {n : Nat} {plan : Option FaultPlan} {stmt : FlowStmt} {rest passed around : List FlowStmt}
    {env env' : Env} {s s' : Tracer × Journal} :
    c.runStmt n plan stmt env s = (.ok (.next, env'), s') →
    Misses c x (.stmts rest) env' s' passed around →
    Misses c x (.stmts (stmt :: rest)) env s (stmt.blocks ++ passed) around
  | cond {info : BlockInfo} {arms : List FlowArm} {otherwise : Option (List FlowStmt)} {env : Env}
    {s : Tracer × Journal} {passed around : List FlowStmt} :
    Misses c x (.arms info arms otherwise) env s passed around →
    Misses c x (.stmt (.cond info arms otherwise)) env s passed around
  | condition {info : BlockInfo} {arm : FlowArm} {rest : List FlowArm}
    {otherwise : Option (List FlowStmt)} {env : Env} {s s' : Tracer × Journal} :
    Exec.ofEval (arm.condition.eval env) s = (.error (.error (.undefined x)), s') →
    Misses c x (.arms info (arm :: rest) otherwise) env s [] []
  | chosen {info : BlockInfo} {arm : FlowArm} {rest : List FlowArm}
    {otherwise : Option (List FlowStmt)} {env : Env} {predicate : Value} {s s' : Tracer × Journal}
    {passed around : List FlowStmt} :
    Exec.ofEval (arm.condition.eval env) s = (.ok predicate, s') → predicate.truthy = .ok true →
    Misses c x (.stmts arm.body) env s' passed around →
    Misses c x (.arms info (arm :: rest) otherwise) env s passed around
  | skipped {info : BlockInfo} {arm : FlowArm} {rest : List FlowArm}
    {otherwise : Option (List FlowStmt)} {env : Env} {predicate : Value} {s s' : Tracer × Journal}
    {passed around : List FlowStmt} :
    Exec.ofEval (arm.condition.eval env) s = (.ok predicate, s') → predicate.truthy = .ok false →
    Misses c x (.arms info rest otherwise) env s' passed around →
    Misses c x (.arms info (arm :: rest) otherwise) env s passed around
  | otherwise {info : BlockInfo} {body passed around : List FlowStmt} {env : Env}
    {s : Tracer × Journal} :
    Misses c x (.stmts body) env s passed around →
    Misses c x (.arms info [] (some body)) env s passed around
  | source {info : BlockInfo} {target : Target} {source : Expr} {body : List FlowStmt}
    {domain : Option Domain} {strategy : Strategy} {env : Env} {s s' : Tracer × Journal} :
    Exec.ofEval (source.eval env) s = (.error (.error (.undefined x)), s') →
    Misses c x (.stmt (.forIn info target source body domain strategy)) env s [] []
  | forIn {info : BlockInfo} {target : Target} {source : Expr} {body passed around : List FlowStmt}
    {domain : Option Domain} {strategy : Strategy} {items : Value} {feed : Feed} {env : Env}
    {s s' s'' : Tracer × Journal} :
    Exec.ofEval (source.eval env) s = (.ok items, s') →
    Exec.ofTracer (Feed.of items) s' = (.ok feed, s'') →
    Misses c x (.rounds target body feed) env s'' passed around →
    Misses c x (.stmt (.forIn info target source body domain strategy)) env s passed
      (.forIn info target source body domain strategy :: around)
  | round {target : Target} {body passed around : List FlowStmt} {item : Value} {feed feed' : Feed}
    {env env' : Env} {s s' : Tracer × Journal} :
    feed.next? = some (item, feed') →
    Exec.ofTracer (target.assign item env) s = (.ok env', s') →
    Misses c x (.stmts body) env' s' passed around →
    Misses c x (.rounds target body feed) env s passed around
  | nextRound {n : Nat} {plan : Option FaultPlan} {target : Target}
    {body passed around : List FlowStmt} {item : Value} {feed feed' : Feed} {env env' env'' : Env}
    {s s' s'' : Tracer × Journal} :
    feed.next? = some (item, feed') →
    Exec.ofTracer (target.assign item env) s = (.ok env', s') →
    c.runBody n plan body env' s' = (.ok env'', s'') →
    Misses c x (.rounds target body feed') env'' s'' passed around →
    Misses c x (.rounds target body feed) env s (FlowStmt.blocksOf body ++ passed) around
  | whileDo {info : BlockInfo} {condition : Expr} {body passed around : List FlowStmt} {env : Env}
    {s : Tracer × Journal} :
    Misses c x (.repeats condition body) env s passed around →
    Misses c x (.stmt (.whileDo info condition body)) env s passed
      (.whileDo info condition body :: around)
  | test {condition : Expr} {body : List FlowStmt} {env : Env} {s s' : Tracer × Journal} :
    Exec.ofEval (condition.eval env) s = (.error (.error (.undefined x)), s') →
    Misses c x (.repeats condition body) env s [] []
  | inside {condition : Expr} {body passed around : List FlowStmt} {env : Env} {predicate : Value}
    {s s' : Tracer × Journal} :
    Exec.ofEval (condition.eval env) s = (.ok predicate, s') → predicate.truthy = .ok true →
    Misses c x (.stmts body) env s' passed around →
    Misses c x (.repeats condition body) env s passed around
  | again {n : Nat} {plan : Option FaultPlan} {condition : Expr} {body passed around : List FlowStmt}
    {env env' : Env} {predicate : Value} {s s' s'' : Tracer × Journal} :
    Exec.ofEval (condition.eval env) s = (.ok predicate, s') → predicate.truthy = .ok true →
    c.runBody n plan body env s' = (.ok env', s'') →
    Misses c x (.repeats condition body) env' s'' passed around →
    Misses c x (.repeats condition body) env s (FlowStmt.blocksOf body ++ passed) around

namespace Setting

variable {c : Setting}

theorem ofTracer_ne_undefined {α : Type} {y : Step Tracer Fault α} {s s' : Tracer × Journal}
    {x : String} : Exec.ofTracer y s ≠ (.error (.error (.undefined x)), s') := by
  intro h
  exact (Lacks.of_fault (P := fun _ => False) y).onFirst s x s' h

theorem ofEval_ofFault_eq_ok {α : Type} {y : Except Fault α} {a : α} {s s' : Tracer × Journal}
    (h : Exec.ofEval (Eval.ofFault y) s = (.ok a, s')) : y = .ok a ∧ s' = s := by
  cases y with
  | ok b =>
    cases h
    exact ⟨rfl, rfl⟩
  | error f => cases h

/-- With this much fuel, each part of a run on the host that fails for want of a value has a path
to the read. -/
structure Located (c : Setting) (n : Nat) : Prop where
  run : ∀ {plan body} {env : Env} {s x s'},
    c.run n plan body env s = (.error (.error (.undefined x)), s') →
    ∃ passed around, c.Misses x (.stmts body) env s passed around
  runStmt : ∀ {plan stmt} {env : Env} {s x s'},
    c.runStmt n plan stmt env s = (.error (.error (.undefined x)), s') →
    ∃ passed around, c.Misses x (.stmt stmt) env s passed around
  runBody : ∀ {plan body} {env : Env} {s x s'},
    c.runBody n plan body env s = (.error (.error (.undefined x)), s') →
    ∃ passed around, c.Misses x (.stmts body) env s passed around
  runArms : ∀ {plan info arms otherwise} {env : Env} {s x s'},
    c.runArms n plan info arms otherwise env s = (.error (.error (.undefined x)), s') →
    ∃ passed around, c.Misses x (.arms info arms otherwise) env s passed around
  chooseArm : ∀ {plan info arm rest otherwise predicate} {env : Env} {s x s'},
    c.chooseArm n plan info arm rest otherwise predicate env s =
      (.error (.error (.undefined x)), s') →
    (predicate.truthy = .ok true ∧
      ∃ passed around, c.Misses x (.stmts arm.body) env s passed around) ∨
    predicate.truthy = .ok false ∧
      ∃ passed around, c.Misses x (.arms info rest otherwise) env s passed around
  runFor : ∀ {plan info target source body strategy} domain {env : Env} {s x s'},
    c.runFor n plan info target source body strategy env s =
      (.error (.error (.undefined x)), s') →
    ∃ passed around,
      c.Misses x (.stmt (.forIn info target source body domain strategy)) env s passed around
  hostFor : ∀ {plan target body items} {env : Env} {s x s'},
    c.hostFor n plan target body items env s = (.error (.error (.undefined x)), s') →
    ∃ feed s₁ passed around, Exec.ofTracer (Feed.of items) s = (.ok feed, s₁) ∧
      c.Misses x (.rounds target body feed) env s₁ passed around
  hostEach : ∀ {plan target body feed} {env : Env} {s x s'},
    c.hostEach n plan target body feed env s = (.error (.error (.undefined x)), s') →
    ∃ passed around, c.Misses x (.rounds target body feed) env s passed around
  runWhile : ∀ {plan info condition body} {env : Env} {s x s'},
    c.runWhile n plan info condition body env s = (.error (.error (.undefined x)), s') →
    ∃ passed around, c.Misses x (.stmt (.whileDo info condition body)) env s passed around
  hostWhile : ∀ {plan condition body} {env : Env} {s x s'},
    c.hostWhile n plan condition body env s = (.error (.error (.undefined x)), s') →
    ∃ passed around, c.Misses x (.repeats condition body) env s passed around

theorem located_zero : c.Located 0 where
  run := fun {_ _ _ _ _ _} h => by
    rw [Setting.run] at h
    cases h
  runStmt := fun {_ _ _ _ _ _} h => by
    rw [Setting.runStmt] at h
    cases h
  runBody := fun {_ _ _ _ _ _} h => by
    rw [Setting.runBody] at h
    cases h
  runArms := fun {_ _ _ _ _ _ _ _} h => by
    rw [Setting.runArms] at h
    cases h
  chooseArm := fun {_ _ _ _ _ _ _ _ _ _} h => by
    rw [Setting.chooseArm] at h
    cases h
  runFor := fun {_ _ _ _ _ _} _ {_ _ _ _} h => by
    rw [Setting.runFor] at h
    cases h
  hostFor := fun {_ _ _ _ _ _ _ _} h => by
    rw [Setting.hostFor] at h
    cases h
  hostEach := fun {_ _ _ _ _ _ _ _} h => by
    rw [Setting.hostEach] at h
    cases h
  runWhile := fun {_ _ _ _ _ _ _ _} h => by
    rw [Setting.runWhile] at h
    cases h
  hostWhile := fun {_ _ _ _ _ _ _} h => by
    rw [Setting.hostWhile] at h
    cases h

section Parts

variable {n : Nat} (ih : c.Located n) {plan : Option FaultPlan} {env : Env}
  {s s' : Tracer × Journal} {x : String}

include ih

theorem located_run {body : List FlowStmt}
    (h : c.run (n + 1) plan body env s = (.error (.error (.undefined x)), s')) :
    ∃ passed around, c.Misses x (.stmts body) env s passed around := by
  cases body with
  | nil =>
    rw [Setting.run] at h
    cases h
  | cons stmt rest =>
    rw [Setting.run] at h
    rcases bind_eq_error h with hfirst | ⟨⟨exit, env₁⟩, s₁, hstmt, hrest⟩
    · obtain ⟨passed, around, hmisses⟩ := ih.runStmt hfirst
      exact ⟨_, _, .first hmisses⟩
    · cases exit with
      | ret v => cases hrest
      | next =>
        obtain ⟨passed, around, hmisses⟩ := ih.run hrest
        exact ⟨_, _, .later hstmt hmisses⟩

theorem located_runBody {body : List FlowStmt}
    (h : c.runBody (n + 1) plan body env s = (.error (.error (.undefined x)), s')) :
    ∃ passed around, c.Misses x (.stmts body) env s passed around := by
  rw [Setting.runBody] at h
  rcases bind_eq_error h with hrun | ⟨r, s₁, -, hpure⟩
  · exact ih.run hrun
  · cases hpure

theorem located_runStmt {stmt : FlowStmt}
    (h : c.runStmt (n + 1) plan stmt env s = (.error (.error (.undefined x)), s')) :
    ∃ passed around, c.Misses x (.stmt stmt) env s passed around := by
  cases stmt with
  | act action span =>
    rw [Setting.runStmt] at h
    exact ⟨_, _, .act h⟩
  | cond info arms otherwise =>
    rw [Setting.runStmt] at h
    rcases bind_eq_error h with hblock | ⟨env₁, s₁, -, hpure⟩
    · obtain ⟨passed, around, hmisses⟩ := ih.runArms hblock
      exact ⟨_, _, .cond hmisses⟩
    · cases hpure
  | forIn info target source body domain strategy =>
    rw [Setting.runStmt] at h
    rcases bind_eq_error h with hblock | ⟨env₁, s₁, -, hpure⟩
    · exact ih.runFor domain hblock
    · cases hpure
  | whileDo info condition body =>
    rw [Setting.runStmt] at h
    rcases bind_eq_error h with hblock | ⟨env₁, s₁, -, hpure⟩
    · exact ih.runWhile hblock
    · cases hpure

theorem located_runArms (hmode : c.mode = .eager) {info : BlockInfo} {arms : List FlowArm}
    {otherwise : Option (List FlowStmt)}
    (h : c.runArms (n + 1) plan info arms otherwise env s =
      (.error (.error (.undefined x)), s')) :
    ∃ passed around, c.Misses x (.arms info arms otherwise) env s passed around := by
  cases arms with
  | nil =>
    cases otherwise with
    | none =>
      rw [Setting.runArms] at h
      cases h
    | some body =>
      rw [Setting.runArms] at h
      obtain ⟨passed, around, hmisses⟩ := ih.runBody h
      exact ⟨_, _, .otherwise hmisses⟩
  | cons arm rest =>
    rw [runArms_cons] at h
    rcases bind_eq_error h with hcondition | ⟨predicate, s₁, hpredicate, hchoose⟩
    · exact ⟨_, _, .condition hcondition⟩
    · simp only [hmode, decide_true, Bool.true_or, if_true] at hchoose
      rcases ih.chooseArm hchoose with
        ⟨htruth, passed, around, hmisses⟩ | ⟨htruth, passed, around, hmisses⟩
      · exact ⟨_, _, .chosen hpredicate htruth hmisses⟩
      · exact ⟨_, _, .skipped hpredicate htruth hmisses⟩

theorem located_chooseArm {info : BlockInfo} {arm : FlowArm} {rest : List FlowArm}
    {otherwise : Option (List FlowStmt)} {predicate : Value}
    (h : c.chooseArm (n + 1) plan info arm rest otherwise predicate env s =
      (.error (.error (.undefined x)), s')) :
    (predicate.truthy = .ok true ∧
      ∃ passed around, c.Misses x (.stmts arm.body) env s passed around) ∨
    predicate.truthy = .ok false ∧
      ∃ passed around, c.Misses x (.arms info rest otherwise) env s passed around := by
  rw [Setting.chooseArm] at h
  rcases bind_eq_error h with htest | ⟨truth, s₁, htest, hbranch⟩
  · exact absurd htest (ofTracer_ne_undefined (y := Step.ofFault _))
  · obtain ⟨htruth, rfl⟩ := ofEval_ofFault_eq_ok htest
    cases truth with
    | true => exact .inl ⟨htruth, ih.runBody hbranch⟩
    | false => exact .inr ⟨htruth, ih.runArms hbranch⟩

theorem located_runFor (hmode : c.mode = .eager) {info : BlockInfo} {target : Target}
    {source : Expr} {body : List FlowStmt} {strategy : Strategy} (domain : Option Domain)
    (h : c.runFor (n + 1) plan info target source body strategy env s =
      (.error (.error (.undefined x)), s')) :
    ∃ passed around,
      c.Misses x (.stmt (.forIn info target source body domain strategy)) env s passed around := by
  rw [runFor_succ] at h
  rcases bind_eq_error h with hsource | ⟨items, s₁, hitems, hloop⟩
  · exact ⟨_, _, .source hsource⟩
  · simp only [hmode, decide_true, Bool.true_or, if_true] at hloop
    obtain ⟨feed, s₂, passed, around, hfeed, hmisses⟩ := ih.hostFor hloop
    exact ⟨_, _, .forIn hitems hfeed hmisses⟩

theorem located_hostFor {target : Target} {body : List FlowStmt} {items : Value}
    (h : c.hostFor (n + 1) plan target body items env s = (.error (.error (.undefined x)), s')) :
    ∃ feed s₁ passed around, Exec.ofTracer (Feed.of items) s = (.ok feed, s₁) ∧
      c.Misses x (.rounds target body feed) env s₁ passed around := by
  rw [Setting.hostFor] at h
  rcases bind_eq_error h with hfeed | ⟨feed, s₁, hfeed, hrounds⟩
  · exact absurd hfeed ofTracer_ne_undefined
  · obtain ⟨passed, around, hmisses⟩ := ih.hostEach hrounds
    exact ⟨feed, s₁, passed, around, hfeed, hmisses⟩

theorem located_hostEach {target : Target} {body : List FlowStmt} {feed : Feed}
    (h : c.hostEach (n + 1) plan target body feed env s = (.error (.error (.undefined x)), s')) :
    ∃ passed around, c.Misses x (.rounds target body feed) env s passed around := by
  rw [Setting.hostEach] at h
  rcases hnext : feed.next? with _ | ⟨item, feed'⟩
  · rw [hnext] at h
    cases h
  · rw [hnext] at h
    rcases bind_eq_error h with hassign | ⟨env₁, s₁, hassign, hround⟩
    · exact absurd hassign ofTracer_ne_undefined
    · rcases bind_eq_error hround with hbody | ⟨env₂, s₂, hbody, hrest⟩
      · obtain ⟨passed, around, hmisses⟩ := ih.runBody hbody
        exact ⟨_, _, .round hnext hassign hmisses⟩
      · obtain ⟨passed, around, hmisses⟩ := ih.hostEach hrest
        exact ⟨_, _, .nextRound hnext hassign hbody hmisses⟩

theorem located_runWhile (hmode : c.mode = .eager) {info : BlockInfo} {condition : Expr}
    {body : List FlowStmt}
    (h : c.runWhile (n + 1) plan info condition body env s =
      (.error (.error (.undefined x)), s')) :
    ∃ passed around, c.Misses x (.stmt (.whileDo info condition body)) env s passed around := by
  rw [runWhile_succ, if_pos hmode] at h
  obtain ⟨passed, around, hmisses⟩ := ih.hostWhile h
  exact ⟨_, _, .whileDo hmisses⟩

theorem located_hostWhile {condition : Expr} {body : List FlowStmt}
    (h : c.hostWhile (n + 1) plan condition body env s = (.error (.error (.undefined x)), s')) :
    ∃ passed around, c.Misses x (.repeats condition body) env s passed around := by
  rw [Setting.hostWhile] at h
  rcases bind_eq_error h with hcondition | ⟨predicate, s₁, hpredicate, hround⟩
  · exact ⟨_, _, .test hcondition⟩
  · rcases bind_eq_error hround with htest | ⟨truth, s₂, htest, hround⟩
    · exact absurd htest (ofTracer_ne_undefined (y := Step.ofFault _))
    · obtain ⟨htruth, rfl⟩ := ofEval_ofFault_eq_ok htest
      cases truth with
      | true =>
        rcases bind_eq_error hround with hbody | ⟨env₁, s₃, hbody, hrest⟩
        · obtain ⟨passed, around, hmisses⟩ := ih.runBody hbody
          exact ⟨_, _, .inside hpredicate htruth hmisses⟩
        · obtain ⟨passed, around, hmisses⟩ := ih.hostWhile hrest
          exact ⟨_, _, .again hpredicate htruth hbody hmisses⟩
      | false => cases hround

end Parts

theorem located_succ (hmode : c.mode = .eager) {n : Nat} (ih : c.Located n) :
    c.Located (n + 1) where
  run := located_run ih
  runStmt := located_runStmt ih
  runBody := located_runBody ih
  runArms := located_runArms ih hmode
  chooseArm := located_chooseArm ih
  runFor := fun {_ _ _ _ _ _} domain {_ _ _ _} h => located_runFor ih hmode domain h
  hostFor := located_hostFor ih
  hostEach := located_hostEach ih
  runWhile := located_runWhile ih hmode
  hostWhile := located_hostWhile ih

theorem located (hmode : c.mode = .eager) (n : Nat) : c.Located n := by
  induction n with
  | zero => exact located_zero
  | succ n ih => exact located_succ hmode ih

end Setting

/-! ## What is assigned on the path -/

namespace FlowStmt

mutual

/-- A block inside a statement assigns nothing but what the statement does. -/
theorem assigned_subset_of_mem_blocks {b : FlowStmt} : ∀ {s : FlowStmt}, b ∈ s.blocks →
    b.assigned ⊆ s.assigned
  | act _ _, h => by cases h
  | cond info arms none, h => by
    simp only [blocks, List.append_nil, List.mem_cons] at h
    rcases h with rfl | harm
    · exact List.Subset.refl _
    · rw [assigned_cond]
      exact List.Subset.trans (assigned_subset_of_mem_armBlocks harm) (List.subset_append_left _ _)
  | cond info arms (some body), h => by
    simp only [blocks, List.mem_cons, List.mem_append] at h
    rcases h with rfl | harm | hlast
    · exact List.Subset.refl _
    · rw [assigned_cond]
      exact List.Subset.trans (assigned_subset_of_mem_armBlocks harm) (List.subset_append_left _ _)
    · rw [assigned_cond]
      exact List.Subset.trans (assigned_subset_of_mem_blocksOf hlast)
        (List.subset_append_right _ _)
  | forIn info target source body domain strategy, h => by
    simp only [blocks, List.mem_cons] at h
    rcases h with rfl | hbody
    · exact List.Subset.refl _
    · exact List.Subset.trans (assigned_subset_of_mem_blocksOf hbody)
        (List.subset_append_right _ _)
  | whileDo info condition body, h => by
    simp only [blocks, List.mem_cons] at h
    rcases h with rfl | hbody
    · exact List.Subset.refl _
    · exact assigned_subset_of_mem_blocksOf hbody

theorem assigned_subset_of_mem_armBlocks {b : FlowStmt} : ∀ {arms : List FlowArm},
    b ∈ armBlocks arms → b.assigned ⊆ armsAssigned arms
  | [], h => by cases h
  | ⟨_, body⟩ :: rest, h => by
    simp only [armBlocks, List.mem_append] at h
    rcases h with hbody | hrest
    · exact List.Subset.trans (assigned_subset_of_mem_blocksOf hbody)
        (List.subset_append_left _ _)
    · exact List.Subset.trans (assigned_subset_of_mem_armBlocks hrest)
        (List.subset_append_right _ _)

theorem assigned_subset_of_mem_blocksOf {b : FlowStmt} : ∀ {body : List FlowStmt},
    b ∈ blocksOf body → b.assigned ⊆ assignedIn body
  | [], h => by cases h
  | s :: rest, h => by
    simp only [blocksOf, List.mem_append] at h
    rcases h with hs | hrest
    · exact List.Subset.trans (assigned_subset_of_mem_blocks hs) (List.subset_append_left _ _)
    · exact List.Subset.trans (assigned_subset_of_mem_blocksOf hrest)
        (List.subset_append_right _ _)

end

end FlowStmt

/-- The judgement on a part of a run; at the rounds of a loop the live names are those that can be
read in the next round. -/
def Part.Judged : Part → Outlook → Prop
  | stmts body, p =>
    ∃ inside ended q, FlowStmt.allJudged BlockInfo.Reflects inside body p ended q
  | stmt s, p => ∃ inside ended q, s.Judged BlockInfo.Reflects inside p ended q
  | arms info ahead otherwise, p => ∃ after ends, FlowStmt.Ahead info ahead otherwise p after ends
  | rounds target body _, p => FlowStmt.Rounds target body p
  | repeats condition body, p => FlowStmt.Repeats condition body p

namespace Setting

variable {c : Setting} {x : String}

theorem unbound_of_ofEval {e : Expr} {env : Env} {s s' : Tracer × Journal}
    (h : Exec.ofEval (e.eval env) s = (.error (.error (.undefined x)), s')) :
    x ∈ e.uses ∧ ¬env.Binds x :=
  (Expr.lacks_eval e).onFirst s x s' h

/-- The name of a read that fails is live and has no value at the start of the path, and no block
that was run through and no loop around the read assigns it. -/
theorem Misses.unassigned {part : Part} {env : Env} {s : Tracer × Journal}
    {passed around : List FlowStmt} (h : c.Misses x part env s passed around) {p : Outlook}
    (hjudged : part.Judged p) (hbacked : p.Backed env) :
    x ∈ p.live ∧ ¬env.Binds x ∧ ∀ b ∈ passed ++ around, x ∉ b.assigned := by
  induction h generalizing p with
  | act hact =>
    obtain ⟨inside, ended, q, -, hlive, -⟩ := hjudged
    obtain ⟨hx, hmissing⟩ := c.lacks_act _ _ q.live _ _ x _ hact
    exact ⟨hlive hx, hmissing, fun _ hb => absurd hb List.not_mem_nil⟩
  | first _ ih =>
    obtain ⟨inside, ended, q, mid, first, second, hstmt, -⟩ := hjudged
    exact ih ⟨inside, first, mid, hstmt⟩ hbacked
  | @later n plan stmt rest passed around env env' s s' hstmt _ ih =>
    obtain ⟨inside, ended, q, mid, first, second, hs, hrest, -⟩ := hjudged
    obtain ⟨-, hnext⟩ := (completes c n).runStmt plan hs hbacked s _ s' hstmt
    obtain ⟨rfl, hmissing⟩ := hnext rfl
    obtain ⟨hlive, hunbound, hothers⟩ :=
      ih ⟨inside, second, q, hrest⟩ (hmissing.backed hs.leads hbacked)
    obtain ⟨hbefore, hunbound₀, hassigned⟩ := hmissing x hlive hunbound
    refine ⟨hbefore, hunbound₀, ?_⟩
    simp only [List.forall_mem_append] at hothers ⊢
    exact ⟨⟨fun b hb hx => hassigned (FlowStmt.assigned_subset_of_mem_blocks hb hx), hothers.1⟩,
      hothers.2⟩
  | cond _ ih =>
    obtain ⟨inside, ended, q, hcond⟩ := hjudged
    obtain ⟨ends, hahead, -⟩ := hcond.ahead
    exact ih ⟨q.live, ends, hahead⟩ hbacked
  | @condition info arm rest otherwise env s s' heval =>
    obtain ⟨after, ends, hahead⟩ := hjudged
    obtain ⟨condition, body⟩ := arm
    obtain ⟨hx, hmissing⟩ := unbound_of_ofEval heval
    exact ⟨hahead.condition_live hx, hmissing, fun _ hb => absurd hb List.not_mem_nil⟩
  | @chosen info arm rest otherwise env predicate s s' passed around _ _ _ ih =>
    obtain ⟨after, ends, hahead⟩ := hjudged
    obtain ⟨condition, body⟩ := arm
    obtain ⟨entry, ended, defined, hentry, -, hbody⟩ := hahead.branch
    obtain ⟨hlive, hrest⟩ := ih ⟨true, ended, _, hbody⟩ (hbacked.mono hentry)
    exact ⟨hentry hlive, hrest⟩
  | @skipped info arm rest otherwise env predicate s s' passed around _ _ _ ih =>
    obtain ⟨after, ends, hahead⟩ := hjudged
    obtain ⟨condition, body⟩ := arm
    obtain ⟨moreEnds, hrest, -⟩ := hahead.rest
    exact ih ⟨after, moreEnds, hrest⟩ hbacked
  | otherwise _ ih =>
    obtain ⟨after, ends, hahead⟩ := hjudged
    obtain ⟨entry, ended, defined, hentry, -, hbody⟩ := hahead.last
    obtain ⟨hlive, hrest⟩ := ih ⟨true, ended, _, hbody⟩ (hbacked.mono hentry)
    exact ⟨hentry hlive, hrest⟩
  | source heval =>
    obtain ⟨inside, ended, q, hloop⟩ := hjudged
    obtain ⟨-, hsource, -⟩ := hloop.rounds
    obtain ⟨hx, hmissing⟩ := unbound_of_ofEval heval
    exact ⟨hsource hx, hmissing, fun _ hb => absurd hb List.not_mem_nil⟩
  | forIn _ _ _ ih =>
    obtain ⟨inside, ended, q, hloop⟩ := hjudged
    obtain ⟨-, -, again, hloops, hrounds⟩ := hloop.rounds
    obtain ⟨hx, hmissing, hothers⟩ := ih hrounds (hbacked.mono hloops.again_live)
    refine ⟨hloops.again_live hx, hmissing, ?_⟩
    simp only [List.forall_mem_append, List.forall_mem_cons] at hothers ⊢
    exact ⟨hothers.1, hloops.notMem_assigned hbacked (.inr hx) hmissing, hothers.2⟩
  | @round target body passed around item feed feed' env env' s s' _ hassign _ ih =>
    obtain ⟨entry, head, ended, defined, hagain, -, hbody⟩ := hjudged
    have hstart : Outlook.Backed ⟨p.defined, entry.without target.names⟩ env := hagain ▸ hbacked
    obtain ⟨hgrows, htarget⟩ := target.delivers_assign item env s env' s' hassign
    obtain ⟨hx, hmissing, hothers⟩ :=
      ih ⟨true, ended, _, hbody⟩ (FlowStmt.backed_round hstart hgrows htarget)
    refine ⟨?_, fun hbinds => hmissing (hgrows x hbinds), hothers⟩
    rw [hagain]
    exact Names.mem_without.mpr ⟨hx, fun hname => hmissing (htarget x hname)⟩
  | @nextRound n plan target body passed around item feed feed' env env' env'' s s' s'' _ hassign
      hbody _ ih =>
    obtain ⟨entry, head, ended, defined, hagain, hhead, hround⟩ := id hjudged
    have hstart : Outlook.Backed ⟨p.defined, entry.without target.names⟩ env := hagain ▸ hbacked
    obtain ⟨hgrows, htarget⟩ := target.delivers_assign item env s env' s' hassign
    have hgrows' : env'.Grows env'' := (growing c n).runBody plan body env' s' env'' s'' hbody
    obtain ⟨-, hthrough⟩ := (completes c n).runBody plan hround
      (FlowStmt.backed_round hstart hgrows htarget) s' env'' s'' hbody
    obtain ⟨hx, hmissing, hothers⟩ := ih hjudged (hbacked.grows (hgrows.trans hgrows'))
    obtain ⟨-, hmissing', hassigned⟩ := hthrough x (hhead hx) hmissing
    refine ⟨hx, fun hbinds => hmissing' (hgrows x hbinds), ?_⟩
    simp only [List.forall_mem_append] at hothers ⊢
    exact ⟨⟨fun b hb hx => hassigned (FlowStmt.assigned_subset_of_mem_blocksOf hb hx), hothers.1⟩,
      hothers.2⟩
  | whileDo _ ih =>
    obtain ⟨inside, ended, q, hloop⟩ := hjudged
    obtain ⟨-, again, hloops, hrepeats⟩ := hloop.repeats
    obtain ⟨hx, hmissing, hothers⟩ := ih hrepeats (hbacked.mono hloops.again_live)
    refine ⟨hloops.again_live hx, hmissing, ?_⟩
    simp only [List.forall_mem_append, List.forall_mem_cons] at hothers ⊢
    exact ⟨hothers.1, hloops.notMem_assigned hbacked (.inr hx) hmissing, hothers.2⟩
  | test heval =>
    obtain ⟨entry, head, ended, defined, hagain, -, -⟩ := hjudged
    obtain ⟨hx, hmissing⟩ := unbound_of_ofEval heval
    refine ⟨?_, hmissing, fun _ hb => absurd hb List.not_mem_nil⟩
    rw [hagain]
    exact Names.mem_union.mpr (.inr hx)
  | inside _ _ _ ih =>
    obtain ⟨entry, head, ended, defined, hagain, -, hbody⟩ := hjudged
    have hentry : entry ⊆ p.live := fun y hy => hagain ▸ Names.mem_union.mpr (.inl hy)
    obtain ⟨hx, hrest⟩ := ih ⟨true, ended, _, hbody⟩ (hbacked.mono hentry)
    exact ⟨hentry hx, hrest⟩
  | @again n plan condition body passed around env env' predicate s s' s'' _ _ hbody _ ih =>
    obtain ⟨entry, head, ended, defined, hagain, hhead, hround⟩ := id hjudged
    have hentry : entry ⊆ p.live := fun y hy => hagain ▸ Names.mem_union.mpr (.inl hy)
    have hgrows : env.Grows env' := (growing c n).runBody plan body env s' env' s'' hbody
    obtain ⟨-, hthrough⟩ :=
      (completes c n).runBody plan hround (hbacked.mono hentry) s' env' s'' hbody
    obtain ⟨hx, hmissing, hothers⟩ := ih hjudged (hbacked.grows hgrows)
    obtain ⟨-, hmissing', hassigned⟩ := hthrough x (hhead hx) hmissing
    refine ⟨hx, hmissing', ?_⟩
    simp only [List.forall_mem_append] at hothers ⊢
    exact ⟨⟨fun b hb hx => hassigned (FlowStmt.assigned_subset_of_mem_blocksOf hb hx), hothers.1⟩,
      hothers.2⟩

/-- If a call of a converted function on the host fails for want of a value of `x`, then there is a
path to the read, and on such a path no block that was run through and no loop around the read
assigns `x`: a name that is assigned on some of the ways to a read only does not get past the
conversion. -/
theorem unassigned_of_undefined {f : FunctionDef} {options : Options}
    (hconvert : (f.convert options).result = .ok c.function) (hmode : c.mode = .eager) {fuel : Nat}
    {plan : Option FaultPlan} {args : List Value} {s s' : Tracer × Journal}
    (h : c.call fuel plan args s = (.error (.error (.undefined x)), s')) :
    let env := Bindings.insertAll [] (c.function.params.map Param.name) args
    (∃ passed around, c.Misses x (.stmts c.function.body) env s passed around) ∧
      ∀ passed around, c.Misses x (.stmts c.function.body) env s passed around →
        ∀ b ∈ passed ++ around, x ∉ b.modified := by
  intro env
  obtain ⟨live, ended, defined, hjudged⟩ := FunctionDef.convert_judged hconvert
  by_cases hlen : args.length = (c.function.params.map Param.name).length
  swap
  · simp only [call, if_neg hlen] at h
    cases h
  refine ⟨?_, fun passed around hmisses b hb hx => ?_⟩
  · simp only [call, if_pos hlen] at h
    rcases bind_eq_error h with hrun | ⟨⟨exit, env₁⟩, s₁, -, hresult⟩
    · exact (located hmode fuel).run hrun
    · cases exit <;> cases hresult
  · have hbacked := Outlook.backed_params hlen live
    exact (hmisses.unassigned ⟨false, ended, _, hjudged⟩ hbacked).2.2 b hb (Names.mem_ofList.mp hx)

/-! A loop that reads a name which nothing assigns, after a conditional that was run through. -/

def stray : FunctionDef :=
  ⟨"stray", [⟨"x", none⟩],
    [.choose
        [⟨.binary .lt (.var "x") (.literal (.int 3)),
          [.act (.assign (.name "y") (.literal (.int 1))) .unknown], .unknown⟩]
        (some [.act (.assign (.name "y") (.literal (.int 2))) .unknown]) .unknown,
      .whileDo (.binary .lt (.var "x") (.literal (.int 9)))
        [.act (.update "x" .add (.var "y")) .unknown,
          .act (.assign (.name "y") (.var "z")) .unknown] .unknown,
      .act (.ret (some (.var "x"))) .unknown], none, none, .unknown⟩

/-- The name for want of which a step failed. -/
def missed? {α : Type} : Except (Halt RunError) α → Option String
  | .error (.error (.undefined x)) => some x
  | _ => none

theorem eq_of_missed? {α : Type} {r : Except (Halt RunError) α} {x : String}
    (h : missed? r = some x) : r = .error (.error (.undefined x)) := by
  unfold missed? at h
  split at h
  · cases h
    rfl
  · cases h

theorem unassigned_of_undefined_stray :
    ∃ g, (stray.convert {}).result = .ok g ∧
      let c : Setting := ⟨g, {}, .eager⟩
      let s : Tracer × Journal := (Tracer.start false, {})
      (∃ s', c.call 20 none [.int 1] s = (.error (.error (.undefined "z")), s')) ∧
      (∃ passed around, c.Misses "z" (.stmts g.body)
        (Bindings.insertAll [] (g.params.map Param.name) [.int 1]) s passed around) ∧
      ∀ passed around, c.Misses "z" (.stmts g.body)
        (Bindings.insertAll [] (g.params.map Param.name) [.int 1]) s passed around →
          ∀ b ∈ passed ++ around, "z" ∉ b.modified := by
  have hmissed : (stray.convert {}).result.toOption.bind (fun g =>
      missed? ((⟨g, {}, .eager⟩ : Setting).call 20 none [.int 1] (Tracer.start false, {})).1) =
        some "z" := by decide +kernel
  rcases hresult : (stray.convert {}).result with e | g
  · rw [hresult] at hmissed
    cases hmissed
  · rw [hresult] at hmissed
    refine ⟨g, rfl, ?_⟩
    have hcall : (⟨g, {}, .eager⟩ : Setting).call 20 none [.int 1] (Tracer.start false, {}) =
        (.error (.error (.undefined "z")), _) := Prod.ext (eq_of_missed? hmissed) rfl
    exact ⟨⟨_, hcall⟩,
      unassigned_of_undefined (c := ⟨g, {}, .eager⟩) hresult rfl hcall⟩

end Setting

end StagedFlow
