import StagedFlow.Proofs.ProperNodes
import StagedFlow.Proofs.Tracing

/-!
Runs on well-formed values record proper nodes only. Expressions, assignments and the items of a
loop lead from well-formed values to well-formed ones; the loops of the graph are those over domains
that have one, so that their steps are constants other than zero. Main definitions: `Env.Formed`,
`Setting.KeepsProper`. Main results: `Expr.upholds_eval`, `Value.makes_loopRange`,
`Setting.keepsProper`, `Workbench.proper_traceCall`.
-/
set_option autoImplicit false

namespace StagedFlow

open Tracer

/-! ## Environments -/

/-- All values of the environment are well-formed. -/
def Env.Formed (env : Env) : Prop :=
  ∀ name v, Bindings.find? env name = some v → v.Formed

namespace Env

variable {env : Env}

theorem Formed.insert {v : Value} (h : env.Formed) (hv : v.Formed) (name : String) :
    Formed (Bindings.insert env name v) :=
  Bindings.forall_find?_insert h hv name

theorem Formed.insertAll {names : List String} {values : List Value} (h : env.Formed)
    (hvalues : ∀ v ∈ values, v.Formed) : Formed (Bindings.insertAll env names values) :=
  Bindings.forall_find?_insertAll h hvalues

theorem Formed.makes_lookup (h : env.Formed) (name : String) :
    Makes (env.lookup name) Value.Formed :=
  fun v hv => h name v (lookup_eq_ok hv)

theorem Formed.makes_collect (h : env.Formed) (names : List String) :
    Makes (env.collect names) fun values => ∀ v ∈ values, v.Formed :=
  fun _ hvalues => forall_collect h hvalues

end Env

/-! ## Functions -/

namespace Eval

variable {α : Type} {I : Tracer → Prop} {Q : α → Prop}

theorem upholds_ofExcept {x : Except RunError α} (h : Makes x Q) :
    (Eval.ofExcept x).Upholds I Q := by
  cases x with
  | ok a => exact .done (h a rfl)
  | error e => exact .fail

theorem upholds_ofFault {x : Except Fault α} (h : Makes x Q) : (Eval.ofFault x).Upholds I Q :=
  .mapError (.ofFault h)

theorem upholds_ofOutcome {x : Outcome α} (h : Makes x Q) : (Eval.ofOutcome x).Upholds I Q :=
  .mapError (.ofExcept h)

theorem upholds_apply {op : Op} {args : List Value} (hargs : ∀ v ∈ args, v.Formed)
    (hnot : op = .logical .not → args.length = 1) :
    (Eval.apply op args).Upholds Proper Value.Formed :=
  .mapError (Tracer.upholds_apply hargs hnot)

end Eval

namespace Builtin

theorem upholds_convertTo (elem : ElemType) {v : Value} (hv : v.Formed) :
    (convertTo elem v).Upholds Proper Value.Formed := by
  unfold convertTo
  split
  · exact Tracer.upholds_apply (by simpa using hv) fun h => by cases h
  · exact .ofExcept (Value.makes_convert elem v)

theorem upholds_call (f : Builtin) {args : List Value} (hargs : ∀ v ∈ args, v.Formed) :
    (f.call args).Upholds Proper Value.Formed := by
  have hhead : (args.headD .none).Formed := by
    cases args with
    | nil => exact .none
    | cons v vs => exact hargs v (by simp)
  unfold call
  split
  · cases f with
    | range =>
      refine .ofFault (makes_bind (makes_mapM _ fun v hv => makes_rangeBound (hargs v hv)) ?_)
      exact fun bounds hbounds => makes_makeRange hbounds
    | enumerate =>
      refine .ofFault ?_
      split
      · exact makes_map fun start _ => .enumerate start hhead
      · exact makes_ok (.enumerate 0 hhead)
    | len => exact .ofFault (makes_map fun _ _ => .scalar _)
    | int => exact upholds_convertTo .int hhead
    | float => exact upholds_convertTo .float hhead
    | array => exact .ofExcept (makes_makeArray hhead)
    | kron => exact Tracer.upholds_apply hargs fun h => by cases h
    | items => exact .ofFault (makes_dictItems hhead)
  · exact .fail

end Builtin

/-! ## Expressions -/

namespace Expr

/-- `and` and `or` never record a negation. -/
theorem upholds_evalLogical {op : LogicalOp} (hop : op ≠ .not) {left : Value} {right : Eval Value}
    (hleft : left.Formed) (hright : right.Upholds Proper Value.Formed) :
    (evalLogical op left right).Upholds Proper Value.Formed := by
  unfold evalLogical
  split
  · refine hright.bind fun w hw => ?_
    split
    · refine Eval.upholds_apply (Value.formed_pair (.traced _ _) hw) fun h => ?_
      exact absurd (Op.logical.inj h) hop
    · exact .fail
  · refine (Eval.upholds_ofFault (makes_any _)).bind fun truth _ => ?_
    split
    · exact .pure hleft
    · exact hright

theorem upholds_evalNot {v : Value} (hv : v.Formed) :
    (evalNot v).Upholds Proper Value.Formed := by
  unfold evalNot
  split
  · exact Eval.upholds_apply (by simpa using hv) fun _ => rfl
  · exact (Eval.upholds_ofFault (makes_any _)).bind fun _ _ => .pure (.scalar _)

theorem upholds_evalIndex {base i : Value} (hbase : base.Formed) (hi : i.Formed) :
    (evalIndex base i).Upholds Proper Value.Formed := by
  unfold evalIndex
  split
  · exact Eval.upholds_apply (Value.formed_pair hbase hi) fun h => by cases h
  · exact .mapError (.ofExcept (Value.makes_index hbase i))

mutual

/-- An expression has a well-formed value if the environment is well-formed. -/
theorem upholds_eval {env : Env} (henv : env.Formed) : ∀ e : Expr,
    (e.eval env).Upholds Proper Value.Formed
  | literal l => by
    refine .done ?_
    cases l <;> constructor
  | var name => by
    exact Eval.upholds_ofExcept (henv.makes_lookup name)
  | binary op left right => by
    refine (upholds_eval henv left).bind fun a ha => ?_
    refine (upholds_eval henv right).bind fun b hb => ?_
    exact Eval.upholds_apply (Value.formed_pair ha hb) fun h => by cases h
  | neg operand => by
    refine (upholds_eval henv operand).bind fun a ha => ?_
    exact Eval.upholds_apply (by simpa using ha) fun h => by cases h
  | and left right => by
    refine (upholds_eval henv left).bind fun a ha => ?_
    exact upholds_evalLogical (by decide) ha (upholds_eval henv right)
  | or left right => by
    refine (upholds_eval henv left).bind fun a ha => ?_
    exact upholds_evalLogical (by decide) ha (upholds_eval henv right)
  | not operand => by
    exact (upholds_eval henv operand).bind fun a ha => upholds_evalNot ha
  | list items => by
    exact (upholds_evalAll henv items).bind fun vs hvs => .pure (.list hvs)
  | tuple items => by
    exact (upholds_evalAll henv items).bind fun vs hvs => .pure (.tuple hvs)
  | dict entries => by
    refine (upholds_evalEntries henv entries).bind fun es hes => .pure ?_
    exact .dict (fun e he => (hes e he).1) fun e he => (hes e he).2
  | index base i => by
    refine (upholds_eval henv base).bind fun a ha => ?_
    exact (upholds_eval henv i).bind fun b hb => upholds_evalIndex ha hb
  | call function args => by
    exact (upholds_evalAll henv args).bind fun vs hvs => .mapError (function.upholds_call hvs)

theorem upholds_evalAll {env : Env} (henv : env.Formed) : ∀ es : List Expr,
    (evalAll env es).Upholds Proper fun vs => ∀ v ∈ vs, v.Formed
  | [] => .pure fun v hv => by cases hv
  | e :: rest => by
    refine (upholds_eval henv e).bind fun a ha => ?_
    refine (upholds_evalAll henv rest).bind fun vs hvs => .pure fun v hv => ?_
    rcases List.mem_cons.mp hv with rfl | hv
    · exact ha
    · exact hvs v hv

theorem upholds_evalEntries {env : Env} (henv : env.Formed) : ∀ es : List (Expr × Expr),
    (evalEntries env es).Upholds Proper fun vs => ∀ e ∈ vs, e.1.Formed ∧ e.2.Formed
  | [] => .pure fun e he => by cases he
  | (k, v) :: rest => by
    refine (upholds_eval henv k).bind fun a ha => ?_
    refine (upholds_eval henv v).bind fun b hb => ?_
    refine (upholds_evalEntries henv rest).bind fun es hes => .pure fun e he => ?_
    rcases List.mem_cons.mp he with rfl | he
    · exact ⟨ha, hb⟩
    · exact hes e he

end

end Expr

/-! ## Assignment -/

theorem Tracer.upholds_applyEach {v : Value} (hv : v.Formed) (indices : List Nat) :
    (indices.mapM fun i => Tracer.apply .index [v, .int (Int64.ofNat i)]).Upholds Proper
      fun items => ∀ w ∈ items, w.Formed :=
  .mapM indices fun _ _ =>
    Tracer.upholds_apply (Value.formed_pair hv (.scalar _)) fun h => by cases h

theorem Value.upholds_split {v : Value} (hv : v.Formed) (arity : Nat) :
    (v.split arity).Upholds Proper fun items => ∀ w ∈ items, w.Formed := by
  cases hv with
  | list hitems =>
    unfold split
    simp only
    split
    · exact .done hitems
    · exact .fail
  | tuple hitems =>
    unfold split
    simp only
    split
    · exact .done hitems
    · exact .fail
  | array hform =>
    unfold split
    simp only
    split
    · exact .fail
    split
    · exact Tracer.upholds_applyEach (.array hform) _
    · exact .fail
  | traced id type =>
    unfold split
    simp only
    split
    · split
      · exact Tracer.upholds_applyEach (.traced id type) _
      · exact .fail
    · exact .fail
  | _ => exact .fail

namespace Target

mutual

theorem upholds_assign : ∀ (target : Target) {v : Value} {env : Env}, v.Formed → env.Formed →
    (target.assign v env).Upholds Proper Env.Formed
  | name n, v, env, hv, henv => .pure (henv.insert hv n)
  | tuple items, v, env, hv, henv => by
    exact (Value.upholds_split hv items.length).bind fun parts hparts =>
      upholds_assignAll items hparts henv

theorem upholds_assignAll : ∀ (targets : List Target) {vs : List Value} {env : Env},
    (∀ v ∈ vs, v.Formed) → env.Formed → (assignAll targets vs env).Upholds Proper Env.Formed
  | target :: targets, v :: vs, env, hvs, henv => by
    refine (upholds_assign target (hvs v (by simp)) henv).bind fun env' henv' => ?_
    exact upholds_assignAll targets (fun w hw => hvs w (by simp [hw])) henv'
  | [], _, _, _, henv => by
    unfold assignAll
    exact .pure henv
  | _ :: _, [], _, _, henv => .pure henv

end

end Target

/-! ## The items of a loop -/

theorem Value.upholds_hostItems {v : Value} (hv : v.Formed) :
    v.hostItems.Upholds Proper fun items => ∀ w ∈ items, w.Formed := by
  induction hv with
  | enumerate start _ ih =>
    rw [hostItems]
    exact ih.bind fun items hitems => .ofExcept (makes_numbered start hitems)
  | range _ _ _ =>
    rw [hostItems]
    split
    · split
      · exact .fail
      · refine .ofExcept fun items hitems w hw => ?_
        rw [Counting.items_eq_ok hitems] at hw
        obtain ⟨n, -, rfl⟩ := List.mem_map.mp hw
        exact .scalar _
    · exact .fail
  | array hform =>
    rw [hostItems]
    split
    · exact .fail
    · exact .ofExcept (NDArray.makes_rows hform)
  | traced id type =>
    rw [hostItems]
    split
    · exact Tracer.upholds_applyEach (.traced id type) _
    · exact .fail
  | list hitems => exact .done hitems
  | tuple hitems => exact .done hitems
  | dict hkeys _ =>
    refine .done fun w hw => ?_
    obtain ⟨e, he, rfl⟩ := List.mem_map.mp hw
    exact hkeys e he
  | str s =>
    refine .done fun w hw => ?_
    obtain ⟨c, -, rfl⟩ := List.mem_map.mp hw
    exact .str _
  | _ => exact .fail

theorem Feed.upholds_of {v : Value} (hv : v.Formed) : (Feed.of v).Upholds Proper Feed.Formed := by
  have hitems : (Feed.items <$> v.hostItems).Upholds Proper Feed.Formed :=
    .map (Value.upholds_hostItems hv)
  unfold Feed.of
  split
  · split
    · exact hitems
    · exact .done trivial
  · exact hitems

theorem Elements.upholds_element {i : Value} (hi : i.Formed) : ∀ elements : Elements,
    elements.Formed → (elements.element i).Upholds Proper Value.Formed
  | index, _ => .pure hi
  | counted start step, _ => by
    have hscaled : (Tracer.apply (.binary .mul) [i, .int step]).Upholds Proper Value.Formed :=
      Tracer.upholds_apply (Value.formed_pair hi (.scalar _)) fun h => by cases h
    refine hscaled.bind fun scaled hscaled => ?_
    exact Tracer.upholds_apply (Value.formed_pair (.scalar _) hscaled) fun h => by cases h
  | rows array, h =>
    Tracer.upholds_apply (Value.formed_pair h hi) fun h => by cases h
  | numbered inner first, h => by
    have hnumber : (Tracer.apply (.binary .add) [i, .int first]).Upholds Proper Value.Formed :=
      Tracer.upholds_apply (Value.formed_pair hi (.scalar _)) fun h => by cases h
    refine hnumber.bind fun number hnumber => ?_
    refine (upholds_element hi inner h).bind fun item hitem => .pure ?_
    exact .tuple (Value.formed_pair hnumber hitem)

/-- A range of constants with a step other than zero. -/
def Tracer.LoopRange.Steps (range : LoopRange) : Prop :=
  ∃ start stop step : Int64, step ≠ 0 ∧ range = ⟨.int start, .int stop, .int step⟩

theorem Value.makes_loopRange {v : Value} {target : Target} {domain : Domain} (hv : v.Formed)
    (hdomain : Domain.classify v target = .ok domain) (hconvertible : domain.kind.isConvertible) :
    Makes v.loopRange fun r => r.1.Steps ∧ r.2.Formed := by
  rw [loopRange_eq]
  split
  · next c hc =>
    refine makes_ok ⟨⟨c.start, c.stop, c.step, fun hzero => ?_, rfl⟩, trivial⟩
    cases v with
    | range start stop step =>
      obtain ⟨d, hd, rfl⟩ := Domain.classify_eq_ok hdomain
      obtain rfl := Except.ok.inj hd
      simp [Domain.forTarget, Domain.ofRange, hc, hzero, Domain.foreign, Domain.plain,
        DomainKind.isConvertible] at hconvertible
    | _ => cases hc
  · refine makes_map fun r hr => ⟨⟨0, _, 1, by decide, rfl⟩, ?_⟩
    exact makes_elements hv r hr

/-! ## Steps of a run -/

/-- What is returned is well-formed. -/
def Exit.Formed : Exit → Prop
  | next => True
  | ret v => v.Formed

namespace Exec

variable {α : Type} {Q : α → Prop}

theorem tidy_ofEval {x : Eval α} (h : x.Upholds Proper Q) : Tidy (Exec.ofEval x) Q :=
  .onFirst h

theorem tidy_ofTracer {x : Step Tracer Fault α} (h : x.Upholds Proper Q) :
    Tidy (Exec.ofTracer x) Q :=
  .onFirst h.mapError

theorem tidy_ofExcept {x : Except RunError α} (h : Makes x Q) : Tidy (Exec.ofExcept x) Q :=
  tidy_ofEval (Eval.upholds_ofExcept h)

theorem tidy_mark : Tidy Exec.mark fun _ => True :=
  fun _ hs => ⟨hs, trivial⟩

end Exec

namespace Setting

section Steps

variable {c : Setting} {env : Env} {info : BlockInfo}

theorem tidy_entering (henv : env.Formed) :
    Tidy (c.entering info env) fun init => ∀ v ∈ init, v.Formed := by
  refine (Exec.tidy_ofExcept (henv.makes_collect _)).bind fun init hinit => ?_
  exact (Exec.tidy_ofExcept (makes_any _)).bind fun _ _ => .pure hinit

theorem tidy_leaving {init : List Value} {outputs : List String} (henv : env.Formed) :
    Tidy (c.leaving info init outputs env) fun values => ∀ v ∈ values, v.Formed := by
  refine (Exec.tidy_ofExcept (henv.makes_collect _)).bind fun values hvalues => ?_
  exact (Exec.tidy_ofExcept (makes_any _)).bind fun _ _ => .pure hvalues

theorem tidy_act (span : Span) (action : Action) (henv : env.Formed) :
    Tidy (c.act span env action) fun r => r.1.Formed ∧ r.2.Formed := by
  cases action with
  | assign target value =>
    refine (Exec.tidy_ofEval (Expr.upholds_eval henv value)).bind fun v hv => ?_
    refine (Exec.tidy_ofTracer (target.upholds_assign hv henv)).bind fun env' henv' => ?_
    exact .pure ⟨trivial, henv'⟩
  | update name op value =>
    refine (Exec.tidy_ofExcept (henv.makes_lookup name)).bind fun current hcurrent => ?_
    refine (Exec.tidy_ofEval (Expr.upholds_eval henv value)).bind fun v hv => ?_
    have hresult : (Tracer.apply (.binary op) [current, v]).Upholds Proper Value.Formed :=
      Tracer.upholds_apply (Value.formed_pair hcurrent hv) fun h => by cases h
    refine (Exec.tidy_ofTracer hresult).bind fun result hresult => ?_
    exact .pure ⟨trivial, henv.insert hresult name⟩
  | eval expr =>
    refine (Exec.tidy_ofEval (Expr.upholds_eval henv expr)).bind fun _ _ => ?_
    exact .pure ⟨trivial, henv⟩
  | ret value =>
    cases value with
    | none => exact .pure ⟨.none, henv⟩
    | some value =>
      refine (Exec.tidy_ofEval (Expr.upholds_eval henv value)).bind fun v hv => ?_
      exact .pure ⟨hv, henv⟩
  | raise message => exact .fail
  | pass => exact .pure ⟨trivial, henv⟩

/-- A block that is attempted, and run by the host if that fails. -/
theorem tidy_attempted {names : List String}
    {call : List Value → Traced Journal (Failure RunError) (List Value)} {host : Exec Env}
    (henv : env.Formed)
    (hcall : ∀ init, (∀ v ∈ init, v.Formed) → Tidy (call init) fun vs => ∀ v ∈ vs, v.Formed)
    (hhost : Tidy host Env.Formed) :
    Tidy (do
      let init ← c.entering info env
      c.tried info (call init) (Bindings.insertAll env names) host) Env.Formed := by
  refine (tidy_entering henv).bind fun init hinit => ?_
  refine Exec.tidy_mark.bind fun mark _ => ?_
  refine (info.tidy_attempt c.options.strict (hcall init hinit)).bind ?_
  rintro (values | d) hresult
  · exact .pure (henv.insertAll (hresult values rfl))
  · exact Step.Upholds.bind (.modify fun _ hs => hs) fun _ _ => hhost

end Steps

/-! ## Runs -/

/-- With this much fuel, all parts of a run keep to proper nodes. -/
structure KeepsProper (c : Setting) (n : Nat) : Prop where
  run : ∀ plan body {env : Env}, env.Formed →
    Tidy (c.run n plan body env) fun r => r.1.Formed ∧ r.2.Formed
  runStmt : ∀ plan stmt {env : Env}, env.Formed →
    Tidy (c.runStmt n plan stmt env) fun r => r.1.Formed ∧ r.2.Formed
  runBody : ∀ plan body {env : Env}, env.Formed → Tidy (c.runBody n plan body env) Env.Formed
  runArms : ∀ plan info arms otherwise {env : Env}, env.Formed →
    Tidy (c.runArms n plan info arms otherwise env) Env.Formed
  chooseArm : ∀ plan info arm rest otherwise predicate {env : Env}, env.Formed →
    Tidy (c.chooseArm n plan info arm rest otherwise predicate env) Env.Formed
  runFor : ∀ plan info target source body strategy {env : Env}, env.Formed →
    Tidy (c.runFor n plan info target source body strategy env) Env.Formed
  hostFor : ∀ plan target body {items : Value} {env : Env}, items.Formed → env.Formed →
    Tidy (c.hostFor n plan target body items env) Env.Formed
  hostEach : ∀ plan target body {feed : Feed} {env : Env}, feed.Formed → env.Formed →
    Tidy (c.hostEach n plan target body feed env) Env.Formed
  runWhile : ∀ plan info condition body {env : Env}, env.Formed →
    Tidy (c.runWhile n plan info condition body env) Env.Formed
  hostWhile : ∀ plan condition body {env : Env}, env.Formed →
    Tidy (c.hostWhile n plan condition body env) Env.Formed

section Runs

variable {c : Setting} {n : Nat}

theorem keepsProper_zero : c.KeepsProper 0 where
  run := fun _ _ _ _ => by
    rw [Setting.run]
    exact .halt
  runStmt := fun _ _ _ _ => by
    rw [Setting.runStmt]
    exact .halt
  runBody := fun _ _ _ _ => by
    rw [Setting.runBody]
    exact .halt
  runArms := fun _ _ _ _ _ _ => by
    rw [Setting.runArms]
    exact .halt
  chooseArm := fun _ _ _ _ _ _ _ _ => by
    rw [Setting.chooseArm]
    exact .halt
  runFor := fun _ _ _ _ _ _ _ _ => by
    rw [Setting.runFor]
    exact .halt
  hostFor := fun _ _ _ _ _ _ _ => by
    rw [Setting.hostFor]
    exact .halt
  hostEach := fun _ _ _ _ _ _ _ => by
    rw [Setting.hostEach]
    exact .halt
  runWhile := fun _ _ _ _ _ _ => by
    rw [Setting.runWhile]
    exact .halt
  hostWhile := fun _ _ _ _ _ => by
    rw [Setting.hostWhile]
    exact .halt

section Parts

variable {env : Env} (ih : c.KeepsProper n) (plan : Option FaultPlan) (henv : env.Formed)

include henv in
/-- A part of a block as a callback. -/
theorem tidyBody_part {info : BlockInfo} {init : List Value} {outputs : List String}
    {part : Env → Exec Env} (hpart : ∀ {env : Env}, env.Formed → Tidy (part env) Env.Formed) :
    TidyBody (fun args => do
      let env ← part (Bindings.insertAll env info.inputs args)
      c.leaving info init outputs env) :=
  fun _ hargs => (hpart (henv.insertAll hargs)).bind fun _ henv' => tidy_leaving henv'

include ih henv

theorem tidy_condCall (info : BlockInfo) (arm : FlowArm) (rest : List FlowArm)
    (otherwise : Option (List FlowStmt)) {predicate : Value} {init : List Value}
    (hpredicate : predicate.Formed) (hinit : ∀ v ∈ init, v.Formed) :
    Tidy (c.condCall n plan info arm rest otherwise predicate env init)
      fun vs => ∀ v ∈ vs, v.Formed := by
  refine FaultPlan.tidy_intercept plan .cond (tidy_cond hpredicate hinit ?_ ?_)
  · exact tidyBody_part henv (ih.runBody none arm.body)
  · exact tidyBody_part henv (ih.runArms none info rest otherwise)

theorem tidy_whileCall (info : BlockInfo) (condition : Expr) (body : List FlowStmt)
    {init : List Value} (hinit : ∀ v ∈ init, v.Formed) :
    Tidy (c.whileCall n plan info condition body env init) fun vs => ∀ v ∈ vs, v.Formed := by
  refine FaultPlan.tidy_intercept plan .whileLoop (tidy_whileLoop hinit (fun args hargs => ?_) ?_)
  · refine (Exec.tidy_ofEval (Expr.upholds_eval (henv.insertAll hargs) condition)).bind ?_
    exact fun v hv => .pure (by simpa using hv)
  · exact tidyBody_part henv (ih.runBody none body)

theorem tidy_forCall (info : BlockInfo) (target : Target) (body : List FlowStmt)
    {range : LoopRange} {elements : Elements} {init : List Value} (hrange : range.Steps)
    (helements : elements.Formed) (hinit : ∀ v ∈ init, v.Formed) :
    Tidy (c.forCall n plan info target body range elements env init)
      fun vs => ∀ v ∈ vs, v.Formed := by
  obtain ⟨start, stop, step, hstep, rfl⟩ := hrange
  refine FaultPlan.tidy_intercept plan .forLoop
    (tidy_forLoop (.scalar _) (.scalar _) hstep hinit ?_)
  have hround : ∀ index carried, index.Formed → (∀ v ∈ carried, v.Formed) →
      Tidy (do
        let item ← Exec.ofTracer (elements.element index)
        let env ← Exec.ofTracer (target.assign item (Bindings.insertAll env info.inputs carried))
        let env ← c.runBody n none body env
        c.leaving info init info.inputs env) fun vs => ∀ v ∈ vs, v.Formed := by
    intro index carried hindex hcarried
    refine (Exec.tidy_ofTracer (Elements.upholds_element hindex _ helements)).bind
      fun item hitem => ?_
    refine (Exec.tidy_ofTracer (target.upholds_assign hitem (henv.insertAll hcarried))).bind
      fun env' henv' => ?_
    exact (ih.runBody none body henv').bind fun _ henv'' => tidy_leaving henv''
  intro args hargs
  cases args with
  | nil => exact hround (.int 0) [] (.scalar _) hargs
  | cons index carried =>
    exact hround index carried (hargs index (by simp)) fun v hv => hargs v (by simp [hv])

/-! One lemma for each part of a run with one more unit of fuel. -/

theorem keepsProper_run (body : List FlowStmt) :
    Tidy (c.run (n + 1) plan body env) fun r => r.1.Formed ∧ r.2.Formed := by
  cases body with
  | nil =>
    rw [Setting.run]
    exact .pure ⟨trivial, henv⟩
  | cons stmt rest =>
    rw [Setting.run]
    refine (ih.runStmt plan stmt henv).bind ?_
    rintro ⟨exit, env'⟩ hr
    cases exit with
    | ret v => exact .pure hr
    | next => exact ih.run plan rest hr.2

theorem keepsProper_runStmt (stmt : FlowStmt) :
    Tidy (c.runStmt (n + 1) plan stmt env) fun r => r.1.Formed ∧ r.2.Formed := by
  cases stmt with
  | act action span =>
    rw [Setting.runStmt]
    exact tidy_act span action henv
  | cond info arms otherwise =>
    rw [Setting.runStmt]
    exact (ih.runArms plan info arms otherwise henv).bind fun _ henv' => .pure ⟨trivial, henv'⟩
  | forIn info target source body _ strategy =>
    rw [Setting.runStmt]
    exact (ih.runFor plan info target source body strategy henv).bind fun _ henv' =>
      .pure ⟨trivial, henv'⟩
  | whileDo info condition body =>
    rw [Setting.runStmt]
    exact (ih.runWhile plan info condition body henv).bind fun _ henv' => .pure ⟨trivial, henv'⟩

theorem keepsProper_runArms (info : BlockInfo) (arms : List FlowArm)
    (otherwise : Option (List FlowStmt)) :
    Tidy (c.runArms (n + 1) plan info arms otherwise env) Env.Formed := by
  cases arms with
  | nil =>
    cases otherwise with
    | none =>
      rw [Setting.runArms]
      exact .pure henv
    | some body =>
      rw [Setting.runArms]
      exact ih.runBody plan body henv
  | cons arm rest =>
    rw [runArms_cons]
    refine (Exec.tidy_ofEval (Expr.upholds_eval henv arm.condition)).bind
      fun predicate hpredicate => ?_
    have hhost := ih.chooseArm plan info arm rest otherwise predicate henv
    split
    · exact hhost
    · refine tidy_attempted henv (fun init hinit => ?_) hhost
      exact tidy_condCall ih plan henv info arm rest otherwise hpredicate hinit

theorem keepsProper_chooseArm (info : BlockInfo) (arm : FlowArm) (rest : List FlowArm)
    (otherwise : Option (List FlowStmt)) (predicate : Value) :
    Tidy (c.chooseArm (n + 1) plan info arm rest otherwise predicate env) Env.Formed := by
  rw [Setting.chooseArm]
  refine (Exec.tidy_ofEval (Eval.upholds_ofFault (makes_any _))).bind fun truth _ => ?_
  split
  · exact ih.runBody plan arm.body henv
  · exact ih.runArms plan info rest otherwise henv

theorem keepsProper_runFor (info : BlockInfo) (target : Target) (source : Expr)
    (body : List FlowStmt) (strategy : Strategy) :
    Tidy (c.runFor (n + 1) plan info target source body strategy env) Env.Formed := by
  rw [runFor_succ]
  refine (Exec.tidy_ofEval (Expr.upholds_eval henv source)).bind fun items hitems => ?_
  have hhost := ih.hostFor plan target body hitems henv
  split
  · exact hhost
  refine (Exec.tidy_ofEval (Eval.upholds_ofOutcome fun d hd => hd)).bind fun domain hdomain => ?_
  split
  · next hconvertible =>
    have hloop := Value.makes_loopRange hitems hdomain hconvertible
    refine (Exec.tidy_ofEval (Eval.upholds_ofOutcome hloop)).bind ?_
    rintro ⟨range, elements⟩ ⟨hrange, helements⟩
    refine tidy_attempted henv (fun init hinit => ?_) hhost
    exact tidy_forCall ih plan henv info target body hrange helements hinit
  split
  · exact .fail
  · exact Step.Upholds.bind (.modify fun _ hs => hs) fun _ _ => hhost

theorem keepsProper_hostEach (target : Target) (body : List FlowStmt) {feed : Feed}
    (hfeed : feed.Formed) :
    Tidy (c.hostEach (n + 1) plan target body feed env) Env.Formed := by
  rw [Setting.hostEach]
  split
  · exact .pure henv
  · next item feed' hnext =>
    obtain ⟨hitem, hfeed'⟩ := hfeed.next? hnext
    refine (Exec.tidy_ofTracer (target.upholds_assign hitem henv)).bind fun env₁ henv₁ => ?_
    refine (ih.runBody plan body henv₁).bind fun env₂ henv₂ => ?_
    exact ih.hostEach plan target body hfeed' henv₂

theorem keepsProper_runWhile (info : BlockInfo) (condition : Expr) (body : List FlowStmt) :
    Tidy (c.runWhile (n + 1) plan info condition body env) Env.Formed := by
  rw [runWhile_succ]
  have hhost := ih.hostWhile plan condition body henv
  split
  · exact hhost
  · exact tidy_attempted henv (fun init hinit =>
      tidy_whileCall ih plan henv info condition body hinit) hhost

theorem keepsProper_hostWhile (condition : Expr) (body : List FlowStmt) :
    Tidy (c.hostWhile (n + 1) plan condition body env) Env.Formed := by
  rw [Setting.hostWhile]
  refine (Exec.tidy_ofEval (Expr.upholds_eval henv condition)).bind fun predicate _ => ?_
  refine (Exec.tidy_ofEval (Eval.upholds_ofFault (makes_any _))).bind fun truth _ => ?_
  split
  · exact (ih.runBody plan body henv).bind fun _ henv' => ih.hostWhile plan condition body henv'
  · exact .pure henv

end Parts

theorem keepsProper_succ (ih : c.KeepsProper n) : c.KeepsProper (n + 1) where
  run := fun plan body _ henv => keepsProper_run ih plan henv body
  runStmt := fun plan stmt _ henv => keepsProper_runStmt ih plan henv stmt
  runBody := fun plan body _ henv => by
    rw [Setting.runBody]
    exact (ih.run plan body henv).bind fun _ hr => .pure hr.2
  runArms := fun plan info arms otherwise _ henv =>
    keepsProper_runArms ih plan henv info arms otherwise
  chooseArm := fun plan info arm rest otherwise predicate _ henv =>
    keepsProper_chooseArm ih plan henv info arm rest otherwise predicate
  runFor := fun plan info target source body strategy _ henv =>
    keepsProper_runFor ih plan henv info target source body strategy
  hostFor := fun plan target body _ _ hitems henv => by
    rw [Setting.hostFor]
    exact (Exec.tidy_ofTracer (Feed.upholds_of hitems)).bind fun _ hfeed =>
      ih.hostEach plan target body hfeed henv
  hostEach := fun plan target body _ _ hfeed henv =>
    keepsProper_hostEach ih plan henv target body hfeed
  runWhile := fun plan info condition body _ henv =>
    keepsProper_runWhile ih plan henv info condition body
  hostWhile := fun plan condition body _ henv => keepsProper_hostWhile ih plan henv condition body

/-- Every run keeps to proper nodes, whatever its fuel. -/
theorem keepsProper (c : Setting) (n : Nat) : c.KeepsProper n := by
  induction n with
  | zero => exact keepsProper_zero
  | succ n ih => exact keepsProper_succ ih

end Runs

theorem tidy_call (c : Setting) (fuel : Nat) (plan : Option FaultPlan) {args : List Value}
    (hargs : ∀ v ∈ args, v.Formed) : Tidy (c.call fuel plan args) Value.Formed := by
  have henv : Env.Formed (Bindings.insertAll [] (c.function.params.map Param.name) args) :=
    Env.Formed.insertAll (fun _ _ h => by cases h) hargs
  unfold Setting.call
  dsimp only
  split
  · refine ((c.keepsProper fuel).run plan c.function.body henv).bind ?_
    rintro ⟨exit, env⟩ hr
    cases exit with
    | ret v => exact .pure hr.1
    | next => exact .pure .none
  · exact .fail

end Setting

/-! ## Traced calls -/

theorem Argument.upholds_bindAll : ∀ args : List Argument, (∀ v, .fixed v ∈ args → v.Formed) →
    (bindAll args).Upholds Proper fun values => ∀ v ∈ values, v.Formed
  | [], _ => .pure fun v hv => by cases hv
  | .fixed v :: rest, h => by
    have hrest := upholds_bindAll rest fun w hw => h w (by simp [hw])
    refine hrest.bind fun values hvalues => .pure fun w hw => ?_
    rcases List.mem_cons.mp hw with rfl | hw
    · exact h w (by simp)
    · exact hvalues w hw
  | .dynamic v :: rest, h => by
    have hrest := upholds_bindAll rest fun w hw => h w (by simp [hw])
    refine Step.Upholds.bind (Q := fun _ => True) (.ofFault (makes_any _)) fun type _ => ?_
    refine Step.Upholds.bind (Q := Value.Formed)
      (fun t ht => ⟨ht.of_eq rfl rfl, .traced _ _⟩) fun w hw => ?_
    refine hrest.bind fun values hvalues => .pure fun u hu => ?_
    rcases List.mem_cons.mp hu with rfl | hu
    · exact hw
    · exact hvalues u hu

/-- All nodes of a traced call are proper. -/
theorem Workbench.proper_traceCall (c : Setting) (fuel : Nat) (plan : Option FaultPlan)
    {args : List Argument} (hargs : ∀ v, .fixed v ∈ args → v.placeholders = [])
    (hformed : ∀ v, .fixed v ∈ args → v.Formed) {v : Value} {diagnostics : List Diagnostic}
    (h : (traceCall c fuel plan args).result = .ok (v, diagnostics)) :
    (traceCall c fuel plan args).tracer.graph.body.Proper := by
  obtain ⟨values, t, s, hbind, -, hcall, -, -, hgraph⟩ := traceCall_eq_ok hargs h
  have hstart : (Tracer.start true).Proper := by
    intro r hr
    rw [List.mem_singleton.mp hr]
    exact Region.proper_iff.mpr fun node hnode => by cases hnode
  have hbound := Argument.upholds_bindAll args hformed _ hstart
  unfold Step.Ends at hbound
  rw [hbind] at hbound
  have hcalled := c.tidy_call fuel plan hbound.2 (t, {}) hbound.1
  unfold Step.Ends at hcalled
  rw [hcall] at hcalled
  rw [hgraph]
  exact hcalled.1 _ List.mem_cons_self

end StagedFlow
