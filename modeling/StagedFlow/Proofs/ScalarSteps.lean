import StagedFlow.Proofs.HostRuns
import StagedFlow.Proofs.Recording
import StagedFlow.Proofs.ScalarProgram

/-!
Single steps of programs on scalars, traced and on the host. If the environments agree on what is
live before a step, then what the traced step records computes what the host returns, and the
environments agree on what is live after it. Main definitions: `Answers`, `Ends`. Main results:
`Tracer.records_apply`, `Expr.records_eval`, `Expr.records_range`, `Setting.records_act`.
-/
set_option autoImplicit false

namespace StagedFlow

open Tracer Store Step

/-! ## Steps that only add nodes -/

theorem grows_of_keeps {ε α : Type} {x : Step Tracer ε α} {Q : Tracer → α → Tracer → Prop}
    (h : ∀ t, x.Keeps (Tracer.protocol False) t (Q t)) : Grows id x where
  appends := fun {t _ _} ht hx => by
    obtain ⟨⟨nodes, happ, -⟩, -⟩ := (h t ht).of_ok hx
    exact ⟨nodes, happ⟩

theorem grows_exec_of_keeps {α : Type} {x : Exec α}
    {Q : Tracer × Journal → α → Tracer × Journal → Prop}
    (h : ∀ s, x.Keeps (Exec.protocol False) s (Q s)) : Grows Prod.fst x where
  appends := fun {s _ _} hs hx => by
    obtain ⟨⟨⟨nodes, happ, -⟩, -⟩, -⟩ := (h s hs).of_ok hx
    exact ⟨nodes, happ⟩

instance (op : Op) (args : List Value) : Grows id (Tracer.apply op args) :=
  grows_of_keeps fun _ => Tracer.keeps_apply op False.elim

instance (op : Op) (args : List Value) : Grows id (Eval.apply op args) :=
  grows_of_keeps fun _ => Eval.keeps_apply op False.elim

instance (env : Env) (e : Expr) : Grows id (e.eval env) :=
  grows_of_keeps fun t => e.keeps_eval t False.elim

instance (env : Env) (es : List Expr) : Grows id (Expr.evalAll env es) :=
  grows_of_keeps fun t => Expr.keeps_evalAll es t False.elim

instance (v : Value) : Grows id (Expr.evalNot v) :=
  grows_of_keeps fun _ => Expr.keeps_evalNot False.elim

instance (f : Builtin) (args : List Value) : Grows id (f.call args) :=
  grows_of_keeps fun _ => Builtin.keeps_call f False.elim

instance (target : Target) (v : Value) (env : Env) : Grows id (target.assign v env) :=
  grows_of_keeps fun _ => target.keeps_assign False.elim False.elim

instance {α : Type} (x : Eval α) [Grows id x] : Grows Prod.fst (Exec.ofEval x) :=
  inferInstanceAs (Grows Prod.fst (Step.onFirst x))

instance {α : Type} (x : Step Tracer Fault α) [Grows id x] : Grows Prod.fst (Exec.ofTracer x) :=
  inferInstanceAs (Grows Prod.fst (Step.onFirst (x.mapError RunError.fault)))

/-! ## Operations -/

theorem eq_map_scalar_of_reads {σ : Store} {bound : Nat} {args : List Value} {xs : List Scalar}
    (h : List.Forall₂ (fun v x => σ.Reads bound v (.scalar x)) args xs)
    (hhost : args.any Value.isTraced = false) : args = xs.map .scalar := by
  induction h with
  | nil => rfl
  | cons hv _ ih =>
    simp only [List.any_cons, Bool.or_eq_false_iff] at hhost
    rw [List.map_cons, hv.eq_of_host hhost.1, ih hhost.2]

theorem operands_eq_of_reads {σ : Store} {bound : Nat} {args : List Value} {xs : List Scalar}
    (h : List.Forall₂ (fun v x => σ.Reads bound v (.scalar x)) args xs) {operands : List Operand}
    {types : List ArrayType} (hoperands : operandsOf args = .ok (operands, types)) :
    σ.operands operands = .ok (xs.map .scalar) := by
  induction h generalizing operands types with
  | nil =>
    cases hoperands
    rfl
  | cons hv _ ih =>
    obtain ⟨operand, type, operands', types', hop, hops, rfl, rfl⟩ :=
      operandsOf_cons_eq_ok hoperands
    rw [Store.operands, List.mapM_cons, hv.operand hop]
    exact congrArg (fun r => r >>= fun vs => pure (_ :: vs)) (ih hops)

namespace Tracer

theorem returns_apply {op : Op} {xs : List Scalar} {v : Value}
    (h : op.apply (xs.map .scalar) = .ok v) : (Tracer.apply op (xs.map .scalar)).Returns v := by
  intro t
  have hhost : (xs.map Value.scalar).any Value.isTraced = false := by
    simp [Value.isTraced]
  rw [Tracer.apply, hhost, h]
  rfl

/-- An operation on scalars computes the same in the graph and on the host. -/
theorem records_apply (op : Op) {args : List Value} {xs : List Scalar} {t : Tracer} {σ : Store}
    (hargs : List.Forall₂ (fun v x => σ.Reads t.nextValue v (.scalar x)) args xs)
    (hscalar : ∀ v, op.apply (xs.map .scalar) = .ok v → ∃ y, v = .scalar y) :
    (Tracer.apply op args).Records id t σ fun v t' σ' =>
      ∃ y, op.apply (xs.map .scalar) = .ok (.scalar y) ∧ σ'.Reads t'.nextValue v (.scalar y) := by
  intro ht v t' h nodes happ σ' hrun
  rcases apply_eq_ok h with ⟨hhost, hv, rfl⟩ | ⟨-, operands, types, type, hops, -, rfl, rfl⟩
  · -- no argument is traced, so these are the scalars themselves and nothing was recorded
    rw [eq_map_scalar_of_reads hargs hhost] at hv
    obtain ⟨y, rfl⟩ := hscalar v hv
    exact ⟨y, hv, .host rfl⟩
  · have hbinders : ∀ id ∈ (NodeKind.apply op).binders, t.nextValue ≤ id ∧ id < t.nextValue :=
      fun _ hid => by cases hid
    have hplaced := (Appends.refl t).bindNode hbinders operands [type]
    rw [happ.unique hplaced] at hrun
    obtain ⟨fuel, hnode⟩ := hrun.singleton
    obtain ⟨inputs, outs, σ₁, hinputs, ⟨w, hw, rfl, rfl⟩, rfl⟩ := runNode_eq_ok hnode
    rw [newNode, operands_eq_of_reads hargs hops] at hinputs
    obtain rfl := Except.ok.inj hinputs
    obtain ⟨y, rfl⟩ := hscalar w hw
    refine ⟨y, hw, .traced ?_ (Bindings.find?_insert_self _ _ _)⟩
    simp only [bindNode_snd, append_nextValue, freshAll_nextValue, List.length_singleton]
    omega

end Tracer

namespace Op

theorem scalar_binary (op : BinaryOp) (x y : Scalar) {v : Value}
    (h : (Op.binary op).apply [.scalar x, .scalar y] = .ok v) : ∃ z, v = .scalar z := by
  obtain ⟨z, -, h⟩ := Outcome.bind_eq_ok (x := Scalar.binary op x y) h
  exact ⟨z, (Except.ok.inj h).symm⟩

theorem scalar_neg (x : Scalar) {v : Value} (h : Op.neg.apply [.scalar x] = .ok v) :
    ∃ z, v = .scalar z := by
  obtain ⟨z, -, h⟩ := Outcome.bind_eq_ok (x := x.negate) h
  exact ⟨z, (Except.ok.inj h).symm⟩

theorem apply_not (x : Scalar) :
    (Op.logical .not).apply [.scalar x] = .ok (.bool !x.truthy) := rfl

end Op

/-! ## Expressions -/

namespace Expr

variable {t : Tracer} {σ : Store} {env host : Env}

theorem records_evalNot {v : Value} {x : Scalar} (hv : σ.Reads t.nextValue v (.scalar x)) :
    (evalNot v).Records id t σ fun w t' σ' => ∃ y, (evalNot (.scalar x)).Returns (.scalar y) ∧
      σ'.Reads t'.nextValue w (.scalar y) := by
  have hreturns : (evalNot (.scalar x)).Returns (.bool !x.truthy) := fun _ => rfl
  unfold evalNot
  split
  · have hargs : List.Forall₂ (fun v x => σ.Reads t.nextValue v (.scalar x)) [v] [x] :=
      .cons hv .nil
    refine Records.mono (records_apply (.logical .not) hargs fun w hw => ?_).mapError ?_
    · rw [List.map_singleton, Op.apply_not] at hw
      exact ⟨_, (Except.ok.inj hw).symm⟩
    · rintro w t' σ' - ⟨y, hy, hw⟩
      rw [List.map_singleton, Op.apply_not] at hy
      rw [← Except.ok.inj hy] at hw
      exact ⟨_, hreturns, hw⟩
  · next htraced =>
    rw [← hv.eq_of_host (by simpa using htraced)]
    exact Records.pure ⟨_, hreturns, .host rfl⟩

/-- What a traced expression records computes what the host returns. -/
theorem records_eval : ∀ {e : Expr} {t : Tracer} {σ : Store}, e.isScalar = true →
    Agrees σ t.nextValue e.uses env host →
      (e.eval env).Records id t σ fun v t' σ' => ∃ x, (e.eval host).Returns (.scalar x) ∧
        σ'.Reads t'.nextValue v (.scalar x)
  | literal l, t, σ, he, _ => by
    cases l with
    | int n => exact Records.pure ⟨.int n, fun _ => rfl, .host rfl⟩
    | float x => exact Records.pure ⟨.float x, fun _ => rfl, .host rfl⟩
    | bool b => exact Records.pure ⟨.bool b, fun _ => rfl, .host rfl⟩
    | _ => cases he
  | var name, t, σ, _, hagree => by
    refine Records.of_silent fun v t' hv => ?_
    simp only [eval, Env.lookup] at hv ⊢
    rcases hfind : Bindings.find? env name with _ | u
    · rw [hfind] at hv
      cases hv
    · rw [hfind] at hv
      cases hv
      obtain ⟨x, hx, hreads⟩ := hagree name List.mem_cons_self v hfind
      refine ⟨rfl, x, ?_, hreads⟩
      rw [hx]
      exact .pure _
  | binary op left right, t, σ, he, hagree => by
    simp only [isScalar, Bool.and_eq_true] at he
    refine (records_eval he.1 (hagree.mono (List.subset_append_left _ _))).bind ?_
    rintro a t₁ σ₁ hlater ⟨x, hx, ha⟩
    have hagree₁ := (hagree.mono (List.subset_append_right _ _)).later hlater
    refine (records_eval he.2 hagree₁).bind ?_
    rintro b t₂ σ₂ hlater₂ ⟨y, hy, hb⟩
    have hargs : List.Forall₂ (fun v x => σ₂.Reads t₂.nextValue v (.scalar x)) [a, b] [x, y] :=
      .cons (ha.later hlater₂) (.cons hb .nil)
    refine (records_apply (.binary op) hargs fun v => Op.scalar_binary op x y).mapError.mono ?_
    rintro v t₃ σ₃ - ⟨z, hz, hv⟩
    exact ⟨z, hx.bind (hy.bind (returns_apply hz).mapError), hv⟩
  | neg operand, t, σ, he, hagree => by
    simp only [isScalar] at he
    simp only [uses] at hagree
    refine (records_eval he hagree).bind ?_
    rintro a t₁ σ₁ - ⟨x, hx, ha⟩
    have hargs : List.Forall₂ (fun v x => σ₁.Reads t₁.nextValue v (.scalar x)) [a] [x] :=
      .cons ha .nil
    refine (records_apply .neg hargs fun v => Op.scalar_neg x).mapError.mono ?_
    rintro v t₂ σ₂ - ⟨z, hz, hv⟩
    exact ⟨z, hx.bind (returns_apply hz).mapError, hv⟩
  | not operand, t, σ, he, hagree => by
    simp only [isScalar] at he
    simp only [uses] at hagree
    refine (records_eval he hagree).bind ?_
    rintro a t₁ σ₁ - ⟨x, hx, ha⟩
    refine (records_evalNot ha).mono ?_
    rintro v t₂ σ₂ - ⟨z, hz, hv⟩
    exact ⟨z, hx.bind hz, hv⟩

theorem records_evalAll : ∀ {es : List Expr} {t : Tracer} {σ : Store}, es.all isScalar = true →
    Agrees σ t.nextValue (usesOf es) env host →
      (evalAll env es).Records id t σ fun vs t' σ' =>
        ∃ xs : List Scalar, (evalAll host es).Returns (xs.map .scalar) ∧
          List.Forall₂ (fun v x => σ'.Reads t'.nextValue v (.scalar x)) vs xs
  | [], _, _, _, _ => Records.pure ⟨[], .pure _, .nil⟩
  | e :: rest, t, σ, hes, hagree => by
    simp only [List.all_cons, Bool.and_eq_true] at hes
    refine (records_eval hes.1 (hagree.mono (List.subset_append_left _ _))).bind ?_
    rintro v t₁ σ₁ hlater ⟨x, hx, hv⟩
    have hagree₁ := (hagree.mono (List.subset_append_right _ _)).later hlater
    refine (records_evalAll hes.2 hagree₁).bind ?_
    rintro vs t₂ σ₂ hlater₂ ⟨xs, hxs, hvs⟩
    exact Records.pure ⟨x :: xs, hx.bind (hxs.bind (.pure _)), .cons (hv.later hlater₂) hvs⟩

end Expr

/-! ## Ranges -/

theorem isTraced_rangeBound {v b : Value} (h : rangeBound v = .ok b) : b.isTraced = v.isTraced := by
  cases v with
  | scalar x =>
    cases x <;> cases h <;> rfl
  | traced id type =>
    simp only [rangeBound] at h
    split at h
    · cases h
      rfl
    · cases h
  | _ => cases h

theorem any_isTraced_rangeBounds {vs bounds : List Value} (h : vs.mapM rangeBound = .ok bounds) :
    bounds.any Value.isTraced = vs.any Value.isTraced ∧ bounds.length = vs.length := by
  induction vs generalizing bounds with
  | nil =>
    cases h
    exact ⟨rfl, rfl⟩
  | cons v vs ih =>
    rw [List.mapM_cons] at h
    rcases hv : rangeBound v with f | b
    · rw [hv] at h
      cases h
    rcases hvs : vs.mapM rangeBound with f | bs
    · rw [hv, hvs] at h
      cases h
    rw [hv, hvs] at h
    cases h
    obtain ⟨hany, hlen⟩ := ih hvs
    exact ⟨by rw [List.any_cons, List.any_cons, isTraced_rangeBound hv, hany],
      congrArg Nat.succ hlen⟩

/-- The bounds of a range that can be counted are no placeholders. -/
theorem isTraced_of_counting {start stop step : Value} {c : Counting}
    (h : (Value.range start stop step).counting? = some c) :
    start.isTraced = false ∧ stop.isTraced = false ∧ step.isTraced = false := by
  have hint : ∀ {v : Value} {n : Int64}, v.toInt? = some n → v.isTraced = false := by
    intro v n hv
    cases v with
    | traced => cases hv
    | _ => rfl
  simp only [Value.counting?, Option.bind_eq_bind, Option.bind_eq_some_iff] at h
  obtain ⟨a, ha, b, hb, d, hd, -⟩ := h
  exact ⟨hint ha, hint hb, hint hd⟩

/-- A range of up to three bounds is made of them. -/
theorem makeRange_eq_ok {bounds : List Value} {items : Value}
    (hlen : bounds.length ∈ Builtin.range.arities) (h : makeRange bounds = .ok items) :
    ∃ start stop step, items = .range start stop step ∧
      ∀ v ∈ bounds, v = start ∨ v = stop ∨ v = step := by
  unfold makeRange at h
  match bounds, hlen with
  | [stop], _ =>
    dsimp only at h
    split at h
    · cases h
    · cases h
      exact ⟨.int 0, stop, .int 1, rfl, by simp⟩
  | [start, stop], _ =>
    dsimp only at h
    split at h
    · cases h
    · cases h
      exact ⟨start, stop, .int 1, rfl, by simp⟩
  | [start, stop, step], _ =>
    dsimp only at h
    split at h
    · cases h
    · cases h
      exact ⟨start, stop, step, rfl, by simp⟩

/-- The value of a range is a range, and if it can be counted, then it is the same on the host. -/
theorem Expr.records_range {source : Expr} (hsource : source.isScalarRange = true) {t : Tracer}
    {σ : Store} {env host : Env} (hagree : Agrees σ t.nextValue source.uses env host) :
    (source.eval env).Records id t σ fun items _ _ =>
      (∃ start stop step, items = .range start stop step) ∧
        ∀ c, items.counting? = some c → (source.eval host).Returns items := by
  match source, hsource with
  | .call .range args, hsource =>
    refine (records_evalAll hsource hagree).bind ?_
    rintro vs t₁ σ₁ - ⟨xs, hxs, hvs⟩
    refine Records.mapError (Records.of_silent fun items t' hitems => ?_)
    unfold Builtin.call at hitems
    split at hitems
    swap
    · cases hitems
    next hlen =>
    obtain ⟨hresult, rfl⟩ := Prod.mk.inj ((Step.ofExcept_apply _ _).symm.trans hitems)
    have hcall := Outcome.ofFault_eq_ok hresult
    rcases hmap : vs.mapM rangeBound with f | bounds
    · rw [hmap] at hcall
      cases hcall
    rw [hmap] at hcall
    obtain ⟨hany, hbounds⟩ := any_isTraced_rangeBounds hmap
    obtain ⟨start, stop, step, rfl, hmem⟩ := makeRange_eq_ok (hbounds ▸ hlen) hcall
    refine ⟨rfl, ⟨start, stop, step, rfl⟩, fun c hc => ?_⟩
    have hhost : vs.any Value.isTraced = false := by
      obtain ⟨hstart, hstop, hstep⟩ := isTraced_of_counting hc
      rw [← hany, List.any_eq_false]
      intro v hv
      rcases hmem v hv with rfl | rfl | rfl
      · simp [hstart]
      · simp [hstop]
      · simp [hstep]
    rw [← eq_map_scalar_of_reads hvs hhost] at hxs
    have hreturns : (Builtin.range.call vs).Returns (.range start stop step) := by
      intro t
      rw [Builtin.call, if_pos hlen, Builtin.callWith, hmap]
      exact congrArg (fun r => (Step.ofFault r : Step Tracer Fault Value) t) hcall
    exact hxs.bind hreturns.mapError

/-! ## Actions -/

/-- A returned value stands for what the host returns: a scalar, or nothing on both sides. -/
inductive Answers (σ : Store) (bound : Nat) : Value → Value → Prop
  | scalar {v : Value} {y : Scalar} (h : σ.Reads bound v (.scalar y)) : Answers σ bound v (.scalar y)
  | none : Answers σ bound .none .none

/-- A traced statement and one on the host end in the same way. A block has no way to return. -/
inductive Ends (σ : Store) (bound : Nat) (inside : Bool) (before after names : List String)
    (host : Env) : Exit × Env → Exit × Env → Prop
  | next {env' host' : Env} (h : Settles σ bound before after names host env' host') :
    Ends σ bound inside before after names host (.next, env') (.next, host')
  | ret {v w : Value} {env' host' : Env} (h : inside = false) (hv : Answers σ bound v w) :
    Ends σ bound inside before after names host (.ret v, env') (.ret w, host')

/-- What a traced action records computes what the action does on the host. -/
theorem Setting.records_act (c c' : Setting) {inside : Bool} {span : Span} {action : Action}
    (hscalar : action.isScalar = true) (hreturn : (inside && action.isReturn) = false)
    {after : List String} {s : Tracer × Journal} {σ : Store} {env host : Env}
    (hagree : Agrees σ s.1.nextValue (action.liveBefore after) env host) :
    (c.act span env action).Records Prod.fst s σ fun r s' σ' =>
      ∃ r', (c'.act span host action).Returns r' ∧
        Ends σ' s'.1.nextValue inside (action.liveBefore after) after action.assigned host r r' := by
  cases action with
  | assign target value =>
    simp only [Action.isScalar, Bool.and_eq_true] at hscalar
    cases target with
    | tuple items => cases hscalar.1
    | name n =>
      have huses : Agrees σ s.1.nextValue value.uses env host :=
        hagree.mono fun x hx => Names.mem_union.mpr (.inr hx)
      refine (Expr.records_eval hscalar.2 huses).onFirst.bind ?_
      rintro v s₁ σ₁ hlater ⟨y, hy, hv⟩
      have hkept : ∀ x ∈ after, x ∉ [n] → x ∈ (Action.assign (.name n) value).liveBefore after :=
        fun x hx hne => Names.mem_union.mpr (.inl (Names.mem_without.mpr ⟨hx, hne⟩))
      refine Records.pure ⟨(.next, Bindings.insert host n (.scalar y)),
        hy.onFirst.bind (.pure _), .next ⟨?_, .insert List.mem_cons_self host _, hkept⟩⟩
      exact (hagree.later hlater).insert hv fun x hx hne =>
        hkept x hx fun hmem => hne (List.mem_singleton.mp hmem)
  | update name op value =>
    have huses : Agrees σ s.1.nextValue value.uses env host :=
      hagree.mono fun x hx => Names.mem_union.mpr (.inr hx)
    refine Records.bind_silent (P := fun v => env.lookup name = .ok v) (fun v s' h => ?_)
      fun current hcurrent => ?_
    · obtain ⟨hv, rfl⟩ := Exec.ofExcept_eq_ok h
      exact ⟨rfl, hv⟩
    have hname : name ∈ (Action.update name op value).liveBefore after :=
      Names.mem_union.mpr (.inl (Names.mem_add.mpr (.inr rfl)))
    obtain ⟨x, hx, hreads⟩ := hagree name hname current (Env.lookup_eq_ok hcurrent)
    -- the old value is looked up first, and has to be there still once the operand is computed
    refine (Expr.records_eval hscalar huses).onFirst.bind ?_
    rintro v s₁ σ₁ hlater ⟨y, hy, hv⟩
    have hargs : List.Forall₂ (fun v x => σ₁.Reads s₁.1.nextValue v (.scalar x)) [current, v]
        [x, y] := .cons (hreads.later hlater) (.cons hv .nil)
    refine (records_apply (.binary op) hargs fun v =>
      Op.scalar_binary op x y).mapError.onFirst.bind ?_
    rintro w s₂ σ₂ hlater₂ ⟨z, hz, hw⟩
    have hlookup : (Exec.ofExcept (Env.lookup host name)).Returns (.scalar x) := by
      rw [Env.lookup, hx]
      exact .pure _
    have hkept : ∀ x ∈ after, x ∈ (Action.update name op value).liveBefore after :=
      fun x hx => Names.mem_union.mpr (.inl (Names.mem_add.mpr (.inl hx)))
    refine Records.pure ⟨(.next, Bindings.insert host name (.scalar z)),
      hlookup.bind (hy.onFirst.bind ((returns_apply hz).mapError.onFirst.bind (.pure _))),
      .next ⟨?_, .insert List.mem_cons_self host _, fun x hx _ => hkept x hx⟩⟩
    exact ((hagree.later hlater).later hlater₂).insert hw fun x hx _ => hkept x hx
  | eval expr =>
    have huses : Agrees σ s.1.nextValue expr.uses env host :=
      hagree.mono fun x hx => Names.mem_union.mpr (.inr hx)
    refine (Expr.records_eval hscalar huses).onFirst.bind ?_
    rintro v s₁ σ₁ hlater ⟨y, hy, -⟩
    have hkept : after ⊆ (Action.eval expr).liveBefore after :=
      fun x hx => Names.mem_union.mpr (.inl hx)
    exact Records.pure ⟨(.next, host), hy.onFirst.bind (.pure _),
      .next ⟨(hagree.later hlater).mono hkept, .refl _ host, fun x hx _ => hkept hx⟩⟩
  | ret value =>
    have hinside : inside = false := by simpa [Action.isReturn] using hreturn
    cases value with
    | none => exact Records.pure ⟨(.ret .none, host), .pure _, .ret hinside .none⟩
    | some value =>
      have huses : Agrees σ s.1.nextValue value.uses env host :=
        hagree.mono fun x hx => Names.mem_ofList.mpr hx
      refine (Expr.records_eval hscalar huses).onFirst.bind ?_
      rintro v s₁ σ₁ - ⟨y, hy, hv⟩
      exact Records.pure ⟨(.ret (.scalar y), host), hy.onFirst.bind (.pure _),
        .ret hinside (.scalar hv)⟩
  | raise message => exact Records.of_halt
  | pass =>
    exact Records.pure ⟨(.next, host), .pure _, .next ⟨hagree, .refl _ host, fun _ hx _ => hx⟩⟩

end StagedFlow
