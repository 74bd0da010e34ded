import StagedFlow.Proofs.Fallback
import StagedFlow.Proofs.ScalarSteps

/-!
Blocks that were taken into the graph, next to the same blocks on the host. If the parts of a block
follow the host, then so does its node: what goes into a region is bound to its parameters, and what
the region hands on is what the host has after the part. Main definition: `Exec.Follows`. Main
results: `Tracer.records_cond`, `Tracer.records_whileLoop`, `Tracer.records_forLoop`,
`Setting.records_tried`.
-/
set_option autoImplicit false

namespace StagedFlow

open Tracer Store Step

/-- What the traced step `x` records settles with what `y` yields on the host. -/
def Exec.Follows (x : Exec Env) (s : Tracer × Journal) (σ : Store)
    (before after names : List String) (host : Env) (y : Nat → Exec Env) : Prop :=
  x.Records Prod.fst s σ fun env' s' σ' =>
    ∃ host', Yields y host' ∧ Settles σ' s'.1.nextValue before after names host env' host'

namespace Exec.Follows

variable {x : Exec Env} {s : Tracer × Journal} {σ : Store} {before after names : List String}
  {host : Env} {y y' : Nat → Exec Env}

theorem of_yields (h : x.Follows s σ before after names host y)
    (hyields : ∀ host', Yields y host' → Yields y' host') :
    x.Follows s σ before after names host y' :=
  Records.mono h fun _ _ _ _ ⟨host', hy, hsettles⟩ => ⟨host', hyields host' hy, hsettles⟩

theorem mono {before' after' : List String} (h : x.Follows s σ before after names host y)
    (hbefore : before ⊆ before') (hafter : after' ⊆ after) :
    x.Follows s σ before' after' names host y :=
  Records.mono h fun _ _ _ _ ⟨host', hy, hsettles⟩ =>
    ⟨host', hy, hsettles.mono hbefore hafter (List.Subset.refl names)⟩

theorem mono_names {names' : List String} (h : x.Follows s σ before after names host y)
    (hnames : names ⊆ names') : x.Follows s σ before after names' host y :=
  Records.mono h fun _ _ _ _ ⟨host', hy, hsettles⟩ =>
    ⟨host', hy, hsettles.mono (List.Subset.refl before) (List.Subset.refl after) hnames⟩

end Exec.Follows

/-! ## Into a region and out of it -/

section Regions

variable {t : Tracer} {types : List ArrayType} {args : List Value}

theorem reads_openRegion (hlen : types.length = args.length) (σ : Store) :
    List.Forall₂ (Reads (Bindings.insertAll σ (List.range' t.nextValue types.length) args)
      (t.openRegion types).2.nextValue) (t.openRegion types).1 args := by
  rw [openRegion_fst, openRegion_nextValue]
  exact reads_placeholders hlen (Nat.le_refl _) σ

theorem later_openRegion (t : Tracer) (types : List ArrayType) (args : List Value) (σ : Store) :
    Later t.nextValue σ (t.openRegion types).2.nextValue
      (Bindings.insertAll σ (List.range' t.nextValue types.length) args) := by
  refine (Later.refl t.nextValue σ).insertAll (fun id hid => ?_) ?_ args
  · exact (List.mem_range'_1.mp hid).1
  · rw [openRegion_nextValue]
    omega

/-- A region leaves alone what was there before it was traced. -/
theorem later_region {r : Region} {outs : List Value} {σ σ' : Store} {bound : Nat}
    (hbinders : ∀ id ∈ r.binders, bound ≤ id) (hrun : RunsRegion r args σ outs σ') :
    Later bound σ bound σ' where
  bounds := Nat.le_refl bound
  same := fun id hid => hrun.find? fun hmem => Nat.not_lt.mpr (hbinders id hmem) hid

theorem Env.collect_length {env : Env} {names : List String} {values : List Value}
    (h : env.collect names = .ok values) : names.length = values.length := by
  induction names generalizing values with
  | nil =>
    cases h
    rfl
  | cons name names ih =>
    obtain ⟨v, vs, -, hvs, rfl⟩ := Env.collect_cons_eq_ok h
    exact congrArg Nat.succ (ih hvs)

theorem Store.operands_length {σ : Store} {operands : List Operand} {values : List Value}
    (h : σ.operands operands = .ok values) : operands.length = values.length := by
  induction operands generalizing values with
  | nil =>
    cases h
    rfl
  | cons operand operands ih =>
    obtain ⟨v, vs, -, hvs, rfl⟩ := Store.operands_cons_eq_ok h
    exact congrArg Nat.succ (ih hvs)

theorem inputs_length {env : Env} {names : List String} {init : List Value}
    {operands : List Operand} (hcollect : env.collect names = .ok init)
    (hoperands : operandsOf init = .ok (operands, types)) : names.length = types.length :=
  (Env.collect_length hcollect).trans (operandsOf_length hoperands).2.symm

end Regions

/-- The values of live names enter a block as what the host has. -/
theorem Agrees.handsOn {σ : Store} {bound : Nat} {live names inputs : List String} {env host : Env}
    {init args : List Value} {operands : List Operand} {types : List ArrayType}
    (h : Agrees σ bound live env host) (hcollect : env.collect inputs = .ok init)
    (hoperands : operandsOf init = .ok (operands, types)) (hargs : σ.operands operands = .ok args) :
    HandsOn host host live live names inputs args where
  carries := h.carries hcollect hoperands hargs
  only := .refl names host
  survives := fun _ hx _ => hx
  length := by
    rw [Env.collect_length hcollect, ← (operandsOf_length hoperands).1, operands_length hargs]

section Parts

variable {c : Setting} {info : BlockInfo} {init : List Value} {outputs : List String}
  {before after names : List String} {host : Env} {y : Nat → Exec Env}

/-- A part of a block as the body of a region: the inputs of the block are bound to the parameters,
and what the part hands on is collected. -/
def Setting.enclosed (c : Setting) (info : BlockInfo) (init : List Value) (outputs : List String)
    (part : Env → Exec Env) (env : Env) (args : List Value) : Exec (List Value) := do
  let env ← part (Bindings.insertAll env info.inputs args)
  c.leaving info init outputs env

instance (env : Env) : Grows Prod.fst (c.leaving info init outputs env) :=
  grows_exec_of_keeps fun _ => Setting.keeps_leaving False.elim

instance (part : Env → Exec Env) [∀ env, Grows Prod.fst (part env)] (env : Env)
    (args : List Value) : Grows Prod.fst (c.enclosed info init outputs part env args) :=
  inferInstanceAs (Grows Prod.fst (part _ >>= fun env => c.leaving info init outputs env))

/-- What leaves a part of a block is collected from the environment that the part has come to. -/
theorem Exec.Follows.leaving {x : Exec Env} [Grows Prod.fst x] {s : Tracer × Journal} {σ : Store}
    (h : x.Follows s σ before after names host y) :
    (x >>= c.leaving info init outputs).Records Prod.fst s σ fun values s' σ' =>
      ∃ env' host', Yields y host' ∧
        Settles σ' s'.1.nextValue before after names host env' host' ∧
        env'.collect outputs = .ok values := by
  refine h.bind ?_
  rintro env' s' σ' - ⟨host', hyields, hsettles⟩
  refine Records.of_silent fun values s'' hleaving => ?_
  obtain ⟨values', s₁, hvalues, h₁⟩ := Step.bind_eq_ok hleaving
  obtain ⟨hcollect, rfl⟩ := Exec.ofExcept_eq_ok hvalues
  obtain ⟨_, s₂, hchecked, h₂⟩ := Step.bind_eq_ok h₁
  obtain ⟨-, rfl⟩ := Exec.ofExcept_eq_ok hchecked
  cases h₂
  exact ⟨rfl, env', host', hyields, hsettles, hcollect⟩

/-- A region that was traced from a part of a block hands on what the host has after that part. -/
theorem Tracer.Recorded.handsOn {body : List Value → Exec (List Value)}
    {types outTypes : List ArrayType} {s s' : Tracer × Journal} {r : Region}
    (h : Recorded body types outTypes s r s') {args outs : List Value} {σ σ' : Store}
    (hrun : RunsRegion r args σ outs σ')
    (hbody : (body (s.1.openRegion types).1).Records Prod.fst ((s.1.openRegion types).2, s.2)
      (Bindings.insertAll σ (List.range' s.1.nextValue types.length) args) fun values s₁ σ₁ =>
        ∃ env' host', Yields y host' ∧
          Settles σ₁ s₁.1.nextValue before after names host env' host' ∧
          env'.collect outputs = .ok values) :
    outTypes.length = outs.length ∧
      ∃ host', Yields y host' ∧ HandsOn host host' before after names outputs outs := by
  obtain ⟨values, s₁, operands, ⟨env', host', hyields, hsettles, hcollect⟩, hoperands, houts⟩ :=
    h.runs hrun hbody
  have hlength := operandsOf_length hoperands
  have houtputs := operands_length houts
  refine ⟨by omega, host', hyields, hsettles.agrees.carries hcollect hoperands houts,
    hsettles.only, hsettles.survives, ?_⟩
  rw [Env.collect_length hcollect, ← hlength.1, houtputs]

/-- A region of a part of a block runs as the part does on the host, given what enters it. -/
theorem Tracer.Recorded.runs_part {part : Env → Exec Env} [∀ env, Grows Prod.fst (part env)]
    {env start : Env} {kept : List String} {types outTypes : List ArrayType}
    {s s' : Tracer × Journal} {r : Region} {args outs : List Value} {σ σ' : Store}
    (h : Recorded (c.enclosed info init outputs part env) types outTypes s r s')
    (hrun : RunsRegion r args σ outs σ') (hlen : info.inputs.length = types.length)
    (hagree : Agrees σ s.1.nextValue before env start)
    (hargs : HandsOn start host before before kept info.inputs args)
    (hkept : ∀ x ∈ kept, x ∈ before → x ∈ info.inputs)
    (hpart : ∀ {env : Env} {s : Tracer × Journal} {σ : Store},
      Agrees σ s.1.nextValue before env host → (part env).Follows s σ before after names host y) :
    outTypes.length = outs.length ∧
      ∃ host', Yields y host' ∧ HandsOn host host' before after names outputs outs := by
  have hentry := hargs.agrees hagree (later_openRegion s.1 types args σ)
    (reads_openRegion (hlen.symm.trans hargs.length) σ) hkept
  exact h.handsOn hrun (hpart (s := ((s.1.openRegion types).2, s.2)) hentry).leaving

end Parts

/-! ## Conditionals -/

/-- The node of a conditional does what the chosen part does on the host. -/
theorem Tracer.records_cond {c : Setting} {info : BlockInfo} {init : List Value}
    {thenPart elsePart : Env → Exec Env} [∀ env, Grows Prod.fst (thenPart env)]
    [∀ env, Grows Prod.fst (elsePart env)] {thenHost elseHost : Nat → Exec Env}
    {before after names : List String} {env host : Env} {predicate : Value} {x : Scalar}
    {s : Tracer × Journal} {σ : Store} (hpredicate : σ.Reads s.1.nextValue predicate (.scalar x))
    (hagree : Agrees σ s.1.nextValue before env host) (hinit : env.collect info.inputs = .ok init)
    (hnames : ∀ x ∈ names, x ∈ after → x ∈ info.outputs)
    (hthen : ∀ {env : Env} {s : Tracer × Journal} {σ : Store},
      Agrees σ s.1.nextValue before env host →
        (thenPart env).Follows s σ before after names host thenHost)
    (helse : ∀ {env : Env} {s : Tracer × Journal} {σ : Store},
      Agrees σ s.1.nextValue before env host →
        (elsePart env).Follows s σ before after names host elseHost) :
    (Tracer.cond predicate init (c.enclosed info init info.outputs thenPart env)
      (c.enclosed info init info.outputs elsePart env)).Records Prod.fst s σ fun values s' σ' =>
      ∃ truth host', (Value.scalar x).truthy = .ok truth ∧
        Yields (if truth then thenHost else elseHost) host' ∧
        Settles σ' s'.1.nextValue before after names host
          (Bindings.insertAll env info.outputs values) host' := by
  intro hs values s' h nodes happ σ' hrun
  obtain ⟨p, type, inputs, types, outs, outs', r, r', s₁, s₂, hp, hinputs, hr, hr', hlen, hplaced⟩ :=
    cond_eq_ok hs h
  obtain ⟨args, found, σ₁, hargs, ⟨w, entered, truth, rfl, htruth, hregion⟩, hreads⟩ :=
    hplaced.runs happ hrun
  obtain ⟨w', entered', hw, hentered, heq⟩ := operands_cons_eq_ok hargs
  obtain ⟨rfl, rfl⟩ := List.cons.inj heq
  obtain rfl : w = .scalar x := Except.ok.inj (hw.symm.trans (hpredicate.operand hp))
  have hhanded : HandsOn host host before before [] info.inputs entered :=
    hagree.handsOn hinit hinputs hentered
  have hentry := inputs_length hinit hinputs
  -- both regions start from the same store, the second one with more numbers issued
  have hagree₁ : Agrees σ s₁.1.nextValue before env host :=
    hagree.later (hr.nothing.later_self σ)
  have hbranch : outs.length = found.length ∧ ∃ host',
      Yields (if truth then thenHost else elseHost) host' ∧
      HandsOn host host' before after names info.outputs found := by
    cases truth with
    | true =>
      exact hr.runs_part hregion hentry hagree hhanded (fun _ hx => nomatch hx) hthen
    | false =>
      rw [hlen]
      exact hr'.runs_part hregion hentry hagree₁ hhanded (fun _ hx => nomatch hx) helse
  obtain ⟨hfound, host', hyields, hhands⟩ := hbranch
  exact ⟨truth, host', htruth, hyields,
    hhands.settles hagree (happ.later hrun) (hreads hfound) hnames⟩

/-! ## Conditional loops -/

section WhileLoops

variable {c c' : Setting} {info : BlockInfo} {init : List Value} {condition : Expr}
  {body : List FlowStmt} {part : Env → Exec Env} [∀ env, Grows Prod.fst (part env)]
  {head names : List String} {env start : Env} {types outTypes : List ArrayType}
  {s s₁ s₂ : Tracer × Journal} {test r : Region} {σ : Store}
  (hnames : ∀ x ∈ names, x ∈ head → x ∈ info.inputs) (hcondition : condition.isScalar = true)
  (huses : condition.uses ⊆ head)

/-- The condition of a loop as the body of a region. -/
def Setting.predicateOf (info : BlockInfo) (condition : Expr) (env : Env) (args : List Value) :
    Exec Value :=
  Exec.ofEval (condition.eval (Bindings.insertAll env info.inputs args))

instance (args : List Value) :
    Grows Prod.fst (yieldOne (Setting.predicateOf info condition env) args) :=
  inferInstanceAs (Grows Prod.fst (Exec.ofEval _ >>= fun v => pure [v]))

include hnames hcondition huses

/-- The region of a condition computes the value of the condition on the host. -/
theorem Tracer.Recorded.runs_condition {host : Env}
    (h : Recorded (yieldOne (Setting.predicateOf info condition env)) types outTypes s test s₁)
    {args more : List Value} {w : Value} {σ' : Store}
    (hrun : RunsRegion test args σ (w :: more) σ') (hlen : info.inputs.length = types.length)
    (hagree : Agrees σ s.1.nextValue head env start)
    (hargs : HandsOn start host head head names info.inputs args) :
    ∃ x, w = .scalar x ∧ (condition.eval host).Returns (.scalar x) := by
  have hentry := hargs.agrees hagree (later_openRegion s.1 types args σ)
    (reads_openRegion (hlen.symm.trans hargs.length) σ) hnames
  have hbody := (Expr.records_eval (t := (s.1.openRegion types).2) hcondition
    (hentry.mono huses)).onFirst (s := ((s.1.openRegion types).2, s.2))
  have hyield := hbody.bind (f := fun v => (pure [v] : Exec (List Value)))
    (R := fun values s' σ' => ∃ v x, values = [v] ∧ (condition.eval host).Returns (.scalar x) ∧
      σ'.Reads s'.1.nextValue v (.scalar x)) fun v s' σ' _ ⟨x, hx, hv⟩ =>
        Records.pure ⟨v, x, rfl, hx, hv⟩
  obtain ⟨values, s', operands, ⟨v, x, rfl, hx, hv⟩, hoperands, houts⟩ := h.runs hrun hyield
  obtain ⟨operand, type, operands', types', hop, -, rfl, -⟩ := operandsOf_cons_eq_ok hoperands
  obtain ⟨u, us, hu, -, heq⟩ := operands_cons_eq_ok houts
  obtain ⟨rfl, -⟩ := List.cons.inj heq
  exact ⟨x, Except.ok.inj (hu.symm.trans (hv.operand hop)), hx⟩

variable (hpart : ∀ {env host : Env} {s : Tracer × Journal} {σ : Store},
  Agrees σ s.1.nextValue head env host →
    (part env).Follows s σ head head names host fun m => c'.runBody m none body host)

include hpart

/-- The rounds of a loop in the graph are those of the loop on the host. The induction is on the fuel
of the graph; before each round the host has what the loop carries. -/
theorem Tracer.while_rounds
    (htest : Recorded (yieldOne (Setting.predicateOf info condition env)) types [.scalar .bool] s
      test s₁)
    (hbody : Recorded (c.enclosed info init info.inputs part env) types outTypes s₁ r s₂)
    (hlen : info.inputs.length = types.length) (hagree : Agrees σ s.1.nextValue head env start)
    (fuel : Nat) {carried outs : List Value} {τ σ' : Store} {host : Env}
    (hloop : runWhile fuel test r carried τ = .ok (outs, σ'))
    (hlater : Later s.1.nextValue σ s.1.nextValue τ)
    (hargs : HandsOn start host head head names info.inputs carried) :
    ∃ host', Yields (fun m => c'.hostWhile m none condition body host) host' ∧
      HandsOn start host' head head names info.inputs outs := by
  induction fuel generalizing carried τ host with
  | zero =>
    rw [runWhile] at hloop
    cases hloop
  | succ fuel ih =>
    obtain ⟨less, predicate, more, truth, τ₁, hless, hrun, htruth, hrest⟩ := runWhile_eq_ok hloop
    obtain rfl := Nat.succ.inj hless
    obtain ⟨x, rfl, hx⟩ := htest.runs_condition hnames hcondition huses hrun hlen
      (hagree.later hlater) hargs
    -- the regions share the store, but what was there before the loop is not theirs to bind
    have hgrown := htest.nothing.nextValue
    have hlater₁ : Later s.1.nextValue σ s.1.nextValue τ₁ := hlater.trans
      (later_region (fun id hid => (htest.binders id hid).1) hrun)
    cases truth with
    | false =>
      obtain ⟨rfl, rfl⟩ := hrest
      exact ⟨host, Setting.yields_hostWhile_end hx htruth, hargs⟩
    | true =>
      obtain ⟨next, τ₂, hround, hloop'⟩ := hrest
      have hagree₁ := hagree.later ⟨hgrown, hlater₁.same⟩
      obtain ⟨-, host₁, hyields, hhands⟩ :=
        hbody.runs_part hround hlen hagree₁ hargs hnames hpart
      have hbinders : ∀ id ∈ r.binders, s.1.nextValue ≤ id :=
        fun id hid => Nat.le_trans hgrown (hbody.binders id hid).1
      obtain ⟨host', hrounds, hhands'⟩ :=
        ih hloop' (hlater₁.trans (later_region hbinders hround)) (hargs.trans hhands)
      exact ⟨host', Setting.yields_hostWhile_round hx htruth hyields hrounds, hhands'⟩

/-- The node of a conditional loop does what the loop does on the host. -/
theorem Tracer.records_whileLoop (hagree : Agrees σ s.1.nextValue head env start)
    (hinit : env.collect info.inputs = .ok init) :
    (Tracer.whileLoop init (Setting.predicateOf info condition env)
      (c.enclosed info init info.inputs part env)).Records Prod.fst s σ fun values s' σ' =>
      ∃ host', Yields (fun m => c'.hostWhile m none condition body start) host' ∧
        Settles σ' s'.1.nextValue head head names start
          (Bindings.insertAll env info.inputs values) host' := by
  intro hs values s' h nodes happ σ' hrun
  obtain ⟨inputs, types, outTypes, test, r, s₁, s₂, hinputs, htest, hbody, htypes, hplaced⟩ :=
    whileLoop_eq_ok hs h
  obtain ⟨args, outs, σ₁, hargs, ⟨fuel, hloop⟩, hreads⟩ := hplaced.runs happ hrun
  have hlen := inputs_length hinit hinputs
  obtain ⟨host', hyields, hhands⟩ := while_rounds hnames hcondition huses hpart htest hbody hlen
    hagree fuel hloop (.refl _ σ) (hagree.handsOn hinit hinputs hargs)
  have houts : outTypes.length = outs.length := htypes ▸ hlen ▸ hhands.length
  exact ⟨host', hyields, hhands.settles hagree (happ.later hrun) (hreads houts) hnames⟩

end WhileLoops

/-! ## Counted loops -/

namespace Counting

theorem lt_ceilDiv_iff {k : Nat} {gap step : Int} (hstep : 0 < step) :
    k < ((gap + step - 1) / step).toNat ↔ k * step < gap := by
  have hdiv : (k : Int) + 1 ≤ (gap + step - 1) / step ↔ (k + 1) * step ≤ gap + step - 1 :=
    Int.le_ediv_iff_mul_le hstep
  rw [Int.add_mul] at hdiv
  omega

theorem ceilDiv_le {gap step : Int} (hstep : 0 < step) (hgap : 0 < gap) :
    (gap + step - 1) / step ≤ gap := by
  have hprod : 0 ≤ (gap - 1) * (step - 1) := Int.mul_nonneg (by omega) (by omega)
  refine Int.ediv_le_of_le_mul hstep ?_
  rw [Int.sub_mul, Int.mul_sub] at hprod
  omega

/-- The positions of a range are those whose integers lie before its stop; the limit on the number of
them is never met. -/
theorem lt_length_iff (c : Counting) (k : Nat) : k < c.length ↔
    (0 < c.step.toInt ∧ c.start.toInt + k * c.step.toInt < c.stop.toInt) ∨
      (c.step.toInt < 0 ∧ c.stop.toInt < c.start.toInt + k * c.step.toInt) := by
  have hstart := c.start.toInt_lt
  have hstart' := c.start.le_toInt
  have hstop := c.stop.toInt_lt
  have hstop' := c.stop.le_toInt
  simp only [length, maxLength]
  rcases Int.lt_trichotomy 0 c.step.toInt with hup | hzero | hdown
  · have hscaled : 0 ≤ k * c.step.toInt := Int.mul_nonneg (by omega) (by omega)
    have hlt : k < ((c.stop.toInt - c.start.toInt + c.step.toInt - 1) / c.step.toInt).toNat ↔
        k * c.step.toInt < c.stop.toInt - c.start.toInt := lt_ceilDiv_iff hup
    by_cases hsome : c.start.toInt < c.stop.toInt
    · have hle : (c.stop.toInt - c.start.toInt + c.step.toInt - 1) / c.step.toInt ≤
          c.stop.toInt - c.start.toInt := ceilDiv_le hup (by omega)
      rw [if_pos ⟨hup, hsome⟩]
      omega
    · rw [if_neg (by omega), if_neg (by omega)]
      omega
  · rw [if_neg (by omega), if_neg (by omega)]
    omega
  · have hscaled : 0 ≤ k * -c.step.toInt := Int.mul_nonneg (by omega) (by omega)
    have hlt : k < ((c.start.toInt - c.stop.toInt + -c.step.toInt - 1) / -c.step.toInt).toNat ↔
        k * -c.step.toInt < c.start.toInt - c.stop.toInt := lt_ceilDiv_iff (by omega)
    rw [Int.mul_neg] at hlt hscaled
    by_cases hsome : c.stop.toInt < c.start.toInt
    · have hle : (c.start.toInt - c.stop.toInt + -c.step.toInt - 1) / -c.step.toInt ≤
          c.start.toInt - c.stop.toInt := ceilDiv_le (by omega) (by omega)
      rw [if_neg (by omega), if_pos ⟨hdown, hsome⟩,
        Int.sub_eq_add_neg (a := c.start.toInt - c.stop.toInt)]
      omega
    · rw [if_neg (by omega), if_neg (by omega)]
      omega

/-- No integer of a range is out of 64 bits, so that a counter which leaves them is past the end. -/
theorem fitsInt64_of_lt_length {c : Counting} {k : Nat} (h : k < c.length) :
    FitsInt64 (c.start.toInt + k * c.step.toInt) := by
  have hstart := c.start.toInt_lt
  have hstart' := c.start.le_toInt
  have hstop := c.stop.toInt_lt
  have hstop' := c.stop.le_toInt
  rcases (lt_length_iff c k).mp h with ⟨hstep, hlt⟩ | ⟨hstep, hlt⟩
  · have hscaled : 0 ≤ k * c.step.toInt := Int.mul_nonneg (by omega) (by omega)
    exact ⟨by omega, by omega⟩
  · have hscaled : 0 ≤ k * -c.step.toInt := Int.mul_nonneg (by omega) (by omega)
    rw [Int.mul_neg] at hscaled
    exact ⟨by omega, by omega⟩

theorem toInt_succ (c : Counting) (k : Nat) :
    c.start.toInt + k * c.step.toInt + c.step.toInt =
      c.start.toInt + (k + 1 : Nat) * c.step.toInt := by
  rw [Int.natCast_add, Int.add_mul]
  omega

end Counting

section ForLoops

variable {c c' : Setting} {info : BlockInfo} {init : List Value} {counting : Counting}
  {target : String} {body : List FlowStmt} {part : Env → Exec Env}
  [∀ env, Grows Prod.fst (part env)] {head entry names : List String} {env start : Env}
  {types outTypes : List ArrayType} {s s₁ : Tracer × Journal} {r : Region} {σ : Store}

/-- The body of a counted loop as the body of a region, which binds the index to the target. -/
def Setting.roundOf (c : Setting) (info : BlockInfo) (init : List Value) (target : String)
    (part : Env → Exec Env) (env : Env) (index : Value) (carried : List Value) :
    Exec (List Value) :=
  c.enclosed info init info.inputs (fun env => part (Bindings.insert env target index)) env carried

instance (index : Value) (carried : List Value) :
    Grows Prod.fst (c.roundOf info init target part env index carried) :=
  inferInstanceAs (Grows Prod.fst (c.enclosed info init info.inputs
    (fun env => part (Bindings.insert env target index)) env carried))

instance (body : Value → List Value → Exec (List Value))
    [h : ∀ index carried, Grows Prod.fst (body index carried)] (args : List Value) :
    Grows Prod.fst (onIndex body args) := by
  cases args with
  | nil => exact h _ _
  | cons index carried => exact h index carried

variable (hnames : ∀ x ∈ names, x ∈ head → x ∈ info.inputs) (htarget : target ∈ names)
  (hentry : ∀ x ∈ entry, x ≠ target → x ∈ head)
  (hpart : ∀ {env host : Env} {s : Tracer × Journal} {σ : Store},
    Agrees σ s.1.nextValue entry env host →
      (part env).Follows s σ entry head names host fun m => c'.runBody m none body host)

include hnames htarget hentry hpart

/-- A round of a loop in the graph is one on the host, which binds the index first. -/
theorem Tracer.Recorded.runs_round {host : Env}
    (h : Recorded (onIndex (c.roundOf info init target part env)) (.scalar .int :: types) outTypes s
      r s₁) {i : Int64} {args outs : List Value} {σ' : Store}
    (hrun : RunsRegion r (.int i :: args) σ outs σ') (hlen : info.inputs.length = types.length)
    (hagree : Agrees σ s.1.nextValue head env start)
    (hargs : HandsOn start host head head names info.inputs args) :
    ∃ host',
      Yields (fun m => c'.runBody m none body (Bindings.insert host target (.int i))) host' ∧
      HandsOn start host' head head names info.inputs outs := by
  have hlater := later_openRegion s.1 (.scalar .int :: types) (.int i :: args) σ
  have hlen' : (ArrayType.scalar .int :: types).length = (Value.int i :: args).length :=
    congrArg Nat.succ (hlen.symm.trans hargs.length)
  obtain ⟨index, rest, hindex, hrest, hparams⟩ :=
    List.forall₂_cons_right_iff.mp (reads_openRegion (t := s.1) hlen' σ)
  have hentered := (hargs.agrees hagree hlater hrest hnames).insert hindex hentry
  have hfollows := hpart (s := ((s.1.openRegion (.scalar .int :: types)).2, s.2)) hentered
  obtain ⟨-, host', hyields, hhands⟩ := h.handsOn hrun (by
    rw [hparams]
    exact hfollows.leaving)
  exact ⟨host', hyields, hhands.carries,
    hargs.only.trans ((Env.ChangesOnly.insert htarget host _).trans hhands.only),
    fun _ hx _ => hx, hhands.length⟩

/-- One round from position `k` on: whatever the host comes to from the next position, it comes to
from this one. -/
theorem Tracer.for_round
    (hbody : Recorded (onIndex (c.roundOf info init target part env)) (.scalar .int :: types)
      outTypes s r s₁) (hlen : info.inputs.length = types.length)
    (hagree : Agrees σ s.1.nextValue head env start) {fuel k : Nat}
    {state next : List Value × Store} {host : Env} (hk : k < counting.length)
    (hnext : runRegion fuel r (.int (counting.nth k) :: state.1) state.2 = .ok next)
    (hlater : Later s.1.nextValue σ s.1.nextValue state.2)
    (hargs : HandsOn start host head head names info.inputs state.1) :
    ∃ host₁, Later s.1.nextValue σ s.1.nextValue next.2 ∧
      HandsOn start host₁ head head names info.inputs next.1 ∧
      ∀ host', Yields (fun m => c'.hostEach m none (.name target) body
          (.counting counting (k + 1)) host₁) host' →
        Yields (fun m => c'.hostEach m none (.name target) body (.counting counting k) host)
          host' := by
  have hrun : RunsRegion r (.int (counting.nth k) :: state.1) state.2 next.1 next.2 :=
    ⟨fuel, hnext⟩
  obtain ⟨host₁, hyields, hhands⟩ := hbody.runs_round hnames htarget hentry hpart hrun hlen
    (hagree.later hlater) hargs
  refine ⟨host₁, hlater.trans (later_region (fun id hid => (hbody.binders id hid).1) hrun),
    hhands, fun host' hrest => ?_⟩
  exact Setting.yields_hostEach_cons (if_pos hk) (.pure _) hyields hrest

/-- The rounds of a counted loop in the graph are those of the loop on the host. The induction is on
the counter, which is at position `k` of the range. -/
theorem Tracer.for_rounds
    (hbody : Recorded (onIndex (c.roundOf info init target part env)) (.scalar .int :: types)
      outTypes s r s₁) (hlen : info.inputs.length = types.length)
    (hagree : Agrees σ s.1.nextValue head env start)
    {fuel k : Nat} {i : Int} {state result : List Value × Store} {host : Env}
    (hloop : countLoop (fun i state => runRegion fuel r (.int i :: state.1) state.2)
      counting.stop.toInt counting.step.toInt i state = .ok result)
    (hi : i = counting.start.toInt + k * counting.step.toInt)
    (hlater : Later s.1.nextValue σ s.1.nextValue state.2)
    (hargs : HandsOn start host head head names info.inputs state.1) :
    ∃ host',
      Yields (fun m => c'.hostEach m none (.name target) body (.counting counting k) host) host' ∧
      HandsOn start host' head head names info.inputs result.1 := by
  have hlast : ∀ {k : Nat} {host : Env}, ¬ k < counting.length →
      Yields (fun m => c'.hostEach m none (.name target) body (.counting counting k) host) host :=
    fun hk => Setting.yields_hostEach_nil (if_neg hk)
  fun_induction countLoop (fun i state => runRegion fuel r (.int i :: state.1) state.2)
      counting.stop.toInt counting.step.toInt i state generalizing k host with
  | case1 i state hin next hnext hfits ih =>
    subst hi
    obtain ⟨host₁, hlater₁, hargs₁, hgo⟩ := for_round hnames htarget hentry hpart hbody hlen hagree
      ((counting.lt_length_iff k).mpr hin) hnext hlater hargs
    obtain ⟨host', hyields, hhands⟩ := ih hloop (counting.toInt_succ k) hlater₁ hargs₁
    exact ⟨host', hgo host' hyields, hhands⟩
  | case2 i state hin next hnext hfits =>
    subst hi
    obtain ⟨host₁, -, hargs₁, hgo⟩ := for_round hnames htarget hentry hpart hbody hlen hagree
      ((counting.lt_length_iff k).mpr hin) hnext hlater hargs
    cases hloop
    -- the counter would leave the 64-bit integers, so this was the last position
    rw [counting.toInt_succ k] at hfits
    exact ⟨host₁, hgo host₁ (hlast fun hk => hfits (Counting.fitsInt64_of_lt_length hk)), hargs₁⟩
  | case3 => cases hloop
  | case4 i state hout =>
    cases hloop
    subst hi
    exact ⟨host, hlast fun hk => hout ((counting.lt_length_iff k).mp hk), hargs⟩

/-- The node of a counted loop does what the loop does on the host. -/
theorem Tracer.records_forLoop (hagree : Agrees σ s.1.nextValue head env start)
    (hinit : env.collect info.inputs = .ok init) :
    (Tracer.forLoop ⟨.int counting.start, .int counting.stop, .int counting.step⟩ init
      (c.roundOf info init target part env)).Records Prod.fst s σ fun values s' σ' =>
      ∃ host', Yields (fun m => c'.hostEach m none (.name target) body (.counting counting 0) start)
          host' ∧
        Settles σ' s'.1.nextValue head head names start
          (Bindings.insertAll env info.inputs values) host' := by
  intro hs values s' h nodes happ σ' hrun
  obtain ⟨bounds, boundTypes, inputs, types, outTypes, r, s₁, hbounds, hinputs, hbody, htypes,
    hplaced⟩ := forLoop_eq_ok hs h
  obtain ⟨args, outs, σ₁, hargs, ⟨start', stop, step, carried, i, j, k, fuel, rfl, hi, hj, hk,
    hloop⟩, hreads⟩ := hplaced.runs happ hrun
  cases hbounds
  obtain ⟨_, args₁, hfirst, hargs₁, heq₁⟩ := operands_cons_eq_ok hargs
  obtain ⟨_, args₂, hsecond, hargs₂, heq₂⟩ := operands_cons_eq_ok hargs₁
  obtain ⟨_, args₃, hthird, hentered, heq₃⟩ := operands_cons_eq_ok hargs₂
  cases hfirst
  cases hsecond
  cases hthird
  subst heq₃ heq₂
  cases heq₁
  cases hi
  cases hj
  cases hk
  have hlen := inputs_length hinit hinputs
  obtain ⟨host', hyields, hhands⟩ := for_rounds hnames htarget hentry hpart hbody hlen hagree (k := 0)
    hloop (by simp) (.refl _ σ) (hagree.handsOn hinit hinputs hentered)
  have houts : outTypes.length = outs.length := htypes ▸ hlen ▸ hhands.length
  exact ⟨host', hyields, hhands.settles hagree (happ.later hrun) (hreads houts) hnames⟩

end ForLoops

/-! ## Attempts -/

theorem BlockInfo.settle_ne_committed (b : BlockInfo) (strict : Bool) (stage : Stage) (e : RunError)
    (values : List Value) : b.settle strict stage e ≠ .ok (.committed values) := by
  unfold settle
  split <;> exact nofun

/-- A block is committed only by a call that worked. -/
theorem BlockInfo.call_of_committed {b : BlockInfo} {strict : Bool}
    {call : Traced Journal (Failure RunError) (List Value)} {s s' : Tracer × Journal}
    {values : List Value} (h : b.attempt strict call s = (.ok (.committed values), s')) :
    call s = (.ok values, s') := by
  unfold attempt supervise at h
  rw [if_pos rfl] at h
  rcases hc : call s with ⟨(e | found), t, j⟩
  · rw [hc] at h
    cases e with
    | crash reason => cases h
    | outOfFuel => cases h
    | error failure =>
      dsimp only at h
      split at h
      · exact absurd (congrArg Prod.fst h) (b.settle_ne_committed strict _ _ values)
      · split at h
        · exact absurd (congrArg Prod.fst h) (b.settle_ne_committed strict _ _ values)
        · cases h
  · rw [hc] at h
    cases h
    rfl

namespace Setting

variable {c : Setting} {info : BlockInfo} {call : Traced Journal (Failure RunError) (List Value)}
  {commit : List Value → Env} {host : Exec Env}

/-- A block that is tried comes from its call, or from the host, to which the attempt has left
nothing. -/
theorem tried_eq_ok {s s' : Tracer × Journal} {env : Env} (hs : s.1.Numbered)
    (hcalls : Calls False call s) (h : c.tried info call commit host s = (.ok env, s')) :
    (∃ values, call s = (.ok values, s') ∧ env = commit values) ∨
      ∃ s₁, s.1.Appends [] s₁.1 ∧ host s₁ = (.ok env, s') := by
  obtain ⟨mark, s₀, hmark, h₁⟩ := Step.bind_eq_ok h
  cases hmark
  obtain ⟨result, s₁, hattempt, h₂⟩ := Step.bind_eq_ok h₁
  cases result with
  | committed values =>
    cases h₂
    exact .inl ⟨values, BlockInfo.call_of_committed hattempt, rfl⟩
  | fallback d =>
    obtain ⟨-, hnothing, -⟩ :=
      (BlockInfo.ensures_attempt info c.options.strict hs hcalls).of_ok hattempt
    exact .inr ⟨(s₁.1, (s₁.2.rewind s.2.diagnostics.length).report c.options d), hnothing,
      (tried_of_fallback hattempt).symm.trans h⟩

theorem grows_tried [hhost : Grows Prod.fst host]
    (hcalls : ∀ s : Tracer × Journal, s.1.Numbered → Calls False call s) :
    Grows Prod.fst (c.tried info call commit host) where
  appends := fun {s env s'} hs h => by
    rcases tried_eq_ok hs (hcalls s hs) h with ⟨values, hcall, -⟩ | ⟨s₁, hnothing, hinstead⟩
    · obtain ⟨-, ⟨node, happ, -⟩, -⟩ := Step.Ensures.of_ok (hcalls s hs) hcall
      exact ⟨[node], happ⟩
    · obtain ⟨nodes, happ⟩ := hhost.appends (hnothing.numbered hs) hinstead
      exact ⟨nodes, hnothing.trans happ⟩

/-- A block that is tried records what the call records, or what the host records instead. -/
theorem records_tried [hgrows : Grows Prod.fst host] {s : Tracer × Journal} {σ : Store}
    {Q : Env → Tracer × Journal → Store → Prop} (hcalls : s.1.Numbered → Calls False call s)
    (hcall : call.Records Prod.fst s σ fun values s' σ' => Q (commit values) s' σ')
    (hhost : ∀ s', s.1.Appends [] s'.1 → host.Records Prod.fst s' σ Q) :
    (c.tried info call commit host).Records Prod.fst s σ Q := by
  intro hs env s' h nodes happ σ' hrun
  rcases tried_eq_ok hs (hcalls hs) h with ⟨values, hworked, rfl⟩ | ⟨s₁, hnothing, hinstead⟩
  · exact hcall hs values s' hworked nodes happ σ' hrun
  · have hs₁ := hnothing.numbered hs
    obtain ⟨nodes', happ'⟩ := hgrows.appends hs₁ hinstead
    rw [happ.unique (hnothing.trans happ')] at hrun
    exact hhost s₁ hnothing hs₁ env s' hinstead nodes' happ' σ' hrun

end Setting

end StagedFlow
