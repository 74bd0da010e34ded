import StagedFlow.Proofs.Strictness

/-!
Leaving out the warnings changes nothing else. A quiet run is a run seen without its warnings: they
are kept, marked and taken back on the way, but nothing depends on them. Main definitions:
`Journal.hushed`, `Step.Hushes`, `Setting.hushed`. Main results: `Setting.simulates_hushed`,
`FunctionDef.convert_quiet`, `Workbench.run_quiet`.
-/
set_option autoImplicit false

namespace StagedFlow

open Tracer

namespace Journal

/-- The journal without its warnings. -/
def hushed (j : Journal) : Journal :=
  { fired := j.fired }

theorem hushed_report (j : Journal) (options : Options) (d : Diagnostic) :
    (j.report options d).hushed = j.hushed := by
  unfold report
  split <;> rfl

theorem hushed_rewind (j : Journal) (mark : Nat) : (j.rewind mark).hushed = j.hushed := rfl

/-- There is nothing to forget in a journal without warnings. -/
theorem rewind_hushed (j : Journal) (mark : Nat) : j.hushed.rewind mark = j.hushed := by
  simp [rewind, hushed]

theorem report_of_quiet (j : Journal) {options : Options} (h : options.quiet = true)
    (d : Diagnostic) : j.report options d = j := by
  rw [report, if_pos h]

end Journal

namespace Step

variable {ε δ α β : Type}

/-- The step `y` does without warnings what `x` does: it ends in the same way, and leaves the same
tracer. -/
def Hushes (x y : Traced Journal ε α) : Prop :=
  ∀ t j result t' j', x (t, j) = (result, (t', j')) → y (t, j.hushed) = (result, (t', j'.hushed))

namespace Hushes

variable {x y : Traced Journal ε α}

theorem pure (a : α) : Hushes (Pure.pure a : Traced Journal ε α) (Pure.pure a) := by
  intro t j result t' j' h
  cases h
  rfl

theorem halt (h : Halt ε) : Hushes (Step.halt h : Traced Journal ε α) (Step.halt h) := by
  intro t j result t' j' h
  cases h
  rfl

theorem bind {f g : α → Traced Journal ε β} (hx : x.Hushes y) (hf : ∀ a, (f a).Hushes (g a)) :
    Hushes (x >>= f) (y >>= g) := by
  intro t j result t' j' h
  rcases hfirst : x (t, j) with ⟨(e | a), t₁, j₁⟩
  · rw [bind_of_error hfirst] at h
    cases h
    exact bind_of_error (hx _ _ _ _ _ hfirst)
  · rw [bind_of_ok hfirst] at h
    rw [bind_of_ok (hx _ _ _ _ _ hfirst)]
    exact hf a _ _ _ _ _ h

/-- A step on the tracer alone sees no warnings. -/
theorem onFirst (x : Step Tracer ε α) : Hushes (x.onFirst : Traced Journal ε α) x.onFirst := by
  intro t j result t' j' h
  cases h
  rfl

theorem mapError {f : ε → δ} (h : x.Hushes y) :
    Hushes (x.mapError f : Traced Journal δ α) (y.mapError f) := by
  intro t j result t' j' hx
  rcases hr : x (t, j) with ⟨(e | a), t₁, j₁⟩
  · simp only [Step.mapError, hr] at hx
    cases hx
    simp only [Step.mapError, h _ _ _ _ _ hr]
  · simp only [Step.mapError, hr] at hx
    cases hx
    simp only [Step.mapError, h _ _ _ _ _ hr]

end Hushes

end Step

open Step

/-! ## Blocks -/

theorem Tracer.hushes_inRegion {ε : Type} (primitive : Primitive) (types : List ArrayType)
    {body body' : List Value → Traced Journal ε (List Value)}
    (hbody : ∀ args, (body args).Hushes (body' args)) :
    Hushes (inRegion primitive types body) (inRegion primitive types body') := by
  intro t j result t' j' h
  simp only [inRegion] at h ⊢
  rcases hx : body (t.openRegion types).1 ((t.openRegion types).2, j) with ⟨(e | values), t₁, j₁⟩
  · rw [hx] at h
    rw [hbody _ _ _ _ _ _ hx]
    cases e with
    | error e =>
      cases h
      rfl
    | crash reason =>
      cases h
      rfl
    | outOfFuel =>
      cases h
      rfl
  · rw [hx] at h
    rw [hbody _ _ _ _ _ _ hx]
    rcases hresults : operandsOf values with f | ⟨results, outs⟩
    · simp only [hresults] at h ⊢
      cases h
      rfl
    · simp only [hresults] at h ⊢
      cases h
      rfl

namespace FaultPlan

variable {call call' : Traced Journal (Failure RunError) (List Value)}

theorem hushes_failAfter (primitive : Primitive) (h : call.Hushes call') :
    Hushes (failAfter primitive call) (failAfter primitive call') := by
  intro t j result t' j' hx
  rcases hcall : call (t, j) with ⟨(e | values), t₁, j₁⟩
  · simp only [failAfter, hcall] at hx
    cases hx
    simp only [failAfter, h _ _ _ _ _ hcall]
  · simp only [failAfter, hcall] at hx
    cases hx
    simp only [failAfter, h _ _ _ _ _ hcall]

/-- Whether a planned fault has happened is no warning. -/
theorem hushes_intercept (plan : Option FaultPlan) (primitive : Primitive)
    (h : call.Hushes call') :
    Hushes (intercept plan primitive call) (intercept plan primitive call') := by
  intro t j result t' j' hx
  cases plan with
  | none => exact h _ _ _ _ _ hx
  | some plan =>
    have hfired : j.hushed.fired = j.fired := rfl
    simp only [intercept, hfired] at hx ⊢
    by_cases hplan : plan.primitive = primitive ∧ j.fired = false
    · rw [if_pos hplan] at hx ⊢
      by_cases hafter : plan.afterBinding
      · rw [if_pos hafter] at hx ⊢
        exact hushes_failAfter primitive h _ _ _ _ _ hx
      · rw [if_neg hafter] at hx ⊢
        cases hx
        rfl
    · rw [if_neg hplan] at hx ⊢
      exact h _ _ _ _ _ hx

end FaultPlan

theorem relational_hushes : Relational fun _ _ => Hushes where
  pure := .pure
  halt := .halt
  bind := .bind
  onFirst := .onFirst
  inRegion := fun primitive types _ _ h => hushes_inRegion primitive types h
  intercept := fun plan primitive _ _ h => FaultPlan.hushes_intercept plan primitive h

/-- An attempt looks at the tracer, and at how the call ended. -/
theorem BlockInfo.hushes_attempt (b : BlockInfo) (strict : Bool)
    {call call' : Traced Journal (Failure RunError) (List Value)} (h : call.Hushes call') :
    Hushes (b.attempt strict call) (b.attempt strict call') := by
  intro t j result t' j' hx
  simp only [attempt, supervise, if_true] at hx ⊢
  rcases hcall : call (t, j) with ⟨(e | values), t₁, j₁⟩
  · rw [hcall] at hx
    rw [h _ _ _ _ _ hcall]
    cases e with
    | crash reason =>
      cases hx
      rfl
    | outOfFuel =>
      cases hx
      rfl
    | error failure =>
      rcases hstage : failure.stage with _ | id
      · simp only [hstage] at hx ⊢
        cases hx
        rfl
      · simp only [hstage] at hx ⊢
        rcases hretract : retract id t₁ with ⟨(e | u), t₂⟩
        · rw [hretract] at hx
          cases hx
          rfl
        · rw [hretract] at hx
          cases hx
          rfl
  · rw [hcall] at hx
    rw [h _ _ _ _ _ hcall]
    cases hx
    rfl

/-! ## Runs -/

namespace Setting

/-- The same without warnings, those of the conversion included. -/
def hushed (c : Setting) : Setting :=
  { c with
    function := { c.function with diagnostics := [] }
    options := { c.options with quiet := true } }

variable {c : Setting}

theorem hushes_warn (d : Diagnostic) :
    Hushes (Exec.warn c.options d) (Exec.warn c.hushed.options d) := by
  intro t j result t' j' h
  cases h
  show (_, t, j.hushed.report c.hushed.options d) = _
  rw [Journal.hushed_report, Journal.report_of_quiet _ rfl]

/-- Wherever the marks stand, nothing is left of what was warned of since. -/
theorem hushes_replaceWarnings (mark mark' : Nat) (d : Diagnostic) :
    Hushes (Exec.replaceWarnings c.options mark d)
      (Exec.replaceWarnings c.hushed.options mark' d) := by
  intro t j result t' j' h
  cases h
  show (_, t, (j.hushed.rewind mark').report c.hushed.options d) = _
  rw [Journal.hushed_report, Journal.hushed_rewind, Journal.report_of_quiet _ rfl,
    Journal.rewind_hushed]

theorem hushes_tried (info : BlockInfo) (commit : List Value → Env)
    {call call' : Traced Journal (Failure RunError) (List Value)} {host host' : Exec Env}
    (hcall : call.Hushes call') (hhost : host.Hushes host') :
    Hushes (c.tried info call commit host) (c.hushed.tried info call' commit host') := by
  intro t j result t' j' h
  -- the two marks differ, but what is done with them does not
  have hmark : Exec.mark (t, j) = (.ok j.diagnostics.length, (t, j)) := rfl
  have hmark' : Exec.mark (t, j.hushed) = (.ok 0, (t, j.hushed)) := rfl
  unfold tried at h ⊢
  rw [bind_of_ok hmark] at h
  rw [bind_of_ok hmark']
  refine Hushes.bind (info.hushes_attempt c.options.strict hcall) (fun a => ?_) t j result t' j' h
  cases a with
  | committed values => exact .pure _
  | fallback d => exact (hushes_replaceWarnings _ _ d).bind fun _ => hhost

theorem hushes_untried (info : BlockInfo) (reason : String) {host host' : Exec Env}
    (hhost : host.Hushes host') :
    Hushes (c.untried info reason host) (c.hushed.untried info reason host') := by
  have hstrict : c.hushed.options.strict = c.options.strict := rfl
  unfold untried
  rw [hstrict]
  split
  · exact .halt _
  · exact (hushes_warn _).bind fun _ => hhost

/-- A quiet run is a run seen without its warnings. -/
theorem simulates_hushed (c : Setting) : c.Simulates c.hushed fun _ _ => Hushes where
  toRelational := relational_hushes
  file := rfl
  name := rfl
  params := rfl
  body := rfl
  mode := rfl
  entering := fun _ _ => (Hushes.onFirst _).bind fun init =>
    (Hushes.onFirst _).bind fun _ => .pure init
  leaving := fun _ _ _ _ => (Hushes.onFirst _).bind fun values =>
    (Hushes.onFirst _).bind fun _ => .pure values
  tried := fun info commit _ _ _ _ => hushes_tried info commit
  untried := fun info reason _ _ => hushes_untried info reason

end Setting

/-! ## Calls -/

/-- The converted function without the warnings of its conversion. -/
def FlowFunction.hushed (g : FlowFunction) : FlowFunction :=
  { g with diagnostics := [] }

/-- Warnings are given after everything else in a conversion is decided. -/
theorem FunctionDef.convert_quiet (f : FunctionDef) (options : Options) :
    (f.convert { options with quiet := true }).result =
      (f.convert options).result.map FlowFunction.hushed := by
  obtain hlower | ⟨reason, hcrash⟩ := f.lower_cases
  · rw [convert_of_lower hlower, convert_of_lower hlower]
    simp only [analysed, Bool.or_true, if_true]
    rw [apply_ite (Except.map FlowFunction.hushed)]
    rfl
  · rw [convert_of_crash hcrash, convert_of_crash hcrash]
    rfl

namespace Workbench

/-- What a faithful workbench converts does not depend on what it has converted before. -/
theorem convert_fst_eq {w : Workbench} (hw : w.Faithful) (handle : Nat) :
    (convert handle w).1 =
      (w.registry.function handle).mapError (fun f => Halt.error (.registry f)) >>= fun f =>
        (f.convert w.options).result.mapError (Halt.map .violations) := by
  rcases hf : w.registry.function handle with e | f
  · rcases hkept : w.registry.converted? handle with _ | g
    · rw [convert_of_unknown hkept hf]
      rfl
    · obtain ⟨f, hf', -⟩ := hw handle g hkept
      rw [hf] at hf'
      cases hf'
  · rcases hkept : w.registry.converted? handle with _ | g
    · rw [convert_of_new hkept hf]
      rfl
    · obtain ⟨f', hf', hg⟩ := hw handle g hkept
      rw [hf] at hf'
      cases hf'
      rw [convert_of_kept hkept]
      show _ = (f.convert w.options).result.mapError _
      rw [hg]
      rfl

/-- What two workbenches have in common that differ in whether they give warnings. -/
structure Quiets (w w' : Workbench) (handle handle' : Nat) : Prop where
  faithful : w.Faithful
  faithful' : w'.Faithful
  options : w'.options = { w.options with quiet := true }
  function : w'.registry.function handle' = w.registry.function handle
  session : w'.session = w.session

variable {w w' : Workbench} {handle handle' : Nat}

theorem Quiets.convert (h : w.Quiets w' handle handle') :
    (convert handle' w').1 = (Workbench.convert handle w).1.map FlowFunction.hushed := by
  rw [convert_fst_eq h.faithful', convert_fst_eq h.faithful, h.function, h.options]
  rcases w.registry.function handle with e | f
  · rfl
  · show ((f.convert { w.options with quiet := true }).result.mapError _) =
      ((f.convert w.options).result.mapError _).map _
    rw [f.convert_quiet]
    rcases (f.convert w.options).result with vs | g
    · rfl
    · rfl

theorem traceCall_hushed (c : Setting) (fuel : Nat) (plan : Option FaultPlan)
    (args : List Argument) :
    (traceCall c.hushed fuel plan args).result =
        (traceCall c fuel plan args).result.map (fun r => (r.1, [])) ∧
      (traceCall c.hushed fuel plan args).tracer = (traceCall c fuel plan args).tracer := by
  have hcall := (Hushes.onFirst ((Argument.bindAll args).mapError WorkbenchError.evaluation)).bind
    fun values => (c.simulates_hushed.call fuel plan values).mapError (f := WorkbenchError.ofRun)
  rcases hx : (((Argument.bindAll args).mapError WorkbenchError.evaluation).onFirst >>= fun values =>
      (c.call fuel plan values).mapError WorkbenchError.ofRun) (Tracer.start true, {})
    with ⟨result, t', j⟩
  have hloud : traceCall c fuel plan args =
      ⟨result.map fun v => (v, c.function.diagnostics ++ j.diagnostics), t'.leave, j⟩ := by
    unfold traceCall
    dsimp only
    rw [hx]
  have hquiet : traceCall c.hushed fuel plan args =
      ⟨result.map fun v => (v, []), t'.leave, j.hushed⟩ := by
    have hx' := hcall _ _ _ _ _ hx
    have hstart : ({} : Journal).hushed = {} := rfl
    rw [hstart] at hx'
    unfold traceCall
    dsimp only
    rw [hx']
    rfl
  rw [hloud, hquiet]
  refine ⟨?_, rfl⟩
  rcases result with e | v
  · rfl
  · rfl

theorem Quiets.traceWith (h : w.Quiets w' handle handle') (fuel : Nat) (plan : Option FaultPlan)
    (args : List Argument) :
    (traceWith fuel plan handle' args w').1.result =
        (Workbench.traceWith fuel plan handle args w).1.result.map (fun r => (r.1, [])) ∧
      (Workbench.traceWith fuel plan handle' args w').1.tracer =
        (Workbench.traceWith fuel plan handle args w).1.tracer := by
  have hconvert := h.convert
  obtain ⟨hoptions, hsession⟩ := convert_snd w handle
  obtain ⟨hoptions', hsession'⟩ := convert_snd w' handle'
  unfold Workbench.traceWith
  rcases hc : Workbench.convert handle w with ⟨(e | g), w₁⟩
  · rcases hc' : Workbench.convert handle' w' with ⟨result, w₂⟩
    rw [hc, hc'] at hconvert
    obtain rfl : result = .error e := hconvert
    exact ⟨rfl, rfl⟩
  · rcases hc' : Workbench.convert handle' w' with ⟨result, w₂⟩
    rw [hc] at hoptions hsession hconvert
    rw [hc'] at hoptions' hsession' hconvert
    obtain rfl : result = .ok g.hushed := hconvert
    have hactive : w₂.session = w₁.session := by
      rw [hsession, hsession', h.session]
    have hsetting : (⟨g.hushed, w₂.options, .staged⟩ : Setting) =
        Setting.hushed ⟨g, w₁.options, .staged⟩ := by
      rw [hoptions', h.options, ← hoptions]
      rfl
    dsimp only
    rw [hsetting]
    rcases hs : w₁.session with _ | _
    · have henter : w₁.enter = .ok { w₁ with session := true } := by rw [enter, hs]; rfl
      have henter' : w₂.enter = .ok { w₂ with session := true } := by rw [enter, hactive, hs]; rfl
      rw [henter, henter']
      exact traceCall_hushed _ fuel plan args
    · have henter : w₁.enter = .error .reentry := by rw [enter, hs]; rfl
      have henter' : w₂.enter = .error .reentry := by rw [enter, hactive, hs]; rfl
      rw [henter, henter']
      exact ⟨rfl, rfl⟩

theorem Quiets.trace (h : w.Quiets w' handle handle') (fuel : Nat) (args : List Argument) :
    (trace fuel handle' args w').1 =
      (Workbench.trace fuel handle args w).1.map fun r => { r with diagnostics := [] } := by
  obtain ⟨hresult, htracer⟩ := h.traceWith fuel none args
  unfold Workbench.trace
  dsimp only
  rw [hresult, htracer]
  rcases (Workbench.traceWith fuel none handle args w).1.result with e | ⟨output, diagnostics⟩
  · rfl
  · show _ = Except.map _ (Prod.fst _)
    dsimp only [Except.map]
    rcases (Workbench.traceWith fuel none handle args w).1.tracer.graph.verify with f | u
    · rfl
    · rfl

/-- Leaving out the warnings changes neither what a function is converted to, but for the warnings
of the conversion, nor how a run of it ends: with the same value and the same graph, and no warnings,
or with the same error. -/
theorem run_quiet {fuel : Nat} {args : List Argument} (hw : w.Reachable) (hw' : w'.Reachable)
    (hoptions : w'.options = { w.options with quiet := true })
    (hfunction : w'.registry.function handle' = w.registry.function handle)
    (hsession : w'.session = w.session) :
    (run fuel handle' args w').1 =
        (run fuel handle args w).1.map (fun r => { r with diagnostics := [] }) ∧
      (convert handle' w').1 =
        (convert handle w).1.map (fun g => { g with diagnostics := [] }) := by
  have h : w.Quiets w' handle handle' :=
    ⟨hw.faithful, hw'.faithful, hoptions, hfunction, hsession⟩
  refine ⟨?_, h.convert⟩
  have htrace := h.trace fuel args
  rcases ht : trace fuel handle args w with ⟨(e | r), w₁⟩
  · rcases ht' : trace fuel handle' args w' with ⟨result, w₂⟩
    rw [ht, ht'] at htrace
    obtain rfl : result = .error e := htrace
    rw [run, run, Step.bind_of_error ht, Step.bind_of_error ht']
    rfl
  · rcases ht' : trace fuel handle' args w' with ⟨result, w₂⟩
    rw [ht, ht'] at htrace
    obtain rfl : result = .ok { r with diagnostics := [] } := htrace
    rw [run, run, Step.bind_of_ok ht, Step.bind_of_ok ht']
    dsimp only
    rcases r.graph.evaluate fuel (args.filterMap Argument.dynamic?) r.output with e | v
    · rfl
    · rfl

/-! The example is a loop that turns a number into a truth value: it cannot be traced, and the host
unrolls it. -/

def drift : FunctionDef :=
  ⟨"drift", [⟨"x", none⟩],
    [.forIn (.name "i") (.call .range [.literal (.int 2)])
        [.act (.assign (.name "x") (.binary .lt (.var "x") (.var "i"))) .unknown] .unknown,
      .act (.ret (some (.var "x"))) .unknown], none, none, .unknown⟩

def driftBench (quiet : Bool) : Workbench :=
  (Workbench.register { options := ⟨false, quiet⟩ } drift).2

theorem run_quiet_drift :
    ∃ r, (run 40 0 [.dynamic (.int 7)] (driftBench false)).1 = .ok r ∧ r.diagnostics.length = 1 ∧
      (run 40 0 [.dynamic (.int 7)] (driftBench true)).1 = .ok { r with diagnostics := [] } := by
  have hwarned : (run 40 0 [.dynamic (.int 7)] (driftBench false)).1.toOption.map
      (·.diagnostics.length) = some 1 := by decide +kernel
  have hrun : (run 40 0 [.dynamic (.int 7)] (driftBench true)).1 =
      (run 40 0 [.dynamic (.int 7)] (driftBench false)).1.map
        fun r => { r with diagnostics := [] } :=
    (run_quiet (.register drift (.start ⟨false, false⟩)) (.register drift (.start ⟨false, true⟩))
      rfl rfl rfl).1
  rcases hr : (run 40 0 [.dynamic (.int 7)] (driftBench false)).1 with h | r
  · rw [hr] at hwarned
    cases hwarned
  · rw [hr] at hwarned hrun
    exact ⟨r, rfl, Option.some.inj hwarned, hrun⟩

end Workbench

end StagedFlow
