import StagedFlow.Proofs.Conversion
import StagedFlow.Proofs.Histories
import StagedFlow.Proofs.Simulation
import StagedFlow.Proofs.Tracing

/-!
Strictness only refuses. What a strict call does when it works, a lenient one does as well: every
attempt in it has worked, so that the host took over nothing and nothing was reported. Main
definitions: `Step.MirroredBy`, `Setting.lenient`. Main results: `Setting.simulates_lenient`,
`FunctionDef.convert_lenient`, `Workbench.trace_lenient_of_strict`.
-/
set_option autoImplicit false

namespace StagedFlow

open Tracer

namespace Step

variable {ε δ α β : Type}

/-- Wherever `x` works, `y` comes to the same value and the same state, and nothing is reported. -/
def MirroredBy (x y : Traced Journal ε α) : Prop :=
  ∀ s a s', x s = (.ok a, s') → y s = (.ok a, s') ∧ s'.2 = s.2

namespace MirroredBy

variable {x y : Traced Journal ε α}

theorem pure (a : α) : MirroredBy (Pure.pure a : Traced Journal ε α) (Pure.pure a) := by
  intro s b s' h
  cases h
  exact ⟨rfl, rfl⟩

/-- A step that does not work has nothing to be mirrored. -/
theorem of_halt {h : Halt ε} : MirroredBy (Step.halt h) y := by
  intro s a s' hx
  cases hx

theorem bind {f g : α → Traced Journal ε β} (hx : x.MirroredBy y)
    (hf : ∀ a, (f a).MirroredBy (g a)) : MirroredBy (x >>= f) (y >>= g) := by
  intro s b s' h
  obtain ⟨a, s₁, hfirst, hsecond⟩ := bind_eq_ok h
  obtain ⟨hy, hj⟩ := hx s a s₁ hfirst
  obtain ⟨hg, hj'⟩ := hf a s₁ b s' hsecond
  exact ⟨(bind_of_ok hy).trans hg, hj'.trans hj⟩

/-- A step on the tracer alone. -/
theorem onFirst (x : Step Tracer ε α) :
    MirroredBy (x.onFirst : Traced Journal ε α) x.onFirst := by
  intro s a s' h
  exact ⟨h, (onFirst_eq_ok h).2⟩

theorem mapError {f : ε → δ} (h : x.MirroredBy y) :
    MirroredBy (x.mapError f : Traced Journal δ α) (y.mapError f) := by
  intro s a s' hx
  obtain ⟨hy, hj⟩ := h s a s' (mapError_eq_ok hx)
  exact ⟨by rw [Step.mapError, hy], hj⟩

end MirroredBy

end Step

/-! ## Primitives -/

namespace Tracer

open Step

variable {ε : Type}

theorem mirroredBy_inRegion (primitive : Primitive) (types : List ArrayType)
    {body body' : List Value → Traced Journal ε (List Value)}
    (hbody : ∀ args, (body args).MirroredBy (body' args)) :
    MirroredBy (inRegion primitive types body) (inRegion primitive types body') := by
  rintro ⟨t, j⟩ r s' h
  simp only [inRegion] at h ⊢
  rcases hx : body (t.openRegion types).1 ((t.openRegion types).2, j) with ⟨(e | values), t', j'⟩
  · rw [hx] at h
    cases e <;> cases h
  · -- the callback worked, so that its mirror leaves the same region and the same journal
    obtain ⟨hx', hj⟩ := hbody _ _ _ _ hx
    rw [hx] at h
    rw [hx']
    refine ⟨h, ?_⟩
    rcases hresults : operandsOf values with f | ⟨results, outs⟩
    · simp only [hresults] at h
      cases h
    · simp only [hresults] at h
      cases h
      exact hj

end Tracer

open Step

/-- A planned fault that happens makes the call fail, so a call that works saw none. -/
theorem FaultPlan.mirroredBy_intercept (plan : Option FaultPlan) (primitive : Primitive)
    {call call' : Traced Journal (Failure RunError) (List Value)} (h : call.MirroredBy call') :
    MirroredBy (intercept plan primitive call) (intercept plan primitive call') := by
  rintro ⟨t, j⟩ values s' hx
  cases plan with
  | none => exact h _ _ _ hx
  | some plan =>
    simp only [intercept] at hx ⊢
    by_cases hplan : plan.primitive = primitive ∧ j.fired = false
    · rw [if_pos hplan] at hx
      by_cases hafter : plan.afterBinding
      · rw [if_pos hafter, failAfter] at hx
        split at hx
        · cases hx
        · next hok =>
          obtain ⟨t', j'⟩ := s'
          exact absurd hx (hok values t' j')
      · rw [if_neg hafter] at hx
        cases hx
    · rw [if_neg hplan] at hx ⊢
      exact h _ _ _ hx

theorem relational_mirroredBy : Relational fun _ _ => MirroredBy where
  pure := .pure
  halt := fun _ => .of_halt
  bind := .bind
  onFirst := .onFirst
  inRegion := fun primitive types _ _ h => mirroredBy_inRegion primitive types h
  intercept := fun plan primitive _ _ h => FaultPlan.mirroredBy_intercept plan primitive h

/-- A strict attempt that works has committed. -/
theorem BlockInfo.attempt_strict_eq_ok {b : BlockInfo} {s s' : Tracer × Journal} {a : Attempt}
    {call : Traced Journal (Failure RunError) (List Value)}
    (h : b.attempt true call s = (.ok a, s')) :
    ∃ values, a = .committed values ∧ call s = (.ok values, s') := by
  have hsettle : ∀ stage e, b.settle true stage e = .error (.error e) := fun stage e => rfl
  simp only [attempt, supervise, if_true, hsettle] at h
  rcases hcall : call s with ⟨(e | values), t, j⟩
  · rw [hcall] at h
    cases e with
    | crash _ => cases h
    | outOfFuel => cases h
    | error failure =>
      rcases hstage : failure.stage with _ | id
      · simp only [hstage] at h
        cases h
      · simp only [hstage] at h
        rcases hretract : retract id t with ⟨(e | u), t'⟩
        · rw [hretract] at h
          cases h
        · rw [hretract] at h
          cases h
  · rw [hcall] at h
    cases h
    exact ⟨values, rfl, rfl⟩

/-! ## Runs -/

namespace Setting

/-- The same with failures left to the host. -/
def lenient (c : Setting) : Setting :=
  { c with options := { c.options with strict := false } }

section Steps

variable {c : Setting}

theorem mirroredBy_ofEval {α : Type} (x : Eval α) :
    MirroredBy (Exec.ofEval x) (Exec.ofEval x) :=
  .onFirst x

/-- A check that is left out only lets more pass. -/
theorem mirroredBy_check (x : Except RunError Unit) :
    MirroredBy (Exec.ofExcept x) (Exec.ofExcept (.ok ())) := by
  cases x with
  | ok _ => exact .pure ()
  | error e => exact .of_halt

theorem mirroredBy_entering (info : BlockInfo) (env : Env) :
    MirroredBy (c.entering info env) (c.lenient.entering info env) := by
  refine (mirroredBy_ofEval _).bind fun init => ?_
  exact (mirroredBy_check _).bind fun _ => .pure init

theorem mirroredBy_leaving (info : BlockInfo) (init : List Value) (outputs : List String)
    (env : Env) :
    MirroredBy (c.leaving info init outputs env) (c.lenient.leaving info init outputs env) := by
  refine (mirroredBy_ofEval _).bind fun values => ?_
  exact (mirroredBy_check _).bind fun _ => .pure values

/-- A strict attempt works only if its block goes into the graph, and then the host has no part in
it. -/
theorem mirroredBy_tried (hstrict : c.options.strict = true) {info : BlockInfo}
    {call call' : Traced Journal (Failure RunError) (List Value)} (commit : List Value → Env)
    (host host' : Exec Env) (h : call.MirroredBy call') :
    MirroredBy (c.tried info call commit host) (c.lenient.tried info call' commit host') := by
  intro s env s' hx
  unfold tried at hx ⊢
  obtain ⟨mark, s₁, hmark, hx₁⟩ := bind_eq_ok hx
  obtain rfl : s = s₁ := (Prod.mk.inj hmark).2
  obtain ⟨a, s₂, hattempt, hx₂⟩ := bind_eq_ok hx₁
  rw [hstrict] at hattempt
  obtain ⟨values, rfl, hcall⟩ := BlockInfo.attempt_strict_eq_ok hattempt
  obtain ⟨hcall', hj⟩ := h _ _ _ hcall
  cases hx₂
  refine ⟨?_, hj⟩
  rw [bind_of_ok hmark, bind_of_ok (BlockInfo.attempt_of_ok hcall')]
  rfl

/-- A strict run does not work on a loop that the graph cannot iterate. -/
theorem mirroredBy_untried (hstrict : c.options.strict = true) (info : BlockInfo) (reason : String)
    (host host' : Exec Env) :
    MirroredBy (c.untried info reason host) (c.lenient.untried info reason host') := by
  unfold untried
  rw [if_pos hstrict]
  exact .of_halt

end Steps

/-- Where a strict run works, a lenient one does the same. -/
theorem simulates_lenient {c : Setting} (hstrict : c.options.strict = true) :
    c.Simulates c.lenient fun _ _ => MirroredBy where
  toRelational := relational_mirroredBy
  file := rfl
  name := rfl
  params := rfl
  body := rfl
  mode := rfl
  entering := mirroredBy_entering
  leaving := mirroredBy_leaving
  tried := fun _ commit _ _ host host' h _ => mirroredBy_tried hstrict commit host host' h
  untried := fun info reason host host' _ => mirroredBy_untried hstrict info reason host host'

end Setting

/-! ## Calls -/

/-- A function that converts under strict options converts to the same under lenient ones, and
gives no warning. -/
theorem FunctionDef.convert_lenient {f : FunctionDef} {options : Options} {g : FlowFunction}
    (hstrict : options.strict = true) (h : (f.convert options).result = .ok g) :
    (f.convert { options with strict := false }).result = .ok g ∧ g.diagnostics = [] := by
  have hlower := lower_of_convert h
  rw [convert_of_lower hlower] at h ⊢
  simp only [analysed] at h ⊢
  rw [hstrict] at h
  obtain ⟨hempty, rfl⟩ := of_ite_eq_ok h
  simp only [if_true, List.isEmpty_iff, List.append_eq_nil_iff, List.map_eq_nil_iff] at hempty
  obtain ⟨⟨hmisplaced, hanalysis⟩, -, hhostLoops⟩ := hempty
  simp only [hmisplaced, hanalysis, hhostLoops]
  refine ⟨?_, rfl⟩
  simp

namespace Workbench

/-- A strict call that could be traced is traced the same way by a lenient call, and without
warnings. -/
theorem traceCall_lenient {c : Setting} (hstrict : c.options.strict = true)
    (hquiet : c.function.diagnostics = []) {fuel : Nat} {plan : Option FaultPlan}
    {args : List Argument} {v : Value} {diagnostics : List Diagnostic}
    (h : (traceCall c fuel plan args).result = .ok (v, diagnostics)) :
    traceCall c.lenient fuel plan args = traceCall c fuel plan args ∧ diagnostics = [] := by
  have hcall := (MirroredBy.onFirst ((Argument.bindAll args).mapError WorkbenchError.evaluation)).bind
    fun values => ((Setting.simulates_lenient hstrict).call fuel plan values).mapError
      (f := WorkbenchError.ofRun)
  unfold traceCall at h ⊢
  dsimp only at h ⊢
  rcases hx : (((Argument.bindAll args).mapError WorkbenchError.evaluation).onFirst >>= fun values =>
      (c.call fuel plan values).mapError WorkbenchError.ofRun) (Tracer.start true, {})
    with ⟨(e | v'), t', j⟩
  · rw [hx] at h
    cases h
  · obtain ⟨hx', hj⟩ := hcall _ _ _ hx
    obtain rfl : j = {} := hj
    rw [hx] at h
    rw [hx']
    cases h
    refine ⟨rfl, ?_⟩
    rw [hquiet]
    rfl

theorem convert_snd (w : Workbench) (handle : Nat) :
    (convert handle w).2.options = w.options ∧ (convert handle w).2.session = w.session := by
  unfold convert
  split
  · exact ⟨rfl, rfl⟩
  · split
    · exact ⟨rfl, rfl⟩
    · exact ⟨rfl, rfl⟩

/-- A registered function converts to the same whether it was converted before or not. -/
theorem convert_fst {w : Workbench} {handle : Nat} {f : FunctionDef} {g : FlowFunction}
    (hw : w.Faithful) (hf : w.registry.function handle = .ok f)
    (hg : (f.convert w.options).result = .ok g) : (convert handle w).1 = .ok g := by
  rcases hkept : w.registry.converted? handle with _ | g'
  · rw [convert_of_new hkept hf, hg]
    rfl
  · rw [convert_of_kept hkept]
    obtain ⟨f', hf', hg'⟩ := hw handle g' hkept
    obtain rfl : f = f' := Except.ok.inj (hf.symm.trans hf')
    obtain rfl : g' = g := Except.ok.inj (hg'.symm.trans hg)
    rfl

/-- Outside a session, a function that converts is traced. -/
theorem traceWith_of_convert {w : Workbench} {handle : Nat} {g : FlowFunction}
    (hg : (convert handle w).1 = .ok g) (hsession : w.session = false) (fuel : Nat)
    (plan : Option FaultPlan) (args : List Argument) :
    (traceWith fuel plan handle args w).1 = traceCall ⟨g, w.options, .staged⟩ fuel plan args := by
  obtain ⟨hoptions, hleft⟩ := convert_snd w handle
  unfold traceWith
  rcases hconvert : convert handle w with ⟨_ | g', w₁⟩
  · rw [hconvert] at hg
    cases hg
  · rw [hconvert] at hg hoptions hleft
    obtain rfl : g' = g := Except.ok.inj hg
    have henter : w₁.enter = .ok { w₁ with session := true } := by
      rw [enter, hleft, hsession]
      rfl
    dsimp only at hoptions ⊢
    rw [henter, hoptions]

theorem session_of_traceWith {w : Workbench} {fuel handle : Nat} {plan : Option FaultPlan}
    {args : List Argument} {r : Value × List Diagnostic}
    (h : (traceWith fuel plan handle args w).1.result = .ok r) : w.session = false := by
  obtain ⟨-, hleft⟩ := convert_snd w handle
  unfold traceWith at h
  rcases hconvert : convert handle w with ⟨_ | g, w₁⟩
  · rw [hconvert] at h
    cases h
  · rw [hconvert] at h hleft
    rcases hsession : w.session with _ | _
    · rfl
    · have henter : w₁.enter = .error .reentry := by
        rw [enter, hleft, hsession]
        rfl
      simp only [henter] at h
      cases h

/-- What is left of a traced call decides what its trace is. -/
theorem trace_fst {w w' : Workbench} {fuel handle handle' : Nat} {args : List Argument}
    (h : (traceWith fuel none handle' args w').1 = (traceWith fuel none handle args w).1) :
    (trace fuel handle' args w').1 = (trace fuel handle args w).1 := by
  unfold trace
  dsimp only
  rw [h]
  split
  · rfl
  · split
    · rfl
    · rfl

/-- A call that can be traced under strict options is traced to the same graph and the same output
without them, from the same converted function, and no warning is given either way. -/
theorem trace_lenient_of_strict {w w' w₁ : Workbench} {fuel handle handle' : Nat}
    {args : List Argument} {r : Trace} (hw : w.Reachable) (hw' : w'.Reachable)
    (hstrict : w.options.strict = true) (hoptions : w'.options = { w.options with strict := false })
    (hfunction : w'.registry.function handle' = w.registry.function handle)
    (hsession : w'.session = w.session) (h : trace fuel handle args w = (.ok r, w₁)) :
    r.diagnostics = [] ∧ (∃ g, (convert handle w).1 = .ok g ∧ (convert handle' w').1 = .ok g) ∧
      ∃ w₂, trace fuel handle' args w' = (.ok r, w₂) := by
  obtain ⟨hresult, hgraph⟩ := trace_eq_ok h
  obtain ⟨g, w₂, hconvert, htraced⟩ := traceWith_eq_ok hresult
  -- the function is the same, and with it what the two workbenches make of it
  obtain ⟨-, f, hf, hg⟩ := convert_eq_ok hw.faithful hconvert
  obtain ⟨hg', hquiet⟩ := FunctionDef.convert_lenient hstrict hg
  have hconvert' : (convert handle' w').1 = .ok g := by
    refine convert_fst hw'.faithful (hfunction.trans hf) ?_
    rw [hoptions]
    exact hg'
  have htraced' : (traceWith fuel none handle' args w').1 =
      traceCall ⟨g, { w.options with strict := false }, .staged⟩ fuel none args := by
    rw [traceWith_of_convert hconvert' (hsession.trans (session_of_traceWith hresult)), hoptions]
  have htraced'' : (traceWith fuel none handle args w).1 =
      traceCall ⟨g, w.options, .staged⟩ fuel none args := by
    have hleft := (convert_snd w handle).1
    rw [hconvert] at hleft
    rw [htraced, hleft]
  rw [htraced''] at hresult
  obtain ⟨hsame, hempty⟩ := traceCall_lenient (c := ⟨g, w.options, .staged⟩) hstrict hquiet hresult
  have hboth : (traceWith fuel none handle' args w').1 = (traceWith fuel none handle args w).1 := by
    rw [htraced', htraced'']
    exact hsame
  refine ⟨hempty, ⟨g, by rw [hconvert], hconvert'⟩, (trace fuel handle' args w').2, ?_⟩
  refine Prod.ext ?_ rfl
  rw [trace_fst hboth, h]

def strictClimbBench : Workbench :=
  (Workbench.register { options := ⟨true, false⟩ } climb).2

theorem trace_lenient_of_strict_climb :
    ∃ r w₁, trace 20 0 climbArgs strictClimbBench = (.ok r, w₁) ∧ r.diagnostics = [] ∧
      (∃ g, (convert 0 strictClimbBench).1 = .ok g ∧ (convert 0 climbBench).1 = .ok g) ∧
      ∃ w₂, trace 20 0 climbArgs climbBench = (.ok r, w₂) := by
  have hsome : (trace 20 0 climbArgs strictClimbBench).1.toOption.isSome = true := by decide +kernel
  rcases hresult : trace 20 0 climbArgs strictClimbBench with ⟨(h | r), w₁⟩
  · rw [hresult] at hsome
    cases hsome
  · exact ⟨r, w₁, rfl, trace_lenient_of_strict (.register climb (.start ⟨true, false⟩))
      (.register climb (.start {})) rfl rfl rfl rfl hresult⟩

end Workbench

end StagedFlow
