import StagedFlow.Proofs.Execution
import StagedFlow.Proofs.Scoping
import StagedFlow.Workbench.Basic

/-!
Traced calls. The graph of a call is well typed, whatever the function, the options and the
arguments, and its output is in terms of the graph's own values. So the check of a graph never
rejects one that was traced, and no run of such a graph finds a value missing. Main definition:
`Argument.Placed`. Main results: `Workbench.closed_traceCall`, `Workbench.trace_never_rejects`,
`Workbench.evaluate_trace_ne_malformed`.
-/
set_option autoImplicit false

namespace StagedFlow

open Tracer

namespace Argument

/-- A tracer that came from another by new inputs only. -/
structure Placed (t t' : Tracer) : Prop where
  root : t'.root = t.root
  openRegions : t'.openRegions = t.openRegions
  knows : ∀ v, t.Knows v → t'.Knows v
  numbered : t'.Numbered

/-- Inputs are only added. -/
def placing : Protocol Tracer where
  inv := Numbered
  leads := Placed
  refl := fun _ ht => ⟨rfl, rfl, fun _ h => h, ht⟩
  trans := fun _ h h' => ⟨h'.root.trans h.root, h'.openRegions.trans h.openRegions,
    fun v hv => h'.knows v (h.knows v hv), h'.numbered⟩
  keeps := fun _ h => h.numbered

theorem placed_input {t : Tracer} (ht : t.Numbered) (type : ArrayType) :
    Placed t (t.input type).2 where
  root := rfl
  openRegions := rfl
  knows := by
    intro v hv p hp
    obtain ⟨hscope, htype⟩ := hv p hp
    refine ⟨?_, ?_⟩
    · simp only [scope, input, fresh, List.mem_append] at hscope ⊢
      tauto
    · -- a value that has a type is numbered, so it is not the new one
      have hlt := ht.lt_of_find? htype
      exact (Bindings.find?_cons ..).trans ((if_neg (by omega)).trans htype)
  numbered := ht.input type

theorem knows_input (t : Tracer) (type : ArrayType) : (t.input type).2.Knows (t.input type).1 := by
  refine knows_traced.mpr ⟨?_, ?_⟩
  · simp [scope, input, fresh]
  · exact (Bindings.find?_cons ..).trans (if_pos rfl)

/-- The arguments of a call are known to its tracer, unless they brought placeholders along. -/
theorem keeps_bindAll : ∀ {args : List Argument} {t : Tracer},
    (∀ v, .fixed v ∈ args → v.placeholders = []) →
    (bindAll args).Keeps placing t fun values t' => ∀ v ∈ values, t'.Knows v
  | [], t, _ => .pure fun v hv => by cases hv
  | .fixed v :: rest, t, h => by
    have hrest : (bindAll rest).Keeps placing t fun values t' => ∀ v ∈ values, t'.Knows v :=
      keeps_bindAll fun w hw => h w (by simp [hw])
    refine hrest.bind fun values t' _ _ hvalues => .pure fun w hw => ?_
    rcases List.mem_cons.mp hw with rfl | hw
    · exact knows_of_nil (h w (by simp))
    · exact hvalues w hw
  | .dynamic v :: rest, t, h => by
    refine Step.Keeps.bind (Q := fun _ _ => True) (.ofFault fun _ _ => trivial)
      fun type t₁ _ _ _ => ?_
    refine Step.Keeps.bind (Q := fun w t₂ => t₂.Knows w)
      (fun ht₁ => .of_eq (y := Step.modify (fun t => (t.input type).2) >>= fun _ =>
        Step.done (t₁.input type).1) rfl ⟨placed_input ht₁ type, knows_input t₁ type⟩)
      fun w t₂ _ _ hw => ?_
    have hrest : (bindAll rest).Keeps placing t₂ fun values t' => ∀ v ∈ values, t'.Knows v :=
      keeps_bindAll fun w hw => h w (by simp [hw])
    refine hrest.bind fun values t₃ _ h₃ hvalues => .pure fun u hu => ?_
    rcases List.mem_cons.mp hu with rfl | hu
    · exact h₃.knows _ hw
    · exact hvalues u hu

end Argument

/-- A call on known values returns a known value. -/
theorem Setting.keeps_call (c : Setting) (fuel : Nat) (plan : Option FaultPlan) {args : List Value}
    {s : Tracer × Journal} (hargs : ∀ v ∈ args, s.1.Knows v) :
    (c.call fuel plan args).Keeps (Exec.protocol True) s fun v s' => s'.1.Knows v := by
  have henv : Env.Known s.1 (Bindings.insertAll [] (c.function.params.map Param.name) args) :=
    Env.Known.insertAll (fun _ _ h => by cases h) hargs
  unfold Setting.call
  dsimp only
  split
  · refine ((c.sound True fuel).run plan c.function.body fun _ => henv).bind fun r s' _ _ hr => ?_
    obtain ⟨exit, env⟩ := r
    cases exit with
    | ret v => exact .pure (hr trivial).1
    | next => exact .pure (knows_of_nil rfl)
  · exact .fail

/-- A well-typed graph with an output in terms of its own values: nodes use inputs and what stands
before them, and nothing else. -/
structure Graph.Closed (g : Graph) (output : Value) : Prop where
  typed : nodesTyped g.types g.body.nodes g.inputs
  output : ∀ p ∈ output.placeholders, p.1 ∈ definedBy g.body.nodes ++ g.inputs

/-- A closed graph runs without a value missing. -/
theorem Graph.Closed.regular_evaluate {g : Graph} {output : Value} (h : g.Closed output)
    (fuel : Nat) (inputs : List Value) :
    (g.evaluate fuel inputs output).Regular fun _ => True := by
  have hrun : (g.run fuel inputs).Regular fun s => s.Covers (definedBy g.body.nodes ++ g.inputs) := by
    unfold Graph.run
    split
    · trivial
    · next hlen =>
      have hlen' : g.inputs.length = inputs.length := by omega
      have hinputs := Store.covers_insertAll [] hlen'
      refine ((runs g.types fuel).nodes h.typed hinputs).mono fun s _ hs => ?_
      exact hs.2.append (hinputs.mono hs.1)
  refine .bind (hrun.mono fun s _ hs => ?_)
  exact regular_materialize fun p hp => hs p.1 (h.output p hp)

theorem Tracer.Appends.nodes_root {t t' : Tracer} {nodes : List Node} (hroot : t.root = .opened [])
    (hopen : t.openRegions = []) (h : t.Appends nodes t') : t'.root.nodes = nodes := by
  rw [h.root]
  simp [append, mapCurrent, hopen, hroot, Region.extend, Region.opened]

/-- What was traced into a tracer with nothing but inputs is a closed graph. -/
theorem Tracer.Evolves.closed {t t' : Tracer} (hroot : t.root = .opened [])
    (hopen : t.openRegions = []) (h : Evolves True t t') {v : Value} (hv : t'.Knows v) :
    t'.graph.Closed v := by
  obtain ⟨nodes, happ, htyped⟩ := h
  have hnodes := happ.nodes_root hroot hopen
  have hscope : t.scope = t.inputs := by
    simp [scope, hopen, hroot, Region.opened, definedBy]
  have hopen' : t'.openRegions = [] := by
    rw [happ.openRegions]
    simp [append, mapCurrent, hopen]
  refine ⟨?_, fun p hp => ?_⟩
  · show nodesTyped t'.types t'.root.nodes t'.inputs
    rw [hnodes, happ.inputs, ← hscope]
    exact htyped trivial
  · have hp' := (hv p hp).1
    simpa [scope, hopen', graph] using hp'

namespace Workbench

/-- A traced call is two steps: its arguments become inputs, and then the function runs on them. -/
theorem traceCall_eq_ok {c : Setting} {fuel : Nat} {plan : Option FaultPlan} {args : List Argument}
    (hargs : ∀ v, .fixed v ∈ args → v.placeholders = []) {v : Value}
    {diagnostics : List Diagnostic}
    (h : (traceCall c fuel plan args).result = .ok (v, diagnostics)) :
    ∃ values t s, Argument.bindAll args (Tracer.start true) = (.ok values, t) ∧
      Argument.Placed (Tracer.start true) t ∧ c.call fuel plan values (t, {}) = (.ok v, s) ∧
      Evolves True t s.1 ∧ s.1.Knows v ∧ (traceCall c fuel plan args).tracer.graph = s.1.graph := by
  have hstart : (Tracer.start true).Numbered := (Tracer.Reachable.start true).numbered
  unfold traceCall at h ⊢
  dsimp only at h ⊢
  rcases hx : (((Argument.bindAll args).mapError WorkbenchError.evaluation).onFirst >>= fun values =>
      (c.call fuel plan values).mapError WorkbenchError.ofRun) (Tracer.start true, {})
    with ⟨(e | v'), t', j⟩
  · rw [hx] at h
    cases h
  · rw [hx] at h
    cases h
    obtain ⟨values, ⟨t, j'⟩, hbind, hcall⟩ := Step.bind_eq_ok hx
    obtain ⟨hbind', rfl⟩ := Step.onFirst_eq_ok hbind
    have hbound := Step.mapError_eq_ok hbind'
    have hcalled := Step.mapError_eq_ok hcall
    obtain ⟨hplaced, hvalues⟩ := (Argument.keeps_bindAll hargs hstart).of_ok hbound
    obtain ⟨hleads, hv⟩ :=
      (c.keeps_call fuel plan (s := (t, {})) hvalues hplaced.numbered).of_ok hcalled
    exact ⟨values, t, (t', j), hbound, hplaced, hcalled, hleads.1, hv, rfl⟩

/-- The graph of a traced call is closed. -/
theorem closed_traceCall (c : Setting) (fuel : Nat) (plan : Option FaultPlan)
    {args : List Argument} (hargs : ∀ v, .fixed v ∈ args → v.placeholders = []) {v : Value}
    {diagnostics : List Diagnostic}
    (h : (traceCall c fuel plan args).result = .ok (v, diagnostics)) :
    (traceCall c fuel plan args).tracer.graph.Closed v := by
  obtain ⟨values, t, s, -, hplaced, -, hevolves, hv, hgraph⟩ := traceCall_eq_ok hargs h
  rw [hgraph]
  exact hevolves.closed hplaced.root hplaced.openRegions hv

/-- A call that could be traced was traced by `traceCall`, once the function was converted. -/
theorem traceWith_eq_ok {fuel : Nat} {plan : Option FaultPlan} {handle : Nat}
    {args : List Argument} {w : Workbench} {r : Value × List Diagnostic}
    (h : (traceWith fuel plan handle args w).1.result = .ok r) :
    ∃ f w₁, convert handle w = (.ok f, w₁) ∧
      (traceWith fuel plan handle args w).1 = traceCall ⟨f, w₁.options, .staged⟩ fuel plan args := by
  unfold traceWith at h ⊢
  split at h
  · cases h
  · next f w₁ hconvert =>
    dsimp only at h ⊢
    split at h
    · cases h
    · exact ⟨f, w₁, hconvert, rfl⟩

/-- A traced call passes the check of its graph, so that the check never turns a call down. -/
theorem trace_never_rejects (fuel : Nat) {args : List Argument}
    (hargs : ∀ v, .fixed v ∈ args → v.placeholders = []) :
    (∀ (f : FlowFunction) (options : Options) (plan : Option FaultPlan) r,
      (traceCall ⟨f, options, .staged⟩ fuel plan args).result = .ok r →
      (traceCall ⟨f, options, .staged⟩ fuel plan args).tracer.graph.verify = .ok ⟨⟩) ∧
    ∀ (w : Workbench) (handle : Nat) output diagnostics,
      (traceWith fuel none handle args w).1.result = .ok (output, diagnostics) →
      trace fuel handle args w =
        (.ok ⟨(traceWith fuel none handle args w).1.tracer.graph, output, diagnostics⟩,
          (traceWith fuel none handle args w).2) := by
  have hverify : ∀ (f : FlowFunction) (options : Options) (plan : Option FaultPlan) r,
      (traceCall ⟨f, options, .staged⟩ fuel plan args).result = .ok r →
      (traceCall ⟨f, options, .staged⟩ fuel plan args).tracer.graph.verify = .ok ⟨⟩ :=
    fun f options plan r h => Graph.verify_of_typed (closed_traceCall _ fuel plan hargs h).typed
  refine ⟨hverify, fun w handle output diagnostics h => ?_⟩
  obtain ⟨f, w₁, -, htraced⟩ := traceWith_eq_ok h
  have hgraph : (traceWith fuel none handle args w).1.tracer.graph.verify = .ok ⟨⟩ := by
    rw [htraced] at h ⊢
    exact hverify f w₁.options none _ h
  unfold trace
  simp only [h, hgraph]

/-! The examples below trace a loop that counts a variable up to a bound, with one argument of each
kind. -/

def climb : FunctionDef :=
  ⟨"climb", [⟨"x", none⟩, ⟨"n", none⟩],
    [.whileDo (.binary .lt (.var "x") (.var "n"))
        [.act (.update "x" .add (.literal (.int 1))) .unknown] .unknown,
      .act (.ret (some (.var "x"))) .unknown], none, none, .unknown⟩

def climbArgs : List Argument :=
  [.dynamic (.int 0), .fixed (.int 5)]

def climbBench : Workbench :=
  (Workbench.register {} climb).2

theorem climbArgs_fixed (v : Value) (h : Argument.fixed v ∈ climbArgs) : v.placeholders = [] := by
  simp only [climbArgs, List.mem_cons, List.not_mem_nil, or_false, reduceCtorEq, false_or] at h
  cases h
  rfl

theorem trace_never_rejects_climb :
    ∃ output diagnostics,
      (traceWith 20 none 0 climbArgs climbBench).1.result = .ok (output, diagnostics) ∧
      trace 20 0 climbArgs climbBench =
        (.ok ⟨(traceWith 20 none 0 climbArgs climbBench).1.tracer.graph, output, diagnostics⟩,
          (traceWith 20 none 0 climbArgs climbBench).2) := by
  have hsome : (traceWith 20 none 0 climbArgs climbBench).1.result.toOption.isSome = true := by
    decide +kernel
  rcases hresult : (traceWith 20 none 0 climbArgs climbBench).1.result with h | ⟨output, diagnostics⟩
  · rw [hresult] at hsome
    cases hsome
  · exact ⟨output, diagnostics, rfl,
      (trace_never_rejects 20 climbArgs_fixed).2 climbBench 0 output diagnostics hresult⟩

theorem trace_eq_ok {fuel handle : Nat} {args : List Argument} {w w' : Workbench} {r : Trace}
    (h : trace fuel handle args w = (.ok r, w')) :
    (traceWith fuel none handle args w).1.result = .ok (r.output, r.diagnostics) ∧
      r.graph = (traceWith fuel none handle args w).1.tracer.graph := by
  unfold trace at h
  dsimp only at h
  split at h
  · cases h
  · next output diagnostics hresult =>
    split at h
    · cases h
    · cases h
      exact ⟨hresult, rfl⟩

/-- No run of a traced graph finds a value missing, on any inputs. -/
theorem evaluate_trace_ne_malformed {fuel handle : Nat} {args : List Argument} {w w' : Workbench}
    {r : Trace} (hargs : ∀ v, .fixed v ∈ args → v.placeholders = [])
    (h : trace fuel handle args w = (.ok r, w')) (fuel' : Nat) (inputs : List Value)
    (cause : GraphFault) :
    r.graph.evaluate fuel' inputs r.output ≠ .error (.error (.malformed cause)) := by
  obtain ⟨hresult, hgraph⟩ := trace_eq_ok h
  obtain ⟨f, w₁, -, htraced⟩ := traceWith_eq_ok hresult
  have hclosed : r.graph.Closed r.output := by
    rw [hgraph, htraced]
    rw [htraced] at hresult
    exact closed_traceCall _ fuel none hargs hresult
  exact (hclosed.regular_evaluate fuel' inputs).ne_malformed cause

theorem evaluate_trace_ne_malformed_climb :
    ∃ r w', trace 20 0 climbArgs climbBench = (.ok r, w') ∧
      ∀ fuel inputs cause,
        r.graph.evaluate fuel inputs r.output ≠ .error (.error (.malformed cause)) := by
  have hsome : (trace 20 0 climbArgs climbBench).1.toOption.isSome = true := by decide +kernel
  rcases hresult : trace 20 0 climbArgs climbBench with ⟨(h | r), w'⟩
  · rw [hresult] at hsome
    cases hsome
  · exact ⟨r, w', rfl, evaluate_trace_ne_malformed climbArgs_fixed hresult⟩

end Workbench

end StagedFlow
