import StagedFlow.Proofs.Conversion
import StagedFlow.Proofs.Histories
import StagedFlow.Proofs.Refinement
import StagedFlow.Proofs.ScalarProgram
import StagedFlow.Proofs.Tracing

/-!
Calls of functions on scalars: what the graph of a traced call computes is what the call returns on
the host. Main results: `Argument.bindAll_eq_ok`, `Setting.records_call`,
`Workbench.traceCall_refines`, `Workbench.run_refines_call`.
-/
set_option autoImplicit false

namespace StagedFlow

open Tracer Store Step

/-! ## Arguments -/

theorem Agrees.insertAll {σ : Store} {bound : Nat} {live : List String} {env host : Env}
    (h : Agrees σ bound live env host) {values : List Value} {xs : List Scalar}
    (hreads : List.Forall₂ (fun v x => σ.Reads bound v (.scalar x)) values xs)
    (names : List String) :
    Agrees σ bound live (Bindings.insertAll env names values)
      (Bindings.insertAll host names (xs.map .scalar)) := by
  induction hreads generalizing names env host with
  | nil =>
    cases names with
    | nil => exact h
    | cons _ _ => exact h
  | cons hv _ ih =>
    cases names with
    | nil => exact h
    | cons name names => exact ih (h.insert hv fun _ hx _ => hx) names

/-- The inputs of a graph read what the dynamic arguments are, and the other arguments are there as
they are. -/
theorem Argument.bindAll_eq_ok : ∀ {args : List Argument} {xs : List Scalar} {t t' : Tracer}
    {values : List Value}, args.map value = xs.map .scalar → bindAll args t = (.ok values, t') →
    ∃ count, t'.inputs = t.inputs ++ List.range' t.nextValue count ∧
      t'.nextValue = t.nextValue + count ∧
      ∀ σ : Store, List.Forall₂
        (fun v x => Reads (Bindings.insertAll σ (List.range' t.nextValue count)
          (args.filterMap dynamic?)) t'.nextValue v (.scalar x)) values xs
  | [], xs, t, t', values, hxs, h => by
    obtain rfl : xs = [] := List.map_eq_nil_iff.mp hxs.symm
    cases h
    exact ⟨0, by simp, rfl, fun _ => .nil⟩
  | .fixed v :: rest, [], _, _, _, hxs, _ => by cases hxs
  | .fixed v :: rest, x :: xs, t, t', values, hxs, h => by
    obtain ⟨hv, hrest⟩ := List.cons.inj hxs
    obtain ⟨vs, t₁, hvs, h₁⟩ := bind_eq_ok h
    cases h₁
    obtain ⟨count, hinputs, hnext, hreads⟩ := bindAll_eq_ok hrest hvs
    obtain rfl : v = .scalar x := hv
    exact ⟨count, hinputs, hnext, fun σ => .cons (.host rfl) (hreads σ)⟩
  | .dynamic v :: rest, [], _, _, _, hxs, _ => by cases hxs
  | .dynamic v :: rest, x :: xs, t, t', values, hxs, h => by
    obtain ⟨hv, hrest⟩ := List.cons.inj hxs
    obtain rfl : v = .scalar x := hv
    obtain ⟨type, t₁, htype, h₁⟩ := bind_eq_ok h
    cases htype
    obtain ⟨input, t₂, hinput, h₂⟩ := bind_eq_ok h₁
    obtain ⟨rfl, rfl⟩ : input = .traced t.nextValue (.scalar x.elem) ∧
        t₂ = (t.input (.scalar x.elem)).2 := by
      cases hinput
      exact ⟨rfl, rfl⟩
    obtain ⟨vs, t₃, hvs, h₃⟩ := bind_eq_ok h₂
    cases h₃
    obtain ⟨count, hinputs, hnext, hreads⟩ := bindAll_eq_ok hrest hvs
    have hissued : (t.input (.scalar x.elem)).2.nextValue = t.nextValue + 1 := rfl
    rw [hissued] at hinputs hnext hreads
    refine ⟨count + 1, ?_, by omega, fun σ => ?_⟩
    · rw [hinputs, List.range'_succ]
      exact List.append_assoc _ _ _
    · rw [List.range'_succ]
      refine .cons (.traced (by omega) ?_) (hreads _)
      have hnew : t.nextValue ∉ List.range' (t.nextValue + 1) count := by
        simp only [List.mem_range'_1]
        omega
      exact (Bindings.find?_insertAll_of_notMem hnew _ _).trans
        (Bindings.find?_insert_self _ _ _)

/-! ## Calls -/

theorem Answers.materialize {σ : Store} {bound : Nat} {v w : Value} (h : Answers σ bound v w) :
    StagedFlow.materialize σ v = .ok w := by
  cases h with
  | none => rfl
  | scalar h =>
    cases h with
    | host _ => rfl
    | traced _ found =>
      rw [StagedFlow.materialize, Store.operand, found]

/-- What a call returns if its body ends in this way. -/
def Exit.answer : Exit → Value
  | ret v => v
  | next => .none

namespace Setting

variable {c : Setting} {args : List Value} {env : Env}

theorem yields_call (hlen : args.length = (c.function.params.map Param.name).length) {exit : Exit}
    (h : Yields (fun m => c.run m none c.function.body
      (Bindings.insertAll [] (c.function.params.map Param.name) args)) (exit, env)) :
    Yields (fun m => c.call m none args) exit.answer := by
  obtain ⟨least, h⟩ := h
  refine ⟨least, fun m hm => ?_⟩
  unfold call
  dsimp only
  rw [if_pos hlen]
  cases exit with
  | ret v => exact (h m hm).bind (.pure v)
  | next => exact (h m hm).bind (.pure Value.none)

theorem grows_answer (r : Exit × Env) :
    Grows Prod.fst (match r with
      | (exit, _) => match exit with
        | .ret v => (pure v : Exec Value)
        | .next => pure .none) := by
  obtain ⟨exit, env⟩ := r
  cases exit with
  | ret v => exact inferInstanceAs (Grows Prod.fst (pure v))
  | next => exact inferInstanceAs (Grows Prod.fst (pure Value.none))

/-- What a traced call records computes what the call returns on the host. -/
theorem records_call {fuel : Nat} {values : List Value} {xs : List Scalar} {before : List String}
    {s : Tracer × Journal} {σ : Store}
    (hscalar : FlowStmt.allScalar false c.function.body = true)
    (hthreads : FlowStmt.allThread BlockInfo.Hands c.function.body before [])
    (hvalues : List.Forall₂ (fun v x => σ.Reads s.1.nextValue v (.scalar x)) values xs) :
    (c.call fuel none values).Records Prod.fst s σ fun v s' σ' =>
      ∃ w, Yields (fun m => c.onHost.call m none (xs.map .scalar)) w ∧
        Answers σ' s'.1.nextValue v w := by
  have hgrows := grows_answer
  unfold call
  dsimp only
  split
  swap
  · exact Records.of_halt
  next hlen =>
  have hlen' : (xs.map Value.scalar).length = (c.onHost.function.params.map Param.name).length := by
    rw [List.length_map, ← hvalues.length_eq]
    exact hlen
  have hempty : Agrees σ s.1.nextValue before [] [] := fun _ _ _ h => by cases h
  have hagree := hempty.insertAll hvalues (c.function.params.map Param.name)
  refine ((c.refines fuel).run hscalar hthreads hagree).bind ?_
  rintro ⟨exit, env'⟩ s' σ' - ⟨r', hyields, hends⟩
  cases hends with
  | ret _ hv => exact Records.pure ⟨_, yields_call hlen' hyields, hv⟩
  | next _ => exact Records.pure ⟨_, yields_call hlen' hyields, .none⟩

end Setting

namespace Workbench

variable {w w₁ w' : Workbench} {fuel handle : Nat} {args : List Argument}

/-- What the graph of a traced call computes is what the call returns on the host. -/
theorem traceCall_refines {c : Setting} {fuel' : Nat} {xs : List Scalar} {before : List String}
    {output v : Value} {diagnostics : List Diagnostic}
    (hscalar : FlowStmt.allScalar false c.function.body = true)
    (hthreads : FlowStmt.allThread BlockInfo.Hands c.function.body before [])
    (hxs : args.map Argument.value = xs.map .scalar)
    (h : (traceCall c fuel none args).result = .ok (output, diagnostics))
    (hvalue : (traceCall c fuel none args).tracer.graph.evaluate fuel'
      (args.filterMap Argument.dynamic?) output = .ok v) :
    Yields (fun m => c.onHost.call m none (xs.map .scalar)) v := by
  -- the arguments are scalars, so none brings a placeholder along
  have hfixed : ∀ v, .fixed v ∈ args → v.placeholders = [] := by
    intro v hv
    have hmem : v ∈ xs.map Value.scalar := hxs ▸ List.mem_map_of_mem hv
    obtain ⟨x, -, rfl⟩ := List.mem_map.mp hmem
    rfl
  obtain ⟨values, t, s, hbound, hplaced, hcalled, ⟨nodes, happ, -⟩, -, hgraph⟩ :=
    traceCall_eq_ok hfixed h
  obtain ⟨count, hinputs, -, hreads⟩ := Argument.bindAll_eq_ok hxs hbound
  obtain ⟨σ, hruns, hout⟩ := Graph.evaluate_eq_ok hvalue
  rw [hgraph] at hruns
  change RunsTo s.1.root.nodes (Bindings.insertAll [] s.1.inputs _) σ at hruns
  rw [happ.nodes_root hplaced.root hplaced.openRegions, happ.inputs, hinputs] at hruns
  obtain ⟨v', hyields, hanswers⟩ := c.records_call hscalar hthreads (hreads [])
    hplaced.numbered output s hcalled nodes happ σ hruns
  obtain rfl : v' = v := Except.ok.inj (hanswers.materialize.symm.trans hout)
  exact hyields

theorem run_eq_ok {r : RunResult} (h : run fuel handle args w = (.ok r, w')) :
    ∃ output, (traceWith fuel none handle args w).1.result = .ok (output, r.diagnostics) ∧
      (traceWith fuel none handle args w).1.tracer.graph.evaluate fuel
        (args.filterMap Argument.dynamic?) output = .ok r.value := by
  obtain ⟨traced, w₁, htrace, h₁⟩ := bind_eq_ok h
  obtain ⟨hresult, hgraph⟩ := trace_eq_ok htrace
  obtain ⟨v, w₂, hvalue, h₂⟩ := bind_eq_ok h₁
  have hevaluate := mapError_eq_ok hvalue
  rw [ofExcept_apply] at hevaluate
  cases h₂
  refine ⟨traced.output, hresult, ?_⟩
  rw [← hgraph]
  exact congrArg Prod.fst hevaluate

theorem call_of_returns {f : FlowFunction} {values : List Value} {v : Value}
    (hconvert : convert handle w = (.ok f, w₁))
    (h : ((⟨f, w₁.options, .eager⟩ : Setting).call fuel none values).Returns v) :
    (call fuel handle values w).1 = .ok v := by
  unfold call
  rw [hconvert]
  dsimp only
  rw [h.mapError]

/-- Staged execution refines execution on the host: what a traced call of a scalar function
computes, the call returns on the host, whichever blocks became primitives. -/
theorem run_refines_call {f : FunctionDef} {xs : List Scalar} {r : RunResult} (hw : w.Reachable)
    (hf : w.registry.function handle = .ok f) (hscalar : f.isScalar = true)
    (hxs : args.map Argument.value = xs.map .scalar)
    (h : run fuel handle args w = (.ok r, w')) :
    ∃ least, ∀ m, least ≤ m →
      (call m handle (xs.map .scalar) w).1 = .ok r.value ∧
      (call m handle (xs.map .scalar) w').1 = .ok r.value := by
  obtain ⟨output, hresult, hvalue⟩ := run_eq_ok h
  obtain ⟨g, w₁, hconvert, htraced⟩ := traceWith_eq_ok hresult
  rw [htraced] at hresult hvalue
  obtain ⟨-, f', hf', hg⟩ := convert_eq_ok hw.faithful hconvert
  obtain rfl : f' = f := Except.ok.inj (hf'.symm.trans hf)
  obtain ⟨before, hthreads⟩ := FunctionDef.convert_threads hg
  obtain ⟨least, hleast⟩ := traceCall_refines (FunctionDef.convert_isScalar hscalar hg) hthreads hxs
    hresult hvalue
  have halike : w₁.Alike w' := by
    have halike' := alike_traceWith w handle fuel none args
    rw [← trace_snd, ← run_snd, h, hconvert] at halike'
    exact halike'
  have hconvert' := convert_again hw.faithful hconvert halike
  refine ⟨least, fun m hm => ⟨call_of_returns hconvert (hleast m hm), ?_⟩⟩
  refine call_of_returns hconvert' ?_
  rw [halike.options]
  exact hleast m hm

/-! The example below runs a function whose first loop turns a number into a truth value, which no
primitive can do, so that the loop is unrolled; its `if` and its last loop become primitives. -/

def settle : FunctionDef :=
  ⟨"settle", [⟨"x", none⟩, ⟨"n", none⟩],
    [.act (.assign (.name "above") (.literal (.int 0))) .unknown,
      .forIn (.name "i") (.call .range [.literal (.int 3)])
        [.act (.assign (.name "above") (.binary .gt (.var "x") (.var "i"))) .unknown] .unknown,
      .choose [⟨.var "above", [.act (.update "x" .sub (.literal (.int 9))) .unknown], .unknown⟩]
        (some [.act (.assign (.name "x") (.neg (.var "x"))) .unknown]) .unknown,
      .whileDo (.binary .lt (.var "x") (.var "n"))
        [.act (.update "x" .add (.literal (.int 1))) .unknown] .unknown,
      .act (.ret (some (.var "x"))) .unknown], none, none, .unknown⟩

def settleArgs : List Argument :=
  [.dynamic (.int 7), .fixed (.int 1)]

def settleBench : Workbench :=
  (Workbench.register {} settle).2

theorem run_refines_call_settle :
    ∃ r w', run 40 0 settleArgs settleBench = (.ok r, w') ∧
      ∃ least, ∀ m, least ≤ m →
        (call m 0 [.int 7, .int 1] settleBench).1 = .ok r.value ∧
        (call m 0 [.int 7, .int 1] w').1 = .ok r.value := by
  have hsome : (run 40 0 settleArgs settleBench).1.toOption.isSome = true := by decide +kernel
  have hbench : settleBench.Reachable := .register settle (.start {})
  have hscalar : settle.isScalar = true := by decide
  have hxs : settleArgs.map Argument.value = [Scalar.int 7, .int 1].map .scalar := rfl
  rcases hresult : run 40 0 settleArgs settleBench with ⟨(h | r), w'⟩
  · rw [hresult] at hsome
    cases hsome
  · exact ⟨r, w', rfl, run_refines_call hbench rfl hscalar hxs hresult⟩

end Workbench

end StagedFlow
