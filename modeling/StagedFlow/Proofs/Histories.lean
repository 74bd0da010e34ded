import StagedFlow.Proofs.Contract
import StagedFlow.Proofs.Lookup
import StagedFlow.Workbench.Basic

/-!
Histories of a workbench. Whatever was done with it, the conversions that it keeps are those of its
functions under its options, so that a function kept and a function converted anew are one. Main
definitions: `Workbench.Reachable`, `Workbench.Faithful`. Main results: `Workbench.convert_eq_ok`,
`Workbench.convert_again`, `Workbench.Reachable.faithful`.
-/
set_option autoImplicit false

namespace StagedFlow

/-- What was converted is kept, also when a later attempt fails. -/
theorem Registry.converted?_record (r : Registry) (handle other : Nat) (name : String)
    (result : Except (Halt (List Violation)) FlowFunction) :
    (r.record handle name result).converted? other =
      if handle = other then result.toOption.or (r.converted? handle) else r.converted? other := by
  have hbegun : ((r.record? handle).getD { name }).converted = r.converted? handle := by
    unfold converted?
    cases r.record? handle <;> rfl
  unfold converted? record? record
  rw [Bindings.find?_insert]
  split
  · cases result with
    | ok f => rfl
    | error h => cases h <;> exact hbegun
  · rfl

theorem Registry.record_attempt (r : Registry) (handle : Nat) (name : String)
    (result : Except (Halt (List Violation)) FlowFunction) :
    (r.attempt handle name).record handle name result = r.record handle name result := by
  unfold attempt
  split
  · rfl
  · next hnone =>
    simp only [record, record?, Bindings.find?_insert_self, Option.getD_some,
      Bindings.insert_insert]
    rw [show Bindings.find? r.records handle = none from hnone]
    rfl

theorem Registry.function_register {r : Registry} {handle : Nat} {f : FunctionDef}
    (h : r.function handle = .ok f) (g : FunctionDef) :
    (r.register g).2.function handle = .ok f := by
  unfold function at h ⊢
  split at h
  · next f' hf =>
    have hlt : handle < r.functions.length := (List.getElem?_eq_some_iff.mp hf).1
    rw [register, List.getElem?_append_left hlt, hf]
    exact h
  · cases h

namespace Workbench

variable {w w₁ w₂ : Workbench} {handle : Nat} {f : FunctionDef} {g : FlowFunction}

/-- The conversions that are kept are those of the registered functions. -/
def Faithful (w : Workbench) : Prop :=
  ∀ handle g, w.registry.converted? handle = some g →
    ∃ f, w.registry.function handle = .ok f ∧ (f.convert w.options).result = .ok g

/-- All but the session and the count of warnings is the same. -/
structure Alike (w w' : Workbench) : Prop where
  options : w'.options = w.options
  registry : w'.registry = w.registry

theorem Faithful.alike (h : w.Faithful) (halike : w.Alike w₁) : w₁.Faithful := by
  unfold Faithful
  rw [halike.options, halike.registry]
  exact h

/-! ## Conversion -/

theorem convert_of_kept (h : w.registry.converted? handle = some g) :
    convert handle w = (.ok g, w) := by
  rw [convert, h]

theorem convert_of_unknown {e : RegistryFault} (hkept : w.registry.converted? handle = none)
    (h : w.registry.function handle = .error e) :
    convert handle w = (.error (.error (.registry e)), w) := by
  rw [convert, hkept, h]

/-- A function that was not converted so far is converted, and what comes of it goes on record. -/
theorem convert_of_new (hkept : w.registry.converted? handle = none)
    (h : w.registry.function handle = .ok f) :
    convert handle w =
      ((f.convert w.options).result.mapError (Halt.map .violations),
        { w with
          registry := w.registry.record handle f.name (f.convert w.options).result
          warnings := w.warnings + (f.convert w.options).warnings }) := by
  rw [convert, hkept, h]
  dsimp only
  rw [Registry.record_attempt]

/-- What was converted is a registered function, and is kept from then on. -/
theorem convert_eq_ok (hw : w.Faithful) (h : convert handle w = (.ok g, w₁)) :
    w₁.registry.converted? handle = some g ∧
      ∃ f, w.registry.function handle = .ok f ∧ (f.convert w.options).result = .ok g := by
  -- either it was kept, and then the record is right, or it was converted just now
  rcases hkept : w.registry.converted? handle with _ | g'
  · rcases hf : w.registry.function handle with e | f
    · rw [convert_of_unknown hkept hf] at h
      cases h
    · rw [convert_of_new hkept hf] at h
      rcases hresult : (f.convert w.options).result with vs | g'
      · rw [hresult] at h
        cases h
      · rw [hresult] at h
        obtain ⟨hg, rfl⟩ := Prod.mk.inj h
        obtain rfl : g' = g := Except.ok.inj hg
        refine ⟨?_, f, rfl, hresult⟩
        rw [Registry.converted?_record, if_pos rfl]
        rfl
  · rw [convert_of_kept hkept] at h
    obtain ⟨rfl, rfl⟩ : g' = g ∧ w = w₁ := by
      cases h
      exact ⟨rfl, rfl⟩
    exact ⟨hkept, hw handle g' hkept⟩

theorem Faithful.convert (hw : w.Faithful) (handle : Nat) : (convert handle w).2.Faithful := by
  rcases hkept : w.registry.converted? handle with _ | g
  · rcases hf : w.registry.function handle with e | f
    · rw [convert_of_unknown hkept hf]
      exact hw
    · rw [convert_of_new hkept hf]
      intro other g hg
      rw [Registry.converted?_record] at hg
      split at hg
      · next heq =>
        subst heq
        rw [hkept, Option.or_none] at hg
        rcases hresult : (f.convert w.options).result with vs | g'
        · rw [hresult] at hg
          cases hg
        · rw [hresult] at hg
          cases hg
          exact ⟨f, hf, hresult⟩
      · exact hw other g hg
  · rw [convert_of_kept hkept]
    exact hw

/-- A function that was converted is not converted again. -/
theorem convert_again (hw : w.Faithful) (h : convert handle w = (.ok g, w₁))
    (halike : w₁.Alike w₂) : convert handle w₂ = (.ok g, w₂) := by
  refine convert_of_kept ?_
  rw [halike.registry]
  exact (convert_eq_ok hw h).1

/-! ## Calls convert, and leave the rest alone -/

theorem enter_eq_ok (h : w.enter = .ok w₁) : w.session = false ∧ w₁ = { w with session := true } := by
  unfold enter at h
  split at h
  · cases h
  · next hsession =>
    cases h
    exact ⟨by simpa using hsession, rfl⟩

variable (fuel : Nat) (plan : Option FaultPlan) (w handle)

theorem alike_traceWith (args : List Argument) :
    (convert handle w).2.Alike (traceWith fuel plan handle args w).2 := by
  unfold traceWith
  split
  · next hconvert => rw [hconvert]; exact ⟨rfl, rfl⟩
  · next hconvert =>
    rw [hconvert]
    dsimp only
    split
    · exact ⟨rfl, rfl⟩
    · next henter =>
      obtain ⟨-, rfl⟩ := enter_eq_ok henter
      exact ⟨rfl, rfl⟩

theorem trace_snd (args : List Argument) :
    (trace fuel handle args w).2 = (traceWith fuel none handle args w).2 := by
  unfold trace
  dsimp only
  split
  · rfl
  · split
    · rfl
    · rfl

theorem run_snd (args : List Argument) :
    (run fuel handle args w).2 = (trace fuel handle args w).2 := by
  rcases htrace : trace fuel handle args w with ⟨(h | traced), w₁⟩
  · rw [run, Step.bind_of_error htrace]
  · rw [run, Step.bind_of_ok htrace]
    dsimp only
    rcases traced.graph.evaluate fuel (args.filterMap Argument.dynamic?) traced.output with h | v
    · rfl
    · rfl

theorem alike_call (args : List Value) :
    (convert handle w).2.Alike (call fuel handle args w).2 := by
  unfold call
  split
  · next hconvert => rw [hconvert]; exact ⟨rfl, rfl⟩
  · next hconvert => rw [hconvert]; exact ⟨rfl, rfl⟩

/-! ## Histories -/

/-- What a workbench can become. -/
inductive Reachable : Workbench → Prop
  | start (options : Options) : Reachable { options }
  | register {w : Workbench} (f : FunctionDef) : Reachable w → Reachable (w.register f).2
  | enter {w w' : Workbench} : Reachable w → w.enter = .ok w' → Reachable w'
  | leave {w : Workbench} : Reachable w → Reachable w.leave
  | convert {w : Workbench} (handle : Nat) : Reachable w → Reachable (w.convert handle).2
  | traceWith {w : Workbench} (fuel : Nat) (plan : Option FaultPlan) (handle : Nat)
    (args : List Argument) : Reachable w → Reachable (w.traceWith fuel plan handle args).2
  | trace {w : Workbench} (fuel handle : Nat) (args : List Argument) :
    Reachable w → Reachable (trace fuel handle args w).2
  | run {w : Workbench} (fuel handle : Nat) (args : List Argument) :
    Reachable w → Reachable (run fuel handle args w).2
  | call {w : Workbench} (fuel handle : Nat) (args : List Value) :
    Reachable w → Reachable (call fuel handle args w).2

theorem Reachable.faithful {w : Workbench} (h : w.Reachable) : w.Faithful := by
  induction h with
  | start options => exact fun handle g hg => by cases hg
  | register f _ ih =>
    intro handle g hg
    obtain ⟨f', hf', hresult⟩ := ih handle g hg
    exact ⟨f', Registry.function_register hf' f, hresult⟩
  | enter _ henter ih =>
    obtain ⟨-, rfl⟩ := enter_eq_ok henter
    exact ih.alike ⟨rfl, rfl⟩
  | leave _ ih => exact ih.alike ⟨rfl, rfl⟩
  | convert handle _ ih => exact ih.convert handle
  | traceWith fuel plan handle args _ ih =>
    exact (ih.convert handle).alike (alike_traceWith _ handle fuel plan args)
  | trace fuel handle args _ ih =>
    rw [trace_snd]
    exact (ih.convert handle).alike (alike_traceWith _ handle fuel none args)
  | run fuel handle args _ ih =>
    rw [run_snd, trace_snd]
    exact (ih.convert handle).alike (alike_traceWith _ handle fuel none args)
  | call fuel handle args _ ih => exact (ih.convert handle).alike (alike_call _ handle fuel args)

end Workbench

end StagedFlow
