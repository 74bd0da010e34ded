import StagedFlow.Proofs.Agreement
import StagedFlow.Proofs.Execution

/-!
What traced steps record, as programs on stores. A step that adds nodes is judged by what these
nodes do when they run: from a given store they lead to stores that satisfy a condition. Regions are
judged in the same way, for all stores and arguments that they may run with. Main definitions:
`Step.Grows`, `Step.Records`, `Tracer.Recorded`. Main results: `Step.Records.bind`,
`Tracer.cond_eq_ok`, `Tracer.forLoop_eq_ok`, `Tracer.whileLoop_eq_ok`.
-/
set_option autoImplicit false

namespace StagedFlow

open Tracer Store

namespace Step

variable {S ρ ε δ α β : Type} (tr : S → Tracer)

/-- Wherever the step starts, it only adds nodes. `tr` takes the tracer out of the state. -/
class Grows (x : Step S ε α) : Prop where
  appends : ∀ {s a s'}, (tr s).Numbered → x s = (.ok a, s') → ∃ nodes, (tr s).Appends nodes (tr s')

instance (a : α) : Grows tr (Pure.pure a : Step S ε α) where
  appends := fun _ h => by
    cases h
    exact ⟨[], .refl _⟩

instance (e : ε) : Grows tr (Step.fail e : Step S ε α) where
  appends := fun _ h => by cases h

instance (x : Step S ε α) (f : α → Step S ε β) [hx : Grows tr x] [hf : ∀ a, Grows tr (f a)] :
    Grows tr (x >>= f) where
  appends := fun hs h => by
    obtain ⟨a, s₁, h₁, h₂⟩ := bind_eq_ok h
    obtain ⟨first, hfirst⟩ := hx.appends hs h₁
    obtain ⟨second, hsecond⟩ := (hf a).appends (hfirst.numbered hs) h₂
    exact ⟨first ++ second, hfirst.trans hsecond⟩

instance (c : Prop) [Decidable c] (x y : Step S ε α) [hx : Grows tr x] [hy : Grows tr y] :
    Grows tr (if c then x else y) := by
  split
  · exact hx
  · exact hy

instance (f : ε → δ) (x : Step S ε α) [hx : Grows tr x] : Grows tr (x.mapError f) where
  appends := fun hs h => hx.appends hs (mapError_eq_ok h)

instance (x : Step Tracer ε α) [hx : Grows id x] :
    Grows (Prod.fst : Tracer × ρ → Tracer) (x.onFirst : Step (Tracer × ρ) ε α) where
  appends := fun hs h => hx.appends hs (onFirst_eq_ok h).1

/-- The nodes that the step adds, should it work, lead from the store `σ` to stores that satisfy a
condition on them, on the result and on the state. -/
def Records (x : Step S ε α) (s : S) (σ : Store) (Q : α → S → Store → Prop) : Prop :=
  (tr s).Numbered → ∀ a s', x s = (.ok a, s') → ∀ nodes, (tr s).Appends nodes (tr s') →
    ∀ σ', RunsTo nodes σ σ' → Q a s' σ'

namespace Records

variable {tr} {x : Step S ε α} {s : S} {σ : Store} {Q Q' : α → S → Store → Prop}

theorem mono (h : x.Records tr s σ Q) (hQ : ∀ a s' σ',
    Later (tr s).nextValue σ (tr s').nextValue σ' → Q a s' σ' → Q' a s' σ') :
    x.Records tr s σ Q' :=
  fun hs a s' hx nodes happ σ' hrun => hQ a s' σ' (happ.later hrun) (h hs a s' hx nodes happ σ' hrun)

/-- A step that leaves the state as it is records nothing. -/
theorem of_silent (h : ∀ a s', x s = (.ok a, s') → s' = s ∧ Q a s σ) : x.Records tr s σ Q := by
  intro _ a s' hx nodes happ σ' hrun
  obtain ⟨rfl, hQ⟩ := h a s' hx
  rw [happ.unique (.refl _)] at hrun
  rw [hrun.nil]
  exact hQ

theorem pure {a : α} (h : Q a s σ) : (Pure.pure a : Step S ε α).Records tr s σ Q :=
  of_silent fun _ _ hx => by
    cases hx
    exact ⟨rfl, h⟩

theorem of_halt {e : Halt ε} : (Step.halt e : Step S ε α).Records tr s σ Q :=
  fun _ _ _ hx => by cases hx

/-- What is recorded first runs first. -/
theorem bind {f : α → Step S ε β} {R : β → S → Store → Prop} [hg : Grows tr x]
    [hgf : ∀ a, Grows tr (f a)] (hx : x.Records tr s σ Q)
    (hf : ∀ a s' σ', Later (tr s).nextValue σ (tr s').nextValue σ' → Q a s' σ' →
      (f a).Records tr s' σ' R) : (x >>= f).Records tr s σ R := by
  intro hs b s'' h nodes happ σ'' hrun
  obtain ⟨a, s', h₁, h₂⟩ := bind_eq_ok h
  obtain ⟨first, hfirst⟩ := hg.appends hs h₁
  have hs' := hfirst.numbered hs
  obtain ⟨second, hsecond⟩ := (hgf a).appends hs' h₂
  rw [happ.unique (hfirst.trans hsecond)] at hrun
  obtain ⟨σ', hrun₁, hrun₂⟩ := hrun.append
  have hQ := hx hs a s' h₁ first hfirst σ' hrun₁
  exact hf a s' σ' (hfirst.later hrun₁) hQ hs' b s'' h₂ second hsecond σ'' hrun₂

/-- Nothing is recorded before the rest of a step that does not touch the tracer at first. -/
theorem bind_quiet {f : α → Step S ε β} {R : β → S → Store → Prop} {P : α → S → Prop}
    (hx : ∀ a s', x s = (.ok a, s') → tr s' = tr s ∧ P a s')
    (hf : ∀ a s', tr s' = tr s → P a s' → (f a).Records tr s' σ R) :
    (x >>= f).Records tr s σ R := by
  intro hs b s'' h nodes happ
  obtain ⟨a, s', h₁, h₂⟩ := bind_eq_ok h
  obtain ⟨htr, hP⟩ := hx a s' h₁
  rw [← htr] at hs happ
  exact hf a s' htr hP hs b s'' h₂ nodes happ

theorem bind_silent {f : α → Step S ε β} {R : β → S → Store → Prop} {P : α → Prop}
    (hx : ∀ a s', x s = (.ok a, s') → s' = s ∧ P a)
    (hf : ∀ a, P a → (f a).Records tr s σ R) : (x >>= f).Records tr s σ R := by
  refine bind_quiet (P := fun a s' => s' = s ∧ P a) (fun a s' h => ?_) fun a s' _ hP => ?_
  · obtain ⟨rfl, hP⟩ := hx a s' h
    exact ⟨rfl, rfl, hP⟩
  · obtain ⟨rfl, hP⟩ := hP
    exact hf a hP

theorem mapError {f : ε → δ} (h : x.Records tr s σ Q) : (x.mapError f).Records tr s σ Q :=
  fun hs a s' hx => h hs a s' (mapError_eq_ok hx)

theorem onFirst {x : Step Tracer ε α} {s : Tracer × ρ} {Q : α → Tracer → Store → Prop}
    (h : x.Records id s.1 σ Q) :
    (x.onFirst : Step (Tracer × ρ) ε α).Records Prod.fst s σ fun a s' σ' => Q a s'.1 σ' :=
  fun hs a s' hx => h hs a s'.1 (onFirst_eq_ok hx).1

end Records

end Step

/-! ## Regions -/

namespace Tracer

variable {ρ ε : Type} {s s' : Tracer × ρ}

theorem openRegion_nextValue (t : Tracer) (types : List ArrayType) :
    (t.openRegion types).2.nextValue = t.nextValue + types.length := by
  rw [openRegion_snd]
  exact freshAll_nextValue t types

/-- A region that was traced by a callback: what the callback records is what the region runs. -/
structure Recorded (body : List Value → Traced ρ ε (List Value)) (types outTypes : List ArrayType)
    (s : Tracer × ρ) (r : Region) (s' : Tracer × ρ) : Prop where
  nothing : s.1.Appends [] s'.1
  binders : ∀ id ∈ r.binders, s.1.nextValue ≤ id ∧ id < s'.1.nextValue
  runs : ∀ {args outs : List Value} {σ σ' : Store} {Q : List Value → Tracer × ρ → Store → Prop},
    RunsRegion r args σ outs σ' →
    (body (s.1.openRegion types).1).Records Prod.fst ((s.1.openRegion types).2, s.2)
      (Bindings.insertAll σ (List.range' s.1.nextValue types.length) args) Q →
    ∃ values s₁ operands, Q values s₁ σ' ∧
      operandsOf values = .ok (operands, outTypes) ∧ σ'.operands operands = .ok outs

theorem inRegion_eq_ok {primitive : Primitive} {types outs : List ArrayType} {r : Region}
    {body : List Value → Traced ρ ε (List Value)}
    (h : inRegion primitive types body s = (.ok (r, outs), s')) :
    ∃ values s₁ results,
      body (s.1.openRegion types).1 ((s.1.openRegion types).2, s.2) = (.ok values, s₁) ∧
      operandsOf values = .ok (results, outs) ∧ r = { s₁.1.closeRegion.1 with results } ∧
      s' = (s₁.1.closeRegion.2, s₁.2) := by
  obtain ⟨t, j⟩ := s
  simp only [inRegion] at h
  rcases hx : body (t.openRegion types).1 ((t.openRegion types).2, j) with ⟨(e | values), t', j'⟩
  · rw [hx] at h
    cases e <;> cases h
  rw [hx] at h
  rcases hresults : operandsOf values with f | ⟨results, outs'⟩
  · simp only [hresults] at h
    cases h
  simp only [hresults] at h
  cases h
  exact ⟨values, (t', j'), results, rfl, hresults, rfl, rfl⟩

theorem recorded_inRegion {primitive : Primitive} {types outs : List ArrayType} {r : Region}
    {body : List Value → Traced ρ ε (List Value)} [hg : ∀ args, Step.Grows Prod.fst (body args)]
    (hs : s.1.Numbered) (h : inRegion primitive types body s = (.ok (r, outs), s')) :
    Recorded body types outs s r s' := by
  obtain ⟨values, s₁, results, hbody, hresults, rfl, rfl⟩ := inRegion_eq_ok h
  have hopened := numbered_openRegion hs types
  obtain ⟨nodes, happ⟩ := (hg _).appends (s := ((s.1.openRegion types).2, s.2)) hopened hbody
  obtain ⟨hregion, hnothing⟩ := happ.closeRegion
  have hnext := openRegion_nextValue s.1 types
  have hgrown := happ.nextValue
  have hclosed : s₁.1.closeRegion.2.nextValue = s₁.1.nextValue := rfl
  simp only at hgrown
  rw [hregion]
  -- a binder is a parameter, or bound by a node that the callback has added
  refine ⟨hnothing, fun id hid => ?_, fun {args found σ σ' Q} hrun hrecords => ?_⟩
  · rcases List.mem_append.mp hid with hparam | hnode
    · have := List.mem_range'_1.mp hparam
      simp only
      omega
    · have := happ.binders id hnode
      simp only at this ⊢
      omega
  · obtain ⟨hnodes, houts⟩ := hrun.nodes
    exact ⟨values, s₁, results, hrecords hopened values s₁ hbody nodes happ σ' hnodes, hresults,
      houts⟩

theorem Recorded.binders_append {body body' : List Value → Traced ρ ε (List Value)}
    {types types' outs outs' : List ArrayType} {r r' : Region} {s₁ s₂ : Tracer × ρ}
    (h : Recorded body types outs s r s₁) (h' : Recorded body' types' outs' s₁ r' s₂) :
    ∀ id ∈ r.binders ++ r'.binders, s.1.nextValue ≤ id ∧ id < s₂.1.nextValue := by
  intro id hid
  have hgrown := h.nothing.nextValue
  have hgrown' := h'.nothing.nextValue
  rcases List.mem_append.mp hid with hid | hid
  · have := h.binders id hid
    omega
  · have := h'.binders id hid
    omega

/-! ## Primitives that work -/

theorem bind_session_eq_ok {β : Type} {primitive : Primitive} {f : Unit → Traced ρ (Failure ε) β}
    {b : β} (h : (requireSession primitive >>= f) s = (.ok b, s')) : f ⟨⟩ s = (.ok b, s') := by
  obtain ⟨_, s₁, h₁, h₂⟩ := Step.bind_eq_ok h
  unfold requireSession at h₁
  split at h₁
  · obtain ⟨-, rfl⟩ := Prod.mk.inj h₁
    exact h₂
  · cases h₁

theorem bind_checked_eq_ok {α β : Type} {primitive : Primitive} {x : Except Fault α}
    {f : α → Traced ρ (Failure ε) β} {b : β}
    (h : (checked primitive x >>= f) s = (.ok b, s')) : ∃ a, x = .ok a ∧ f a s = (.ok b, s') := by
  cases x with
  | ok a => exact ⟨a, rfl, h⟩
  | error f => cases h

theorem bindPrimitive_eq_ok {primitive : Primitive} {kind : NodeKind} {inputs : List Operand}
    {outputs before after : List ArrayType} {values : List Value}
    (h : (bindPrimitive primitive kind inputs outputs before after :
      Traced ρ (Failure ε) (List Value)) s = (.ok values, s')) :
    before.map ArrayType.shape = after.map ArrayType.shape ∧
      values = placeholders (List.range' s.1.nextValue outputs.length) outputs ∧
      s'.1 = (s.1.bindNode kind inputs outputs).2 := by
  unfold bindPrimitive at h
  by_cases hshape : before.map ArrayType.shape = after.map ArrayType.shape
  · simp only [hshape, if_true] at h
    obtain ⟨hvalues, rfl⟩ := Prod.mk.inj h
    refine ⟨hshape, ?_, rfl⟩
    rw [← Except.ok.inj hvalues]
    exact congrArg Prod.snd (bindNode_fst s.1 kind inputs outputs)
  · simp only [hshape, if_false] at h
    cases h

/-- A node in place: from `s` on it is all that was added, and the values that it computes are the
newest ones. -/
def Placed (kind : NodeKind) (inputs : List Operand) (outputs : List ArrayType)
    (values : List Value) (s s' : Tracer × ρ) : Prop :=
  ∃ start id, s.1.nextValue ≤ start ∧ s'.1.nextValue = start + outputs.length ∧
    values = placeholders (List.range' start outputs.length) outputs ∧
    s.1.Appends [⟨id, kind, inputs, List.range' start outputs.length⟩] s'.1

theorem placed_bindPrimitive {primitive : Primitive} {kind : NodeKind} {inputs : List Operand}
    {outputs before after : List ArrayType} {values : List Value} {s₁ : Tracer × ρ}
    (hnothing : s.1.Appends [] s₁.1)
    (hbinders : ∀ id ∈ kind.binders, s.1.nextValue ≤ id ∧ id < s₁.1.nextValue)
    (h : (bindPrimitive primitive kind inputs outputs before after :
      Traced ρ (Failure ε) (List Value)) s₁ = (.ok values, s')) :
    Placed kind inputs outputs values s s' := by
  obtain ⟨-, hvalues, hs'⟩ := bindPrimitive_eq_ok h
  refine ⟨s₁.1.nextValue, s₁.1.nextNode, hnothing.nextValue, ?_, hvalues, ?_⟩
  · rw [hs', bindNode_snd, append_nextValue, freshAll_nextValue]
  · rw [hs']
    exact hnothing.bindNode hbinders inputs outputs

/-- The values of a node that ran are read as what it computed. -/
theorem Placed.runs {kind : NodeKind} {inputs : List Operand} {outputs : List ArrayType}
    {values : List Value} (h : Placed kind inputs outputs values s s') {nodes : List Node}
    {σ σ' : Store} (happ : s.1.Appends nodes s'.1) (hrun : RunsTo nodes σ σ') :
    ∃ args outs σ₁, σ.operands inputs = .ok args ∧ kind.Computes args σ outs σ₁ ∧
      (outputs.length = outs.length → List.Forall₂ (σ'.Reads s'.1.nextValue) values outs) := by
  obtain ⟨start, id, -, hnext, rfl, hplaced⟩ := h
  rw [happ.unique hplaced] at hrun
  obtain ⟨fuel, hnode⟩ := hrun.singleton
  obtain ⟨args, outs, σ₁, hargs, hkind, rfl⟩ := runNode_eq_ok hnode
  exact ⟨args, outs, σ₁, hargs, hkind, fun hlen =>
    reads_placeholders hlen (Nat.le_of_eq hnext.symm) σ₁⟩

theorem length_eq_of_checkElems {primitive : Primitive} {expected found : List ArrayType}
    (h : checkElems primitive expected found = .ok ⟨⟩) : expected.length = found.length := by
  have := congrArg List.length (elems_eq_of_checkElems h)
  rwa [List.length_map, List.length_map] at this

theorem cond_eq_ok {predicate : Value} {operands values : List Value}
    {thenBranch elseBranch : List Value → Traced ρ ε (List Value)}
    [∀ args, Step.Grows Prod.fst (thenBranch args)] [∀ args, Step.Grows Prod.fst (elseBranch args)]
    (hs : s.1.Numbered) (h : cond predicate operands thenBranch elseBranch s = (.ok values, s')) :
    ∃ p type inputs types outs outs' r r' s₁ s₂,
      operandOf predicate = .ok (p, type) ∧ operandsOf operands = .ok (inputs, types) ∧
      Recorded thenBranch types outs s r s₁ ∧ Recorded elseBranch types outs' s₁ r' s₂ ∧
      outs.length = outs'.length ∧ Placed (.cond r r') (p :: inputs) outs values s s' := by
  have h₁ := bind_session_eq_ok h
  obtain ⟨⟨p, type⟩, hp, h₂⟩ := bind_checked_eq_ok h₁
  dsimp only at h₂
  split at h₂
  swap
  · cases h₂
  obtain ⟨⟨inputs, types⟩, hinputs, h₃⟩ := bind_checked_eq_ok h₂
  obtain ⟨⟨r, outs⟩, s₁, hthen, h₄⟩ := Step.bind_eq_ok h₃
  obtain ⟨⟨r', outs'⟩, s₂, helse, h₅⟩ := Step.bind_eq_ok h₄
  obtain ⟨_, helems, h₆⟩ := bind_checked_eq_ok h₅
  have hrecorded := recorded_inRegion hs hthen
  have hrecorded' := recorded_inRegion (hrecorded.nothing.numbered hs) helse
  refine ⟨p, type, inputs, types, outs, outs', r, r', s₁, s₂, hp, hinputs, hrecorded, hrecorded',
    length_eq_of_checkElems helems, ?_⟩
  exact placed_bindPrimitive (hrecorded.nothing.trans hrecorded'.nothing)
    (hrecorded.binders_append hrecorded') h₆

theorem forLoop_eq_ok {range : LoopRange} {init values : List Value}
    {body : Value → List Value → Traced ρ ε (List Value)}
    [∀ args, Step.Grows Prod.fst (onIndex body args)] (hs : s.1.Numbered)
    (h : forLoop range init body s = (.ok values, s')) :
    ∃ bounds boundTypes inputs types outs r s₁,
      operandsOf [range.start, range.stop, range.step] = .ok (bounds, boundTypes) ∧
      operandsOf init = .ok (inputs, types) ∧
      Recorded (onIndex body) (.scalar .int :: types) outs s r s₁ ∧
      types.length = outs.length ∧ Placed (.forLoop r) (bounds ++ inputs) outs values s s' := by
  have h₁ := bind_session_eq_ok h
  obtain ⟨⟨bounds, boundTypes⟩, hbounds, h₂⟩ := bind_checked_eq_ok h₁
  rcases hkinds : boundTypes.find? fun type => !isLoopBound type with _ | type
  swap
  · simp only [hkinds] at h₂
    cases h₂
  simp only [hkinds] at h₂
  obtain ⟨⟨inputs, types⟩, hinputs, h₃⟩ := bind_checked_eq_ok h₂
  obtain ⟨⟨r, outs⟩, s₁, hbody, h₄⟩ := Step.bind_eq_ok h₃
  obtain ⟨_, helems, h₅⟩ := bind_checked_eq_ok h₄
  have hrecorded := recorded_inRegion hs hbody
  exact ⟨bounds, boundTypes, inputs, types, outs, r, s₁, hbounds, hinputs, hrecorded,
    length_eq_of_checkElems helems, placed_bindPrimitive hrecorded.nothing hrecorded.binders h₅⟩

theorem whileLoop_eq_ok {init values : List Value} {predicate : List Value → Traced ρ ε Value}
    {body : List Value → Traced ρ ε (List Value)}
    [∀ args, Step.Grows Prod.fst (yieldOne predicate args)]
    [∀ args, Step.Grows Prod.fst (body args)] (hs : s.1.Numbered)
    (h : whileLoop init predicate body s = (.ok values, s')) :
    ∃ inputs types outs test r s₁ s₂, operandsOf init = .ok (inputs, types) ∧
      Recorded (yieldOne predicate) types [.scalar .bool] s test s₁ ∧
      Recorded body types outs s₁ r s₂ ∧ types.length = outs.length ∧
      Placed (.whileLoop test r) inputs outs values s s' := by
  have h₁ := bind_session_eq_ok h
  obtain ⟨⟨inputs, types⟩, hinputs, h₂⟩ := bind_checked_eq_ok h₁
  obtain ⟨⟨test, testTypes⟩, s₁, htest, h₃⟩ := Step.bind_eq_ok h₂
  dsimp only at h₃
  split at h₃
  swap
  · cases h₃
  next htypes =>
  subst htypes
  obtain ⟨⟨r, outs⟩, s₂, hbody, h₄⟩ := Step.bind_eq_ok h₃
  obtain ⟨_, helems, h₅⟩ := bind_checked_eq_ok h₄
  have hrecorded := recorded_inRegion hs htest
  have hrecorded' := recorded_inRegion (hrecorded.nothing.numbered hs) hbody
  refine ⟨inputs, types, outs, test, r, s₁, s₂, hinputs, hrecorded, hrecorded',
    length_eq_of_checkElems helems, ?_⟩
  exact placed_bindPrimitive (hrecorded.nothing.trans hrecorded'.nothing)
    (hrecorded.binders_append hrecorded') h₅

end Tracer

end StagedFlow
