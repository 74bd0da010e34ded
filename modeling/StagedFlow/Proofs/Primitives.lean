import StagedFlow.Exec.Attempt
import StagedFlow.Proofs.Evolution

/-!
What the control-flow primitives do to a tracer. A primitive that works adds the one node whose
values it returns; one that fails has added nothing, or the one node that its failure names. So an
attempt at a block ends with the block's node in place or with no trace in the regions. Main
definitions: `Exec.protocol`, `Tracer.Callback`, `Tracer.Calls`. Main results: `Tracer.calls_cond`,
`Tracer.calls_forLoop`, `Tracer.calls_whileLoop`, `BlockInfo.ensures_attempt`.
-/
set_option autoImplicit false

namespace StagedFlow

/-- How a run may change a tracer and what is reported: nodes are added, and warnings. -/
def Exec.protocol (known : Prop) : Protocol (Tracer × Journal) where
  inv s := s.1.Numbered
  leads s s' := Tracer.Evolves known s.1 s'.1 ∧ s.2.diagnostics <+: s'.2.diagnostics
  refl := fun s _ => ⟨.of_nothing (.refl s.1), List.prefix_rfl⟩
  trans := fun hs h h' => ⟨h.1.trans hs h'.1, h.2.trans h'.2⟩
  keeps := fun hs h => h.1.numbered hs

namespace Tracer

variable {known : Prop} {ε : Type} {t : Tracer}

/-! ## Regions -/

theorem mem_scope_openRegion (types : List ArrayType) (id : Nat) :
    id ∈ (t.openRegion types).2.scope ↔
      id ∈ List.range' t.nextValue types.length ∨ id ∈ t.scope := by
  have hfresh := appends_freshAll t types
  rw [openRegion_snd]
  unfold scope
  simp only [Region.opened, definedBy, List.flatMap_cons, List.flatMap_nil, List.nil_append,
    hfresh.root_eq, hfresh.inputs, List.append_assoc, List.mem_append]

theorem knows_openRegion (ht : t.Numbered) (types : List ArrayType) {v : Value} (hv : t.Knows v) :
    (t.openRegion types).2.Knows v := by
  intro p hp
  obtain ⟨hscope, htype⟩ := hv p hp
  refine ⟨(mem_scope_openRegion types p.1).mpr (Or.inr hscope), ?_⟩
  rw [openRegion_snd]
  exact (appends_freshAll t types).find?_types ht htype

/-- The parameters of a region are known in it. -/
theorem knows_params (types : List ArrayType) :
    ∀ v ∈ (t.openRegion types).1, (t.openRegion types).2.Knows v := by
  intro v hv
  rw [openRegion_fst] at hv
  refine knows_placeholders (fun id hid => ?_) (openRegion_types t types) v hv
  exact (mem_scope_openRegion types id).mpr (Or.inl hid)

/-- A callback that can run wherever the values of `t` are known, on values that are known there. -/
def Callback (known : Prop) (t : Tracer) (body : List Value → Traced Journal ε (List Value)) :
    Prop :=
  ∀ args t' j, (∀ v, t.Knows v → t'.Knows v) → (∀ v ∈ args, t'.Knows v) →
    (body args).Keeps (Exec.protocol known) (t', j) fun values s => known → ∀ v ∈ values, s.1.Knows v

theorem Callback.mono {body : List Value → Traced Journal ε (List Value)} {t t' : Tracer}
    (h : Callback known t body) (ht : ∀ v, t.Knows v → t'.Knows v) : Callback known t' body :=
  fun args u j hu hargs => h args u j (fun v hv => hu v (ht v hv)) hargs

/-- What is left of a primitive that failed. -/
def FailedFrom (s : Tracer × Journal) (failure : Failure ε) (s' : Tracer × Journal) : Prop :=
  s.2.diagnostics <+: s'.2.diagnostics ∧
    match failure.stage with
    | .preBind => s.1.Appends [] s'.1
    | .postBind id => ∃ node, node.id = id ∧ s.1.Appends [node] s'.1

/-- A region between two states of a tracer: it is no part of its own regions, its values are new,
and it takes and yields values of the given types. -/
structure TracedRegion (known : Prop) (s : Tracer × Journal) (r : Region)
    (ins outs : List ArrayType) (s' : Tracer × Journal) : Prop where
  reported : s.2.diagnostics <+: s'.2.diagnostics
  nothing : s.1.Appends [] s'.1
  binders : ∀ id ∈ r.binders, s.1.nextValue ≤ id ∧ id < s'.1.nextValue
  typed : known → r.Typed s'.1.types s.1.scope ins outs

theorem traced_closeRegion {s s' : Tracer × Journal} {types outs : List ArrayType}
    {values : List Value} {results : List Operand} (hs : s.1.Numbered)
    (h : (Exec.protocol known).leads ((s.1.openRegion types).2, s.2) s')
    (hvalues : known → ∀ v ∈ values, s'.1.Knows v)
    (hresults : operandsOf values = .ok (results, outs)) :
    TracedRegion known s { s'.1.closeRegion.1 with results } types outs (s'.1.closeRegion.2, s'.2) := by
  obtain ⟨⟨nodes, happ, htyped⟩, hreported⟩ := h
  obtain ⟨hregion, hnothing⟩ := happ.closeRegion
  have hopened := numbered_openRegion hs types
  rw [hregion]
  refine ⟨hreported, hnothing, ?_, fun hk => ?_⟩
  · intro id hid
    have h1 : (s.1.openRegion types).2.nextValue = s.1.nextValue + types.length := by
      rw [openRegion_snd]
      exact freshAll_nextValue s.1 types
    have h2 := happ.nextValue
    have h3 : s'.1.closeRegion.2.nextValue = s'.1.nextValue := rfl
    rcases List.mem_append.mp hid with hparam | hnode
    · have := List.mem_range'_1.mp hparam
      simp only at h2 ⊢
      omega
    · have := happ.binders id hnode
      simp only at h2 this ⊢
      omega
  · have hscope : ∀ id, id ∈ s'.1.scope →
        id ∈ definedBy nodes ++ (List.range' s.1.nextValue types.length ++ s.1.scope) := by
      intro id hid
      rcases (happ.mem_scope id).mp hid with hnode | hopen
      · exact List.mem_append_left _ hnode
      · exact List.mem_append_right _ (List.mem_append.mpr ((mem_scope_openRegion types id).mp hopen))
    refine ⟨?_, ?_, ?_⟩
    · exact (openRegion_types s.1 types).imp fun id type => happ.find?_types hopened
    · refine nodesTyped_mono (fun _ _ h => h) (fun id hid => ?_) (htyped hk)
      exact List.mem_append.mpr ((mem_scope_openRegion types id).mp hid)
    · exact (operandsOf_haveTypes (hvalues hk) hresults).mono (fun _ _ h => h) fun id hid => hscope id hid

/-- Tracing a region leaves the tracer's own regions alone, whether it works or not. -/
theorem ensures_inRegion {s : Tracer × Journal} {primitive : Primitive} {types : List ArrayType}
    {body : List Value → Traced Journal ε (List Value)} (hs : s.1.Numbered)
    (hbody : Callback known s.1 body) :
    (inRegion primitive types body).Ensures s
      (fun r s' => TracedRegion known s r.1 types r.2 s') (FailedFrom s) := by
  obtain ⟨t, j⟩ := s
  have hopened := numbered_openRegion hs types
  have hrun := hbody (t.openRegion types).1 (t.openRegion types).2 j
    (fun v => knows_openRegion hs types) (knows_params types) hopened
  have hclose : ∀ s', (Exec.protocol known).leads ((t.openRegion types).2, j) s' →
      j.diagnostics <+: s'.2.diagnostics ∧ t.Appends [] s'.1.closeRegion.2 := by
    rintro s' ⟨⟨nodes, happ, -⟩, hreported⟩
    exact ⟨hreported, happ.closeRegion.2⟩
  refine .intro (fun r s' h => ?_) fun f s' h => ?_
  · simp only [inRegion] at h
    rcases hx : body (t.openRegion types).1 ((t.openRegion types).2, j) with ⟨(e | values), t', j'⟩
    · rw [hx] at h
      cases e <;> cases h
    rw [hx] at h
    rcases hresults : operandsOf values with f | ⟨results, outs⟩
    · simp only [hresults] at h
      cases h
    simp only [hresults] at h
    cases h
    obtain ⟨hleads, hvalues⟩ := hrun.of_ok hx
    exact traced_closeRegion (s := (t, j)) hs hleads hvalues hresults
  · simp only [inRegion] at h
    rcases hx : body (t.openRegion types).1 ((t.openRegion types).2, j) with ⟨(e | values), t', j'⟩
    · rw [hx] at h
      cases e with
      | error e =>
        cases h
        exact hclose _ (hrun.of_error hx)
      | crash _ => cases h
      | outOfFuel => cases h
    rw [hx] at h
    rcases hresults : operandsOf values with f | ⟨results, outs⟩
    · simp only [hresults] at h
      cases h
      exact hclose _ (hrun.of_ok hx).1
    · simp only [hresults] at h
      cases h

/-! ## Calls -/

/-- A call of a primitive adds the node that computes its values, and nothing else. -/
def Calls (known : Prop) (call : Traced Journal (Failure ε) (List Value)) (s : Tracer × Journal) :
    Prop :=
  call.Ensures s
    (fun values s' => s.2.diagnostics <+: s'.2.diagnostics ∧
      (∃ node, s.1.Appends [node] s'.1 ∧ (known → nodesTyped s'.1.types [node] s.1.scope)) ∧
      (known → ∀ v ∈ values, s'.1.Knows v))
    (FailedFrom s)

theorem FailedFrom.before {s : Tracer × Journal} (primitive : Primitive) (f : Fault) :
    FailedFrom s (.before primitive f : Failure ε) s :=
  ⟨List.prefix_rfl, .refl s.1⟩

/-- A failure that left nothing behind is one from any state that led here without a trace. -/
theorem FailedFrom.of_nothing {s s₁ s₂ : Tracer × Journal} {failure : Failure ε}
    (hreported : s.2.diagnostics <+: s₁.2.diagnostics) (h : s.1.Appends [] s₁.1)
    (hf : FailedFrom s₁ failure s₂) : FailedFrom s failure s₂ := by
  obtain ⟨hreported', hf⟩ := hf
  refine ⟨hreported.trans hreported', ?_⟩
  split
  · next hstage =>
    rw [hstage] at hf
    exact h.trans hf
  · next id hstage =>
    rw [hstage] at hf
    obtain ⟨node, hid, happ⟩ := hf
    exact ⟨node, hid, h.trans happ⟩

theorem ensures_requireSession (primitive : Primitive) (s : Tracer × Journal) :
    (requireSession primitive : Traced Journal (Failure ε) Unit).Ensures s (fun _ s' => s' = s)
      (FailedFrom s) := by
  unfold requireSession Step.Ensures
  by_cases h : s.1.session
  · simp only [h, if_true]
  · simp only [h]
    exact .before primitive _

theorem ensures_checked {α : Type} (primitive : Primitive) (x : Except Fault α)
    (s : Tracer × Journal) :
    (checked primitive x : Traced Journal (Failure ε) α).Ensures s (fun a s' => x = .ok a ∧ s' = s)
      (FailedFrom s) := by
  cases x with
  | ok a => exact .done ⟨rfl, rfl⟩
  | error f => exact .fail (.before primitive f)

/-- Recording the node of a primitive, whose regions were traced since `s`. -/
theorem ensures_bindPrimitive {s s' : Tracer × Journal} (hs : s.1.Numbered)
    (hreported : s.2.diagnostics <+: s'.2.diagnostics) (h : s.1.Appends [] s'.1)
    (primitive : Primitive) {kind : NodeKind} {inputs : List Operand}
    {outputs before after : List ArrayType}
    (hbinders : ∀ id ∈ kind.binders, s.1.nextValue ≤ id ∧ id < s'.1.nextValue)
    (htyped : before.map ArrayType.shape = after.map ArrayType.shape → known →
      kind.Typed s'.1.types s.1.scope inputs outputs) :
    (bindPrimitive primitive kind inputs outputs before after :
      Traced Journal (Failure ε) (List Value)).Ensures s'
      (fun values s'' => s.2.diagnostics <+: s''.2.diagnostics ∧
        (∃ node, s.1.Appends [node] s''.1 ∧ (known → nodesTyped s''.1.types [node] s.1.scope)) ∧
        (known → ∀ v ∈ values, s''.1.Knows v))
      (FailedFrom s) := by
  obtain ⟨t', j'⟩ := s'
  have happ := h.bindNode hbinders inputs outputs
  unfold bindPrimitive Step.Ensures
  by_cases hshape : before.map ArrayType.shape = after.map ArrayType.shape
  · have hspec := bindNode_spec hs h kind inputs outputs hbinders (htyped hshape)
    simp only [hshape, if_true]
    exact ⟨hreported, ⟨_, happ, hspec.1⟩, fun _ => hspec.2⟩
  · simp only [hshape]
    exact ⟨hreported, _, rfl, happ⟩

/-- Types with the same elements and the same shapes are the same. -/
theorem types_eq {a b : List ArrayType} (helem : a.map ArrayType.elem = b.map ArrayType.elem)
    (hshape : a.map ArrayType.shape = b.map ArrayType.shape) : a = b := by
  induction a generalizing b with
  | nil =>
    cases b with
    | nil => rfl
    | cons _ _ => cases helem
  | cons x a ih =>
    cases b with
    | nil => cases helem
    | cons y b =>
      simp only [List.map_cons, List.cons.injEq] at helem hshape
      obtain ⟨hx, hrest⟩ := helem
      obtain ⟨hx', hrest'⟩ := hshape
      rw [ih hrest hrest']
      cases x
      cases y
      simp_all

theorem elems_eq_of_checkElems {primitive : Primitive} {expected found : List ArrayType}
    (h : checkElems primitive expected found = .ok ⟨⟩) :
    expected.map ArrayType.elem = found.map ArrayType.elem := by
  unfold checkElems at h
  split at h
  · assumption
  · cases h

/-- Two regions traced one after the other, as seen from the end. -/
theorem TracedRegion.then {s s₁ s₂ : Tracer × Journal} {r₁ r₂ : Region}
    {ins₁ outs₁ ins₂ outs₂ : List ArrayType} (hs : s.1.Numbered)
    (h₁ : TracedRegion known s r₁ ins₁ outs₁ s₁) (h₂ : TracedRegion known s₁ r₂ ins₂ outs₂ s₂) :
    TracedRegion known s r₁ ins₁ outs₁ s₂ ∧ TracedRegion known s r₂ ins₂ outs₂ s₂ := by
  have hnothing : s.1.Appends [] s₂.1 := h₁.nothing.trans h₂.nothing
  have hreported := h₁.reported.trans h₂.reported
  have hv₁ := h₁.nothing.nextValue
  have hv₂ := h₂.nothing.nextValue
  have hscope : s₁.1.scope ⊆ s.1.scope := by
    intro id hid
    simpa [definedBy] using (h₁.nothing.mem_scope id).mp hid
  refine ⟨⟨hreported, hnothing, fun id hid => ?_, fun hk => ?_⟩,
    ⟨hreported, hnothing, fun id hid => ?_, fun hk => ?_⟩⟩
  · have := h₁.binders id hid
    omega
  · exact (h₁.typed hk).mono (h₂.nothing.extends (h₁.nothing.numbered hs)) fun _ h => h
  · have := h₂.binders id hid
    omega
  · exact (h₂.typed hk).mono (fun _ _ h => h) hscope

theorem calls_cond {s : Tracer × Journal} {predicate : Value} {operands : List Value}
    {thenBranch elseBranch : List Value → Traced Journal ε (List Value)} (hs : s.1.Numbered)
    (hpredicate : known → s.1.Knows predicate) (hoperands : known → ∀ v ∈ operands, s.1.Knows v)
    (hthen : Callback known s.1 thenBranch) (helse : Callback known s.1 elseBranch) :
    Calls known (cond predicate operands thenBranch elseBranch) s := by
  unfold Calls cond
  refine .bind ((ensures_requireSession _ s).mono ?_ fun _ _ h => h)
  rintro ⟨⟩ _ rfl
  refine .bind ((ensures_checked _ _ _).mono ?_ fun _ _ h => h)
  rintro ⟨p, type⟩ _ ⟨hp, rfl⟩
  dsimp only
  split
  swap
  · exact .bind (.fail (.before _ _))
  next hscalar =>
  refine .bind ((ensures_checked _ _ _).mono ?_ fun _ _ h => h)
  rintro ⟨inputs, types⟩ _ ⟨hinputs, rfl⟩
  refine .bind ((ensures_inRegion hs hthen).mono ?_ fun _ _ h => h)
  rintro ⟨thenRegion, thenTypes⟩ s₁ h₁
  have hs₁ := h₁.nothing.numbered hs
  have helse₁ := helse.mono fun v hv => h₁.nothing.knows hs hv
  refine .bind ((ensures_inRegion hs₁ helse₁).mono ?_
    fun _ _ h => h.of_nothing h₁.reported h₁.nothing)
  rintro ⟨elseRegion, elseTypes⟩ s₂ h₂
  obtain ⟨hthenRegion, helseRegion⟩ := h₁.then hs h₂
  refine .bind ((ensures_checked _ _ _).mono ?_
    fun _ _ h => h.of_nothing hthenRegion.reported hthenRegion.nothing)
  rintro ⟨⟩ _ ⟨helems, rfl⟩
  refine ensures_bindPrimitive hs hthenRegion.reported hthenRegion.nothing _ (fun id hid => ?_)
    fun hshape hk => ?_
  · rcases List.mem_append.mp hid with hid | hid
    · exact hthenRegion.binders id hid
    · exact helseRegion.binders id hid
  · have htypes := types_eq (elems_eq_of_checkElems helems) hshape
    have hext := hthenRegion.nothing.extends hs
    refine ⟨type, types, .cons ?_ ?_, hscalar, hthenRegion.typed hk, ?_⟩
    · exact (operandOf_hasType (hpredicate hk) hp).mono hext fun _ h => h
    · exact (operandsOf_haveTypes (hoperands hk) hinputs).mono hext fun _ h => h
    · rw [htypes]
      exact helseRegion.typed hk

theorem calls_forLoop {s : Tracer × Journal} {range : LoopRange} {init : List Value}
    {body : Value → List Value → Traced Journal ε (List Value)} (hs : s.1.Numbered)
    (hrange : known → ∀ v ∈ [range.start, range.stop, range.step], s.1.Knows v)
    (hinit : known → ∀ v ∈ init, s.1.Knows v) (hbody : Callback known s.1 (onIndex body)) :
    Calls known (forLoop range init body) s := by
  unfold Calls forLoop
  refine .bind ((ensures_requireSession _ s).mono ?_ fun _ _ h => h)
  rintro ⟨⟩ _ rfl
  refine .bind ((ensures_checked _ _ _).mono ?_ fun _ _ h => h)
  rintro ⟨bounds, boundTypes⟩ _ ⟨hbounds, rfl⟩
  dsimp only
  split
  · exact .bind (.fail (.before _ _))
  next hkinds =>
  refine .bind ((ensures_checked _ _ _).mono ?_ fun _ _ h => h)
  rintro ⟨inputs, types⟩ _ ⟨hinputs, rfl⟩
  refine .bind ((ensures_inRegion hs hbody).mono ?_ fun _ _ h => h)
  rintro ⟨region, found⟩ s₁ h₁
  refine .bind ((ensures_checked _ _ _).mono ?_
    fun _ _ h => h.of_nothing h₁.reported h₁.nothing)
  rintro ⟨⟩ _ ⟨helems, rfl⟩
  refine ensures_bindPrimitive hs h₁.reported h₁.nothing _ h₁.binders fun hshape hk => ?_
  have htypes := types_eq (elems_eq_of_checkElems helems) hshape
  subst htypes
  have hext := h₁.nothing.extends hs
  have hbound := (operandsOf_haveTypes (hrange hk) hbounds).mono hext fun _ h => h
  refine ⟨boundTypes, List.rel_append hbound ?_, ?_, ?_, h₁.typed hk⟩
  · exact (operandsOf_haveTypes (hinit hk) hinputs).mono hext fun _ h => h
  · exact (operandsOf_length hbounds).2
  · intro type htype
    have hnone := Option.eq_none_iff_forall_ne_some.mpr hkinds
    simpa using List.find?_eq_none.mp hnone type htype

theorem calls_whileLoop {s : Tracer × Journal} {init : List Value}
    {predicate : List Value → Traced Journal ε Value}
    {body : List Value → Traced Journal ε (List Value)} (hs : s.1.Numbered)
    (hinit : known → ∀ v ∈ init, s.1.Knows v)
    (hpredicate : Callback known s.1 (yieldOne predicate)) (hbody : Callback known s.1 body) :
    Calls known (whileLoop init predicate body) s := by
  unfold Calls whileLoop
  refine .bind ((ensures_requireSession _ s).mono ?_ fun _ _ h => h)
  rintro ⟨⟩ _ rfl
  refine .bind ((ensures_checked _ _ _).mono ?_ fun _ _ h => h)
  rintro ⟨inputs, types⟩ _ ⟨hinputs, rfl⟩
  refine .bind ((ensures_inRegion hs hpredicate).mono ?_ fun _ _ h => h)
  rintro ⟨condRegion, condTypes⟩ s₁ h₁
  have hs₁ := h₁.nothing.numbered hs
  have hbody₁ := hbody.mono fun v hv => h₁.nothing.knows hs hv
  dsimp only
  split
  swap
  · exact .bind (.fail (FailedFrom.of_nothing h₁.reported h₁.nothing (.before _ _)))
  next hcond =>
  subst hcond
  refine .bind ((ensures_inRegion hs₁ hbody₁).mono ?_
    fun _ _ h => h.of_nothing h₁.reported h₁.nothing)
  rintro ⟨region, found⟩ s₂ h₂
  obtain ⟨hcondRegion, hregion⟩ := h₁.then hs h₂
  refine .bind ((ensures_checked _ _ _).mono ?_
    fun _ _ h => h.of_nothing hregion.reported hregion.nothing)
  rintro ⟨⟩ _ ⟨helems, rfl⟩
  refine ensures_bindPrimitive hs hregion.reported hregion.nothing _ (fun id hid => ?_)
    fun hshape hk => ?_
  · rcases List.mem_append.mp hid with hid | hid
    · exact hcondRegion.binders id hid
    · exact hregion.binders id hid
  · have htypes := types_eq (elems_eq_of_checkElems helems) hshape
    subst htypes
    refine ⟨?_, hcondRegion.typed hk, hregion.typed hk⟩
    exact (operandsOf_haveTypes (hinit hk) hinputs).mono (hregion.nothing.extends hs) fun _ h => h

end Tracer

/-! ## Planned faults -/

namespace FaultPlan

open Tracer

variable {known : Prop}

/-- A call that is made to fail after it has worked names the node that it added. -/
theorem calls_failAfter {s : Tracer × Journal} (primitive : Primitive)
    {call : Traced Journal (Failure RunError) (List Value)} (h : Calls known call s) :
    Calls known (failAfter primitive call) s := by
  refine .intro (fun values s' hx => ?_) fun f s' hx => ?_
  · rcases hc : call s with ⟨(e | values'), s''⟩
    · simp only [failAfter, hc] at hx
      cases hx
    · simp only [failAfter, hc] at hx
      cases hx
  · rcases hc : call s with ⟨(e | values'), t'', j''⟩
    · simp only [failAfter, hc] at hx
      obtain ⟨he, rfl⟩ := Prod.mk.inj hx
      cases he
      exact Step.Ensures.of_error h hc
    · simp only [failAfter, hc] at hx
      cases hx
      obtain ⟨hreported, ⟨node, happ, -⟩, -⟩ := Step.Ensures.of_ok h hc
      refine ⟨hreported, node, ?_, happ⟩
      simp [lastNode?, happ.current_eq, Region.extend]

theorem calls_of_eq {t : Tracer} {j j' : Journal}
    {x y : Traced Journal (Failure RunError) (List Value)} (hxy : x (t, j) = y (t, j'))
    (hj : j'.diagnostics = j.diagnostics) (h : Calls known y (t, j')) : Calls known x (t, j) := by
  refine Step.Ensures.of_eq hxy (Step.Ensures.mono h ?_ ?_)
  · rintro values s ⟨hreported, hrest⟩
    exact ⟨hj ▸ hreported, hrest⟩
  · rintro failure s ⟨hreported, hrest⟩
    exact ⟨hj ▸ hreported, hrest⟩

/-- A plan changes when a call fails, but not what a failed call leaves. -/
theorem calls_intercept {t : Tracer} {j : Journal} (plan : Option FaultPlan)
    (primitive : Primitive) {call : Traced Journal (Failure RunError) (List Value)}
    (h : ∀ j', j'.diagnostics = j.diagnostics → Calls known call (t, j')) :
    Calls known (intercept plan primitive call) (t, j) := by
  cases plan with
  | none => exact calls_of_eq rfl rfl (h j rfl)
  | some plan =>
    by_cases hplan : plan.primitive = primitive ∧ j.fired = false
    · by_cases hafter : plan.afterBinding
      · have hafterCall := calls_failAfter primitive (h { j with fired := true } rfl)
        refine calls_of_eq ?_ (by rfl) hafterCall
        simp only [intercept, hplan, hafter, and_self, if_true]
      · let failure : Failure RunError :=
          .before primitive (.type (.reported "injected pre-bind fault"))
        have hbefore : Calls known (Step.fail failure) (t, { j with fired := true }) :=
          .fail (.before _ _)
        refine calls_of_eq ?_ (by rfl) hbefore
        simp only [intercept, hplan, hafter, and_self, if_true]
        rfl
    · refine calls_of_eq ?_ rfl (h j rfl)
      simp only [intercept, hplan, if_false]

end FaultPlan

/-! ## Attempts -/

namespace BlockInfo

open Tracer

variable {known : Prop}

/-- What an attempt that began in `s` comes to: the block's node is in place and computes the values
that are handed on, or nothing is left but numbers that were issued. -/
def Attempted (b : BlockInfo) (known : Prop) (s : Tracer × Journal) (a : Attempt)
    (s' : Tracer × Journal) : Prop :=
  match a with
  | .committed values => Evolves known s.1 s'.1 ∧ (known → ∀ v ∈ values, s'.1.Knows v)
  | .fallback d => s.1.Appends [] s'.1 ∧ ∃ stage e, d = b.primitiveFallback stage e

section Equations

variable {b : BlockInfo} {strict : Bool} {s : Tracer × Journal}
  {call : Traced Journal (Failure RunError) (List Value)}

theorem attempt_of_ok {values : List Value} {s' : Tracer × Journal}
    (h : call s = (.ok values, s')) :
    b.attempt strict call s = (.ok (.committed values), s') := by
  simp only [attempt, supervise, if_true, h]

theorem attempt_of_preBind {failure : Failure RunError} {s' : Tracer × Journal}
    (h : call s = (.error (.error failure), s')) (hstage : failure.stage = .preBind) :
    b.attempt strict call s =
      Step.ofExcept (b.settle strict .preBind failure.cause.error) s' := by
  simp only [attempt, supervise, if_true, h, hstage, Step.ofExcept_apply]

theorem attempt_of_postBind {failure : Failure RunError} {id : Nat} {t t' : Tracer} {j : Journal}
    (h : call s = (.error (.error failure), (t, j))) (hstage : failure.stage = .postBind id)
    (hretract : retract id t = (.ok ⟨⟩, t')) :
    b.attempt strict call s =
      Step.ofExcept (b.settle strict (.postBind id) failure.cause.error) (t', j) := by
  simp only [attempt, supervise, if_true, h, hstage, hretract, Step.ofExcept_apply]

end Equations

theorem ensures_settle (b : BlockInfo) (strict : Bool) (stage : Stage) (e : RunError)
    {s s' : Tracer × Journal} (hreported : s.2.diagnostics <+: s'.2.diagnostics)
    (hnothing : s.1.Appends [] s'.1) :
    Step.Ensures (Step.ofExcept (b.settle strict stage e)) s'
      (fun a s' => s.2.diagnostics <+: s'.2.diagnostics ∧ b.Attempted known s a s')
      (fun _ s' => s.2.diagnostics <+: s'.2.diagnostics ∧ s.1.Appends [] s'.1) := by
  unfold settle
  split
  · exact Step.Ensures.fail ⟨hreported, hnothing⟩
  · exact Step.Ensures.done ⟨hreported, hnothing, stage, e, rfl⟩

/-- An attempt ends with the block's node in place, or without a trace in the regions. -/
theorem ensures_attempt (b : BlockInfo) (strict : Bool) {s : Tracer × Journal}
    {call : Traced Journal (Failure RunError) (List Value)} (hs : s.1.Numbered)
    (h : Calls known call s) :
    (b.attempt strict call).Ensures s
      (fun a s' => s.2.diagnostics <+: s'.2.diagnostics ∧ b.Attempted known s a s')
      (fun _ s' => s.2.diagnostics <+: s'.2.diagnostics ∧ s.1.Appends [] s'.1) := by
  rcases hc : call s with ⟨(e | values), t', j'⟩
  · cases e with
    | crash _ =>
      unfold Step.Ensures
      simp only [attempt, supervise, if_true, hc]
    | outOfFuel =>
      unfold Step.Ensures
      simp only [attempt, supervise, if_true, hc]
    | error failure =>
      obtain ⟨hreported, hfailed⟩ := Step.Ensures.of_error h hc
      rcases hstage : failure.stage with _ | id
      · rw [hstage] at hfailed
        exact .of_eq (attempt_of_preBind hc hstage)
          (ensures_settle b strict _ _ hreported hfailed)
      · rw [hstage] at hfailed
        -- the failure names the one node that was added, so that nothing is left without it
        obtain ⟨node, rfl, happ⟩ := hfailed
        obtain ⟨t'', hretract, hnothing⟩ := retract_appended hs happ
        exact .of_eq (attempt_of_postBind hc hstage hretract)
          (ensures_settle b strict _ _ hreported hnothing)
  · obtain ⟨hreported, ⟨node, happ, htyped⟩, hvalues⟩ := Step.Ensures.of_ok h hc
    exact .of_eq (attempt_of_ok hc) (.done ⟨hreported, ⟨[node], happ, htyped⟩, hvalues⟩)

end BlockInfo

end StagedFlow
