import StagedFlow.Proofs.Formed
import StagedFlow.Proofs.Primitives
import StagedFlow.Proofs.Scripts

/-!
Nodes as runs record them: their constants are well-formed, a negation has one operand, and the step
of a counted loop is a constant other than zero. Tracing steps keep to such nodes as long as they
are given well-formed values. Main definitions: `Step.Upholds`, `Node.Proper`, `Tracer.Proper`,
`Tracer.Tidy`. Main results: `Tracer.upholds_apply`, `Tracer.tidy_cond`, `Tracer.tidy_forLoop`,
`Tracer.tidy_whileLoop`, `BlockInfo.tidy_attempt`.
-/
set_option autoImplicit false

namespace StagedFlow

/-! ## Steps that keep an invariant -/

namespace Step

variable {σ ρ ε δ α β γ : Type}

/-- The step keeps the invariant `I` however it ends, and its values have the property `Q`. -/
def Upholds (x : Step σ ε α) (I : σ → Prop) (Q : α → Prop) : Prop :=
  ∀ s, I s → x.Ends s (fun a s' => I s' ∧ Q a) (fun _ s' => I s')

namespace Upholds

variable {x : Step σ ε α} {I : σ → Prop} {Q : α → Prop}

theorem bind {f : α → Step σ ε β} {R : β → Prop} (hx : x.Upholds I Q)
    (hf : ∀ a, Q a → (f a).Upholds I R) : (x >>= f).Upholds I R :=
  fun s hs => .bind ((hx s hs).mono (fun a s' h => hf a h.2 s' h.1) fun _ _ h => h)

theorem pure {a : α} (h : Q a) : (Pure.pure a : Step σ ε α).Upholds I Q :=
  fun _ hs => Ends.done ⟨hs, h⟩

theorem done {a : α} (h : Q a) : (Step.done a : Step σ ε α).Upholds I Q :=
  fun _ hs => Ends.done ⟨hs, h⟩

theorem halt {h : Halt ε} : (Step.halt h : Step σ ε α).Upholds I Q :=
  fun _ hs => hs

theorem fail {e : ε} : (Step.fail e : Step σ ε α).Upholds I Q :=
  halt

theorem modify {f : σ → σ} (h : ∀ s, I s → I (f s)) :
    (Step.modify f : Step σ ε Unit).Upholds I fun _ => True :=
  fun s hs => ⟨h s hs, trivial⟩

theorem mapError {f : ε → δ} (h : x.Upholds I Q) : (x.mapError f).Upholds I Q := by
  intro s hs
  have hx := h s hs
  unfold Ends at hx ⊢
  unfold Step.mapError
  rcases hr : x s with ⟨e | a, s'⟩ <;> rw [hr] at hx <;> exact hx

theorem map {f : α → β} {R : β → Prop} (h : x.Upholds I fun a => R (f a)) :
    (f <$> x).Upholds I R := by
  rw [map_eq_pure_bind]
  exact h.bind fun a ha => pure ha

theorem ofExcept {r : Except (Halt ε) α} (h : Makes r Q) : (Step.ofExcept r).Upholds I Q := by
  cases r with
  | ok a => exact done (h a rfl)
  | error e => exact halt

theorem ofFault {r : Except Fault α} (h : Makes r Q) : (Step.ofFault r).Upholds I Q :=
  ofExcept (makes_ofFault h)

theorem mapM {f : γ → Step σ ε α} (items : List γ) (h : ∀ c ∈ items, (f c).Upholds I Q) :
    (items.mapM f).Upholds I fun as => ∀ a ∈ as, Q a := by
  induction items with
  | nil =>
    rw [List.mapM_nil]
    exact pure (by simp)
  | cons c rest ih =>
    rw [List.mapM_cons]
    refine (h c (by simp)).bind fun a ha => ?_
    refine (ih fun c' hc' => h c' (by simp [hc'])).bind fun as has => pure fun b hb => ?_
    rcases List.mem_cons.mp hb with rfl | hb
    · exact ha
    · exact has b hb

theorem onFirst (h : x.Upholds I Q) :
    (x.onFirst : Step (σ × ρ) ε α).Upholds (fun s => I s.1) Q :=
  fun s hs => Ends.onFirst (h s.1 hs)

end Upholds

end Step

/-! ## Nodes -/

/-- All operands of a node, with those that its regions yield. -/
def Node.operands (node : Node) : List Operand :=
  node.inputs ++ node.kind.regions.flatMap Region.results

/-- A node that a run of a program can record. -/
structure Node.Proper (node : Node) : Prop where
  constants : ∀ v, .const v ∈ node.operands → v.Formed
  negation : node.kind = .apply (.logical .not) → node.inputs.length = 1
  step : ∀ body, node.kind = .forLoop body →
    ∃ k : Int64, k ≠ 0 ∧ node.inputs[2]? = some (.const (.int k))

theorem mem_nodesBelow {n : Node} {nodes : List Node} :
    n ∈ nodesBelow nodes ↔ ∃ node ∈ nodes, n = node ∨ n ∈ node.kind.allNodes := by
  induction nodes with
  | nil => simp [nodesBelow]
  | cons node rest ih =>
    obtain ⟨id, kind, inputs, outputs⟩ := node
    simp [nodesBelow, ih, or_assoc]

theorem NodeKind.mem_allNodes {n : Node} {kind : NodeKind} :
    n ∈ kind.allNodes ↔ ∃ r ∈ kind.regions, n ∈ r.allNodes := by
  cases kind <;> simp [allNodes, regions]

theorem Region.mem_allNodes {n : Node} {r : Region} :
    n ∈ r.allNodes ↔ ∃ node ∈ r.nodes, n = node ∨ ∃ r' ∈ node.kind.regions, n ∈ r'.allNodes := by
  obtain ⟨params, nodes, results⟩ := r
  rw [allNodes, mem_nodesBelow]
  simp only [NodeKind.mem_allNodes]

/-- All nodes of a region are proper, at any depth. -/
def Region.Proper (r : Region) : Prop :=
  ∀ node ∈ r.allNodes, node.Proper

theorem Region.proper_iff {r : Region} :
    r.Proper ↔ ∀ node ∈ r.nodes, node.Proper ∧ ∀ r' ∈ node.kind.regions, r'.Proper := by
  constructor
  · intro h node hnode
    refine ⟨h node (mem_allNodes.mpr ⟨node, hnode, Or.inl rfl⟩), fun r' hr' n hn => ?_⟩
    exact h n (mem_allNodes.mpr ⟨node, hnode, Or.inr ⟨r', hr', hn⟩⟩)
  · intro h n hn
    obtain ⟨node, hnode, rfl | ⟨r', hr', hn⟩⟩ := mem_allNodes.mp hn
    · exact (h n hnode).1
    · exact (h node hnode).2 r' hr' n hn

/-! ## Tracers -/

namespace Tracer

/-- All nodes of a tracer are proper, in the root and in the regions that are being traced. -/
def Proper (t : Tracer) : Prop :=
  ∀ r ∈ t.root :: t.openRegions, r.Proper

variable {t t' : Tracer}

theorem Proper.of_eq (ht : t.Proper) (hroot : t'.root = t.root)
    (hopen : t'.openRegions = t.openRegions) : t'.Proper := by
  unfold Proper
  rw [hroot, hopen]
  exact ht

theorem Proper.mapCurrent (ht : t.Proper) {f : Region → Region}
    (hf : ∀ r, r.Proper → (f r).Proper) : (t.mapCurrent f).Proper := by
  intro r hr
  rcases hopen : t.openRegions with _ | ⟨region, rest⟩
  · simp only [Tracer.mapCurrent, hopen, List.mem_singleton] at hr
    rw [hr]
    exact hf _ (ht _ List.mem_cons_self)
  · simp only [Tracer.mapCurrent, hopen, List.mem_cons] at hr
    have hold : ∀ r ∈ t.root :: region :: rest, r.Proper := hopen ▸ ht
    rcases hr with rfl | rfl | hr
    · exact hold _ (by simp)
    · exact hf _ (hold _ (by simp))
    · exact hold r (by simp [hr])

theorem Proper.bindNode (ht : t.Proper) {kind : NodeKind} {inputs : List Operand}
    (hnode : ∀ id outputs, Node.Proper ⟨id, kind, inputs, outputs⟩)
    (hregions : ∀ r ∈ kind.regions, r.Proper) (types : List ArrayType) :
    (t.bindNode kind inputs types).2.Proper := by
  have hfresh := appends_freshAll { t with nextNode := t.nextNode + 1 } types
  rw [bindNode_snd]
  refine Proper.mapCurrent (ht.of_eq hfresh.root_eq hfresh.openRegions_eq) fun r hr => ?_
  rw [Region.proper_iff] at hr ⊢
  intro node hmem
  rcases List.mem_append.mp hmem with hmem | hmem
  · exact hr node hmem
  · rw [List.mem_singleton.mp hmem]
    exact ⟨hnode _ _, hregions⟩

theorem Proper.retract (ht : t.Proper) (id : Nat) : (retract id t).2.Proper := by
  unfold Tracer.retract
  split
  · exact ht
  · refine Proper.mapCurrent ht fun r hr => ?_
    rw [Region.proper_iff] at hr ⊢
    exact fun node hnode => hr node (List.mem_of_mem_eraseP hnode)

theorem Proper.openRegion (ht : t.Proper) (types : List ArrayType) :
    (t.openRegion types).2.Proper := by
  have hfresh := appends_freshAll t types
  rw [openRegion_snd]
  intro r hr
  simp only [List.mem_cons, hfresh.root_eq] at hr
  rcases hr with rfl | rfl | hr
  · exact ht _ (by simp)
  · exact Region.proper_iff.mpr fun node hnode => by cases hnode
  · exact ht r (by simp [hr])

theorem Proper.closeRegion (ht : t.Proper) : t.closeRegion.1.Proper ∧ t.closeRegion.2.Proper := by
  rcases hopen : t.openRegions with _ | ⟨region, rest⟩
  · refine ⟨?_, fun r hr => ht r ?_⟩
    · simp only [Tracer.closeRegion, hopen]
      exact Region.proper_iff.mpr fun node hnode => by cases hnode
    · simpa [Tracer.closeRegion, hopen] using hr
  · refine ⟨ht _ ?_, fun r hr => ht r ?_⟩
    · simp [Tracer.closeRegion, hopen]
    · simp only [Tracer.closeRegion, hopen, List.tail_cons, List.mem_cons] at hr
      rcases hr with rfl | hr <;> simp [*]

/-! ## Operations -/

theorem makes_operandOf {v : Value} (hv : v.Formed) :
    Makes (operandOf v) fun r => ∀ w, r.1 = .const w → w.Formed := by
  rintro ⟨operand, type⟩ h w heq
  cases hv with
  | scalar s =>
    cases h
    cases heq
    exact .scalar s
  | array hform =>
    cases h
    cases heq
    exact .array hform
  | traced id type =>
    cases h
    cases heq
  | _ => cases h

theorem makes_operandsOf {vs : List Value} (hvs : ∀ v ∈ vs, v.Formed) :
    Makes (operandsOf vs) fun r => ∀ v, .const v ∈ r.1 → v.Formed := by
  induction vs with
  | nil => exact makes_ok fun v hv => by cases hv
  | cons w vs ih =>
    refine makes_bind (makes_operandOf (hvs w (by simp))) fun r hr => ?_
    refine makes_bind (ih fun w hw => hvs w (by simp [hw])) fun rs hrs => makes_ok fun v hv => ?_
    rcases List.mem_cons.mp hv with heq | hv
    · exact hr v heq.symm
    · exact hrs v hv

theorem formed_placeholders (ids : List Nat) (types : List ArrayType) :
    ∀ v ∈ placeholders ids types, v.Formed := by
  induction ids generalizing types with
  | nil =>
    intro v hv
    cases hv
  | cons id ids ih =>
    cases types with
    | nil =>
      intro v hv
      cases hv
    | cons type types =>
      intro v hv
      rcases List.mem_cons.mp hv with rfl | hv
      · exact .traced id type
      · exact ih types v hv

/-- An operation on well-formed values; `not` takes one. -/
theorem upholds_apply {op : Op} {args : List Value} (hargs : ∀ v ∈ args, v.Formed)
    (hnot : op = .logical .not → args.length = 1) :
    (apply op args).Upholds Proper Value.Formed := by
  intro t ht
  unfold Step.Ends
  rcases h : apply op args t with ⟨e | v, t'⟩
  · rw [apply_eq_error h]
    exact ht
  rcases apply_eq_ok h with ⟨-, hop, rfl⟩ | ⟨-, operands, types, type, hops, hres, rfl, rfl⟩
  · exact ⟨ht, Op.makes_apply op hargs v hop⟩
  refine ⟨ht.bindNode (fun id outputs => ?_) (by simp [NodeKind.regions]) [type], .traced _ _⟩
  refine ⟨fun v hv => ?_, fun hkind => ?_, fun body hkind => by cases hkind⟩
  · simp only [Node.operands, NodeKind.regions, List.flatMap_nil, List.append_nil] at hv
    exact makes_operandsOf hargs _ hops v hv
  · cases hkind
    rw [← hnot rfl]
    exact (operandsOf_length hops).1

/-! ## Primitives -/

variable {ρ ε : Type}

/-- A step of a tracer and what is kept beside it that keeps to proper nodes, with values of the
property `Q`. -/
abbrev Tidy {α : Type} (x : Traced ρ ε α) (Q : α → Prop) : Prop :=
  x.Upholds (fun s => s.1.Proper) Q

/-- A callback that makes well-formed values of well-formed ones. -/
def TidyBody (body : List Value → Traced ρ ε (List Value)) : Prop :=
  ∀ args, (∀ v ∈ args, v.Formed) → Tidy (body args) fun vs => ∀ v ∈ vs, v.Formed

theorem tidy_requireSession (primitive : Primitive) :
    Tidy (requireSession primitive : Traced ρ (Failure ε) Unit) fun _ => True := by
  intro s hs
  unfold requireSession Step.Ends
  by_cases h : s.1.session
  · simp only [h, if_true, and_true]
    exact hs
  · simp only [h]
    exact hs

theorem tidy_checked {α : Type} {x : Except Fault α} {Q : α → Prop} (primitive : Primitive)
    (h : Makes x Q) : Tidy (checked primitive x : Traced ρ (Failure ε) α) Q := by
  cases x with
  | ok a => exact .done (h a rfl)
  | error f => exact .fail

/-- A region that was traced has proper nodes, and its results are well-formed. -/
def RegionFormed (r : Region) : Prop :=
  r.Proper ∧ ∀ v, .const v ∈ r.results → v.Formed

theorem tidy_inRegion {primitive : Primitive} {types : List ArrayType}
    {body : List Value → Traced ρ ε (List Value)} (hbody : TidyBody body) :
    Tidy (inRegion primitive types body) fun r => RegionFormed r.1 := by
  intro s hs
  have hargs : ∀ v ∈ (s.1.openRegion types).1, v.Formed := by
    rw [openRegion_fst]
    exact formed_placeholders _ _
  refine ends_inRegion (hbody _ hargs _ (hs.openRegion types)) ?_ ?_ ?_ ?_ ?_
  · intro values results outs t r hresults h
    obtain ⟨hregion, hrest⟩ := h.1.closeRegion
    refine ⟨hrest, ?_, makes_operandsOf h.2 _ hresults⟩
    rw [Region.proper_iff] at hregion ⊢
    exact hregion
  · exact fun values f t r h => h.1.closeRegion.2
  · exact fun e t r h => h.closeRegion.2
  · exact fun _ _ h => h
  · exact fun _ h => h

theorem tidy_bindPrimitive {kind : NodeKind} {inputs : List Operand} (primitive : Primitive)
    (outputs before after : List ArrayType)
    (hnode : ∀ id outputs, Node.Proper ⟨id, kind, inputs, outputs⟩)
    (hregions : ∀ r ∈ kind.regions, r.Proper) :
    Tidy (bindPrimitive primitive kind inputs outputs before after :
      Traced ρ (Failure ε) (List Value)) fun vs => ∀ v ∈ vs, v.Formed := by
  intro s hs
  have hnew := hs.bindNode hnode hregions outputs
  unfold bindPrimitive Step.Ends
  by_cases hshape : before.map ArrayType.shape = after.map ArrayType.shape
  · simp only [hshape, if_true]
    have hvalues : ∀ v ∈ (s.1.bindNode kind inputs outputs).1.2, v.Formed := by
      rw [bindNode_fst]
      exact formed_placeholders _ _
    exact ⟨hnew, hvalues⟩
  · simp only [hshape]
    exact hnew

/-- A node with regions is proper if all that it is made of is. -/
theorem proper_primitive {kind : NodeKind} {inputs : List Operand}
    (hinputs : ∀ v, .const v ∈ inputs → v.Formed) (hregions : ∀ r ∈ kind.regions, RegionFormed r)
    (hkind : ∀ op, kind ≠ .apply op)
    (hstep : ∀ body, kind = .forLoop body →
      ∃ k : Int64, k ≠ 0 ∧ inputs[2]? = some (.const (.int k))) (id : Nat) (outputs : List Nat) :
    Node.Proper ⟨id, kind, inputs, outputs⟩ where
  constants := by
    intro v hv
    rcases List.mem_append.mp hv with hv | hv
    · exact hinputs v hv
    · obtain ⟨r, hr, hv⟩ := List.mem_flatMap.mp hv
      exact (hregions r hr).2 v hv
  negation := fun h => absurd h (hkind _)
  step := hstep

theorem tidy_cond {predicate : Value} {operands : List Value}
    {thenBranch elseBranch : List Value → Traced ρ ε (List Value)} (hpredicate : predicate.Formed)
    (hoperands : ∀ v ∈ operands, v.Formed) (hthen : TidyBody thenBranch)
    (helse : TidyBody elseBranch) :
    Tidy (cond predicate operands thenBranch elseBranch) fun vs => ∀ v ∈ vs, v.Formed := by
  unfold cond
  refine (tidy_requireSession _).bind fun _ _ => ?_
  refine (tidy_checked _ (makes_operandOf hpredicate)).bind ?_
  rintro ⟨p, type⟩ hp
  dsimp only
  split
  swap
  · exact Step.Upholds.bind (Q := fun _ => False) .fail fun _ h => h.elim
  refine (tidy_checked _ (makes_operandsOf hoperands)).bind ?_
  rintro ⟨inputs, types⟩ hinputs
  refine (tidy_inRegion hthen).bind ?_
  rintro ⟨thenRegion, thenTypes⟩ hthenRegion
  refine (tidy_inRegion helse).bind ?_
  rintro ⟨elseRegion, elseTypes⟩ helseRegion
  refine (tidy_checked _ (makes_any _)).bind fun _ _ => ?_
  have hregions : ∀ r ∈ (NodeKind.cond thenRegion elseRegion).regions, RegionFormed r := by
    simpa [NodeKind.regions] using And.intro hthenRegion helseRegion
  refine tidy_bindPrimitive _ _ _ _ (proper_primitive (fun v hv => ?_) hregions ?_ ?_)
    fun r hr => (hregions r hr).1
  · rcases List.mem_cons.mp hv with heq | hv
    · exact hp v heq.symm
    · exact hinputs v hv
  · exact fun op h => by cases h
  · exact fun body h => by cases h

/-- The operands for the bounds of a counted loop with a constant step. -/
theorem makes_bounds {start stop : Value} (k : Int64) (hstart : start.Formed)
    (hstop : stop.Formed) : Makes (operandsOf [start, stop, .int k]) fun r =>
      (∀ v, .const v ∈ r.1 → v.Formed) ∧ r.1.length = 3 ∧ r.1[2]? = some (.const (.int k)) := by
  rintro ⟨operands, types⟩ h
  refine ⟨makes_operandsOf (fun v hv => ?_) _ h, (operandsOf_length h).1, ?_⟩
  · simp only [List.mem_cons, List.not_mem_nil, or_false] at hv
    rcases hv with rfl | rfl | rfl
    · exact hstart
    · exact hstop
    · exact .scalar _
  · obtain ⟨_, _, operands₁, _, -, h₁, rfl, -⟩ := operandsOf_cons_eq_ok h
    obtain ⟨_, _, operands₂, _, -, h₂, rfl, -⟩ := operandsOf_cons_eq_ok h₁
    obtain ⟨_, _, operands₃, _, hk, h₃, rfl, -⟩ := operandsOf_cons_eq_ok h₂
    cases hk
    rfl

theorem tidy_forLoop {start stop : Value} {k : Int64} {init : List Value}
    {body : Value → List Value → Traced ρ ε (List Value)} (hstart : start.Formed)
    (hstop : stop.Formed) (hk : k ≠ 0) (hinit : ∀ v ∈ init, v.Formed)
    (hbody : TidyBody (onIndex body)) :
    Tidy (forLoop ⟨start, stop, .int k⟩ init body) fun vs => ∀ v ∈ vs, v.Formed := by
  unfold forLoop
  refine (tidy_requireSession _).bind fun _ _ => ?_
  refine (tidy_checked _ (makes_bounds k hstart hstop)).bind ?_
  rintro ⟨bounds, boundTypes⟩ ⟨hbounds, hlength, hstep⟩
  dsimp only at hbounds hlength hstep ⊢
  split
  · exact Step.Upholds.bind (Q := fun _ => False) .fail fun _ h => h.elim
  refine (tidy_checked _ (makes_operandsOf hinit)).bind ?_
  rintro ⟨inputs, types⟩ hinputs
  refine (tidy_inRegion hbody).bind ?_
  rintro ⟨region, found⟩ hregion
  refine (tidy_checked _ (makes_any _)).bind fun _ _ => ?_
  have hregions : ∀ r ∈ (NodeKind.forLoop region).regions, RegionFormed r := by
    simpa [NodeKind.regions] using hregion
  refine tidy_bindPrimitive _ _ _ _ (proper_primitive (fun v hv => ?_) hregions ?_ ?_)
    fun r hr => (hregions r hr).1
  · exact (List.mem_append.mp hv).elim (hbounds v) (hinputs v)
  · exact fun op h => by cases h
  · refine fun _ _ => ⟨k, hk, ?_⟩
    rw [List.getElem?_append_left (by omega)]
    exact hstep

theorem tidy_whileLoop {init : List Value} {predicate : List Value → Traced ρ ε Value}
    {body : List Value → Traced ρ ε (List Value)} (hinit : ∀ v ∈ init, v.Formed)
    (hpredicate : TidyBody (yieldOne predicate)) (hbody : TidyBody body) :
    Tidy (whileLoop init predicate body) fun vs => ∀ v ∈ vs, v.Formed := by
  unfold whileLoop
  refine (tidy_requireSession _).bind fun _ _ => ?_
  refine (tidy_checked _ (makes_operandsOf hinit)).bind ?_
  rintro ⟨inputs, types⟩ hinputs
  refine (tidy_inRegion hpredicate).bind ?_
  rintro ⟨condRegion, condTypes⟩ hcondRegion
  dsimp only
  split
  swap
  · exact Step.Upholds.bind (Q := fun _ => False) .fail fun _ h => h.elim
  refine (tidy_inRegion hbody).bind ?_
  rintro ⟨region, found⟩ hregion
  refine (tidy_checked _ (makes_any _)).bind fun _ _ => ?_
  have hregions : ∀ r ∈ (NodeKind.whileLoop condRegion region).regions, RegionFormed r := by
    simpa [NodeKind.regions] using And.intro hcondRegion hregion
  refine tidy_bindPrimitive _ _ _ _ (proper_primitive hinputs hregions ?_ ?_)
    fun r hr => (hregions r hr).1
  · exact fun op h => by cases h
  · exact fun body h => by cases h

end Tracer

/-! ## Attempts -/

open Tracer

variable {Q : List Value → Prop} {call : Traced Journal (Failure RunError) (List Value)}

theorem FaultPlan.tidy_intercept (plan : Option FaultPlan) (primitive : Primitive)
    (h : Tidy call Q) : Tidy (intercept plan primitive call) Q := by
  rintro ⟨t, j⟩ ht
  cases plan with
  | none => exact h (t, j) ht
  | some plan =>
    by_cases hplan : plan.primitive = primitive ∧ j.fired = false
    · have hcall := h (t, { j with fired := true }) ht
      unfold Step.Ends at hcall ⊢
      by_cases hafter : plan.afterBinding
      · simp only [intercept, hplan, hafter, and_self, if_true, failAfter]
        rcases hx : call (t, { j with fired := true }) with ⟨e | values, t', j'⟩
        · rw [hx] at hcall
          exact hcall
        · rw [hx] at hcall
          exact hcall.1
      · simp only [intercept, hplan, hafter, and_self, if_true]
        exact ht
    · have heq : intercept (some plan) primitive call (t, j) = call (t, j) := by
        simp only [intercept, hplan, if_false]
      unfold Step.Ends
      rw [heq]
      exact h (t, j) ht

theorem BlockInfo.tidy_settle (b : BlockInfo) (strict : Bool) (stage : Stage) (e : RunError) :
    Tidy (Step.ofExcept (b.settle strict stage e) : Traced Journal RunError Attempt)
      fun a => ∀ values, a = .committed values → Q values := by
  unfold settle
  split
  · exact .fail
  · exact .done fun values h => by cases h

/-- An attempt hands on what the call yields, and takes back the node of one that failed late. -/
theorem BlockInfo.tidy_attempt (b : BlockInfo) (strict : Bool) (h : Tidy call Q) :
    Tidy (b.attempt strict call) fun a => ∀ values, a = .committed values → Q values := by
  intro s hs
  have hcall := h s hs
  unfold Step.Ends at hcall
  rcases hx : call s with ⟨e | values, t', j'⟩
  · rw [hx] at hcall
    cases e with
    | crash reason =>
      unfold Step.Ends
      simp only [attempt, supervise, if_true, hx]
      exact hcall
    | outOfFuel =>
      unfold Step.Ends
      simp only [attempt, supervise, if_true, hx]
      exact hcall
    | error failure =>
      rcases hstage : failure.stage with _ | id
      · unfold Step.Ends
        rw [attempt_of_preBind hx hstage]
        exact tidy_settle b strict _ _ (t', j') hcall
      · have hretracted := hcall.retract id
        rcases hretract : retract id t' with ⟨e | _, t''⟩
        · rw [hretract] at hretracted
          unfold Step.Ends
          simp only [attempt, supervise, if_true, hx, hstage, hretract]
          exact hretracted
        · rw [hretract] at hretracted
          unfold Step.Ends
          rw [attempt_of_postBind hx hstage hretract]
          exact tidy_settle b strict _ _ (t'', j') hretracted
  · rw [hx] at hcall
    unfold Step.Ends
    rw [attempt_of_ok hx]
    refine ⟨hcall.1, fun values' heq => ?_⟩
    cases heq
    exact hcall.2

end StagedFlow
