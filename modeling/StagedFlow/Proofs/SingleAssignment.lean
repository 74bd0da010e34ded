import Mathlib.Algebra.Order.Group.Multiset
import Mathlib.Data.Multiset.UnionInter
import StagedFlow.Proofs.Growth
import StagedFlow.Proofs.Scripts

/-!
Every value of a graph in the making is bound once. Along any script the inputs, the parameters of
regions and the outputs of nodes are distinct values, at every depth and in the regions that are
still open; so are the numbers of nodes, and every value has a type. Main definitions:
`Tracer.SingleAssignment`, `Tracer.Assigned`. Main results: `Tracer.Script.assigned_run`,
`Tracer.Script.singleAssignment_run`.
-/
set_option autoImplicit false

namespace StagedFlow

/-! ## Issued numbers -/

/-- Numbers that were issued below `next`, none of them twice. -/
structure Issued (ids : Multiset Nat) (next : Nat) : Prop where
  nodup : ids.Nodup
  lt : ∀ id ∈ ids, id < next

namespace Issued

variable {ids ids' : Multiset Nat} {next count : Nat}

theorem mono (h : Issued ids next) (hle : ids' ≤ ids) : Issued ids' next :=
  ⟨Multiset.nodup_of_le hle h.nodup, fun id hid => h.lt id (Multiset.mem_of_le hle hid)⟩

/-- The next numbers are different from all that were issued. -/
theorem fresh (h : Issued ids next) :
    Issued (ids + (List.range' next count : Multiset Nat)) (next + count) := by
  constructor
  · rw [Multiset.nodup_add]
    refine ⟨h.nodup, Multiset.coe_nodup.mpr List.nodup_range', ?_⟩
    rw [Multiset.disjoint_left]
    intro id hid hnew
    have hlt := h.lt id hid
    have hle := (List.mem_range'_1.mp (Multiset.mem_coe.mp hnew)).1
    omega
  · intro id hid
    rcases Multiset.mem_add.mp hid with hold | hnew
    · have := h.lt id hold
      omega
    · exact (List.mem_range'_1.mp (Multiset.mem_coe.mp hnew)).2

end Issued

/-! ## The numbers in regions -/

/-- The numbers of the nodes of a region, at any depth. -/
def Region.numbers (r : Region) : List Nat :=
  r.allNodes.map Node.id

theorem nodesBelow_append (a b : List Node) :
    nodesBelow (a ++ b) = nodesBelow a ++ nodesBelow b := by
  induction a with
  | nil => rfl
  | cons node rest ih =>
    obtain ⟨id, kind, inputs, outputs⟩ := node
    simp only [List.cons_append, nodesBelow, ih, List.append_assoc]

theorem NodeKind.binders_eq (kind : NodeKind) :
    kind.binders = kind.regions.flatMap Region.binders := by
  cases kind <;> simp [NodeKind.binders, NodeKind.regions]

theorem NodeKind.numbers_eq (kind : NodeKind) :
    kind.allNodes.map Node.id = kind.regions.flatMap Region.numbers := by
  cases kind <;> simp [NodeKind.allNodes, NodeKind.regions, Region.numbers]

theorem Region.binders_extend (r : Region) (node : Node) :
    (r.extend [node]).binders =
      r.binders ++ (node.outputs ++ node.kind.regions.flatMap Region.binders) := by
  obtain ⟨params, nodes, results⟩ := r
  obtain ⟨id, kind, inputs, outputs⟩ := node
  simp [Region.extend, Region.binders, bindersOf_append, bindersOf, NodeKind.binders_eq]

theorem Region.numbers_extend (r : Region) (node : Node) :
    (r.extend [node]).numbers =
      r.numbers ++ ([node.id] ++ node.kind.regions.flatMap Region.numbers) := by
  obtain ⟨params, nodes, results⟩ := r
  obtain ⟨id, kind, inputs, outputs⟩ := node
  simp [Region.extend, Region.numbers, Region.allNodes, nodesBelow_append, nodesBelow,
    NodeKind.numbers_eq]

theorem Region.binders_results (r : Region) (results : List Operand) :
    { r with results }.binders = r.binders := by
  cases r
  rfl

theorem Region.numbers_results (r : Region) (results : List Operand) :
    { r with results }.numbers = r.numbers := by
  cases r
  rfl

/-- A region without one of its nodes. -/
def Region.without (r : Region) (id : Nat) : Region :=
  { r with nodes := r.nodes.eraseP fun node => node.id == id }

theorem eraseP_of_find? {nodes : List Node} {id : Nat} {node : Node}
    (h : nodes.find? (fun node => node.id == id) = some node) :
    ∃ a b, nodes = a ++ node :: b ∧ nodes.eraseP (fun node => node.id == id) = a ++ b := by
  obtain ⟨hid, a, b, rfl, ha⟩ := List.find?_eq_some_iff_append.mp h
  refine ⟨a, b, rfl, ?_⟩
  rw [List.eraseP_append_right]
  · rw [List.eraseP_cons_of_pos]
    exact hid
  · intro other hother
    simpa using ha other hother

/-- The outputs of a node that is taken out are lost to the region. -/
theorem Region.binders_without {r : Region} {id : Nat} {node : Node}
    (h : r.nodes.find? (fun node => node.id == id) = some node) :
    ((r.without id).binders : Multiset Nat) + (node.outputs : Multiset Nat) ≤ r.binders := by
  obtain ⟨params, nodes, results⟩ := r
  obtain ⟨number, kind, inputs, outputs⟩ := node
  obtain ⟨a, b, rfl, herase⟩ := eraseP_of_find? h
  simp only [Region.without, herase, Region.binders, bindersOf_append, bindersOf,
    ← Multiset.coe_add]
  calc (params : Multiset Nat) + (bindersOf a + bindersOf b) + outputs
      ≤ (params : Multiset Nat) + (bindersOf a + bindersOf b) + outputs + kind.binders :=
        Multiset.le_add_right _ _
    _ = params + (bindersOf a + (outputs + (kind.binders + bindersOf b))) := by ac_rfl

theorem Region.numbers_without (r : Region) (id : Nat) :
    ((r.without id).numbers : Multiset Nat) ≤ r.numbers := by
  obtain ⟨params, nodes, results⟩ := r
  rcases h : nodes.find? fun node => node.id == id with _ | node
  · have hnone := List.find?_eq_none.mp h
    simp only [Region.without, List.eraseP_of_forall_not hnone, le_refl]
  · obtain ⟨number, kind, inputs, outputs⟩ := node
    obtain ⟨a, b, rfl, herase⟩ := eraseP_of_find? h
    simp only [Region.without, herase, Region.numbers, Region.allNodes, nodesBelow_append,
      nodesBelow, List.map_append, List.map_cons]
    refine Multiset.coe_le.mpr (List.Sublist.subperm ?_)
    refine List.Sublist.append_left ?_ _
    exact ((List.sublist_append_right _ _)).trans (List.sublist_cons_self _ _)

namespace Tracer

/-! ## The numbers in a tracer -/

/-- What a function finds in the regions of a tracer, and in regions that are held beside it. -/
def contents (f : Region → List Nat) (t : Tracer) (held : List Region) : Multiset Nat :=
  ((t.root :: (t.openRegions ++ held)).flatMap f : List Nat)

variable {f : Region → List Nat} {t : Tracer} {held : List Region}

theorem contents_congr {u : Tracer} (hroot : t.root = u.root)
    (hopen : t.openRegions = u.openRegions) : contents f t held = contents f u held := by
  unfold contents
  rw [hroot, hopen]

theorem contents_append (more : List Region) :
    contents f t (held ++ more) = contents f t held + (more.flatMap f : List Nat) := by
  simp [contents, ← Multiset.coe_add, add_assoc]

/-- The current region counts like any other. -/
theorem contents_mapCurrent (f : Region → List Nat) (t : Tracer) (held : List Region) :
    ∃ rest : Multiset Nat, contents f t held = f t.current + rest ∧
      ∀ g, contents f (t.mapCurrent g) held = f (g t.current) + rest := by
  rcases ho : t.openRegions with _ | ⟨region, rest⟩
  · refine ⟨(held.flatMap f : List Nat), ?_, fun g => ?_⟩
    · simp [contents, current, ho]
    · simp [contents, mapCurrent, current, ho]
  · refine ⟨(f t.root : Multiset Nat) + ((rest ++ held).flatMap f : List Nat), ?_, fun g => ?_⟩
    · simp only [contents, current, ho, List.cons_append, List.flatMap_cons, List.headD_cons,
        ← Multiset.coe_add]
      ac_rfl
    · simp only [contents, mapCurrent, current, ho, List.cons_append, List.flatMap_cons,
        List.headD_cons, ← Multiset.coe_add]
      ac_rfl

theorem contents_openRegion (types : List ArrayType) :
    contents f (t.openRegion types).2 held =
      contents f t held + (f (.opened (List.range' t.nextValue types.length)) : List Nat) := by
  have hroot : (t.openRegion types).2.root = t.root := by
    rw [openRegion_snd]
    exact (appends_freshAll t types).root_eq
  have hopen : (t.openRegion types).2.openRegions =
      .opened (List.range' t.nextValue types.length) :: t.openRegions := by rw [openRegion_snd]
  simp only [contents, hroot, hopen, List.cons_append, List.flatMap_cons, ← Multiset.coe_add]
  ac_rfl

/-- A region that is closed is held from then on. -/
theorem contents_closeRegion (hdefault : f default = [])
    (hresults : ∀ (r : Region) results, f { r with results } = f r) (results : List Operand) :
    contents f t.closeRegion.2 (held ++ [{ t.closeRegion.1 with results }]) = contents f t held := by
  rw [contents_append, List.flatMap_singleton, hresults]
  rcases ho : t.openRegions with _ | ⟨region, rest⟩
  · simp [contents, closeRegion, ho, hdefault]
  · simp only [contents, closeRegion, ho, List.headD_cons, List.tail_cons, List.cons_append,
      List.flatMap_cons, ← Multiset.coe_add]
    ac_rfl

/-- The values that are bound in a tracer and in the regions held beside it. -/
def valuesWith (t : Tracer) (held : List Region) : Multiset Nat :=
  t.inputs + contents Region.binders t held

/-- The numbers of the nodes in a tracer and in the regions held beside it. -/
def numbersWith (t : Tracer) (held : List Region) : Multiset Nat :=
  contents Region.numbers t held

/-- Every value is bound once, was issued and has a type; every node has its own number. -/
structure Assigned (t : Tracer) (held : List Region) : Prop where
  values : Issued (t.valuesWith held) t.nextValue
  typed : ∀ id ∈ t.valuesWith held, (Bindings.find? t.types id).isSome
  numbers : Issued (t.numbersWith held) t.nextNode

/-- Values that were given types have them. -/
theorem isSome_of_forall₂ {table : TypeTable} {ids : List Nat} {types : List ArrayType}
    (h : List.Forall₂ (fun id type => Bindings.find? table id = some type) ids types) :
    ∀ id ∈ ids, (Bindings.find? table id).isSome := by
  induction h with
  | nil => simp
  | cons hid _ ih =>
    intro id hm
    rcases List.mem_cons.mp hm with rfl | hm
    · exact Option.isSome_of_eq_some hid
    · exact ih id hm

namespace Assigned

/-- A step that binds nothing but new values, and types them, keeps the invariant. -/
theorem step {t' : Tracer} {held' : List Region} (h : t.Assigned held) (values nodes : Nat)
    (hvalues : t'.valuesWith held' ≤
      t.valuesWith held + (List.range' t.nextValue values : List Nat))
    (hnextValue : t'.nextValue = t.nextValue + values)
    (hold : ∀ id < t.nextValue, Bindings.find? t'.types id = Bindings.find? t.types id)
    (hnew : ∀ id ∈ List.range' t.nextValue values, (Bindings.find? t'.types id).isSome)
    (hnumbers : t'.numbersWith held' ≤
      t.numbersWith held + (List.range' t.nextNode nodes : List Nat))
    (hnextNode : t'.nextNode = t.nextNode + nodes) : t'.Assigned held' where
  values := by
    rw [hnextValue]
    exact h.values.fresh.mono hvalues
  typed id hid := by
    rcases Multiset.mem_add.mp (Multiset.mem_of_le hvalues hid) with hm | hm
    · rw [hold id (h.values.lt id hm)]
      exact h.typed id hm
    · exact hnew id hm
  numbers := by
    rw [hnextNode]
    exact h.numbers.fresh.mono hnumbers

/-- Where nothing is new, there may be less of the old. -/
theorem shrink {t' : Tracer} {held' : List Region} (h : t.Assigned held)
    (hvalues : t'.valuesWith held' ≤ t.valuesWith held) (hnextValue : t'.nextValue = t.nextValue)
    (htypes : t'.types = t.types) (hnumbers : t'.numbersWith held' ≤ t.numbersWith held)
    (hnextNode : t'.nextNode = t.nextNode) : t'.Assigned held' :=
  h.step 0 0 (by simpa using hvalues) hnextValue
    (fun id _ => by rw [htypes]) (fun id hid => by simp at hid) (by simpa using hnumbers) hnextNode

theorem drop {more : List Region} (h : t.Assigned (held ++ more)) : t.Assigned held := by
  refine h.shrink ?_ rfl rfl ?_ rfl
  · unfold valuesWith
    rw [contents_append, ← add_assoc]
    exact Multiset.le_add_right _ _
  · unfold numbersWith
    rw [contents_append]
    exact Multiset.le_add_right _ _

theorem input (h : t.Assigned held) (type : ArrayType) : (t.input type).2.Assigned held := by
  refine h.step 1 0 ?_ rfl (fun id hid => ?_) (fun id hid => ?_) ?_ rfl
  · show ((t.inputs ++ [t.nextValue] : List Nat) : Multiset Nat) + contents Region.binders t held ≤ _
    rw [valuesWith, ← Multiset.coe_add]
    exact le_of_eq (by simp only [List.range'_one]; ac_rfl)
  · exact (Bindings.find?_cons ..).trans (if_neg (by omega))
  · have hid : id = t.nextValue := by simpa using hid
    subst hid
    exact Option.isSome_of_eq_some ((Bindings.find?_cons ..).trans (if_pos rfl))
  · exact Multiset.le_add_right _ _

theorem openRegion (h : t.Assigned held) (types : List ArrayType) :
    (t.openRegion types).2.Assigned held := by
  have hfresh := appends_freshAll t types
  have hinputs : (t.openRegion types).2.inputs = t.inputs := by
    rw [openRegion_snd]
    exact hfresh.inputs
  refine h.step types.length 0 ?_ ?_ (fun id hid => ?_) (fun id hid => ?_) ?_ ?_
  · rw [valuesWith, contents_openRegion, hinputs, ← add_assoc]
    exact le_of_eq (by simp [Region.opened, Region.binders, bindersOf, valuesWith])
  · rw [openRegion_snd]
    exact freshAll_nextValue t types
  · rw [openRegion_snd]
    exact find?_freshAll_of_old t types (Or.inl hid)
  · exact isSome_of_forall₂ (openRegion_types t types) id hid
  · rw [numbersWith, contents_openRegion]
    exact le_of_eq (by simp [Region.opened, Region.numbers, Region.allNodes, nodesBelow, numbersWith])
  · rw [openRegion_snd, freshAll_tracer]
    rfl

/-- A region that is closed is held from then on. -/
theorem closeRegion (h : t.Assigned held) (results : List Operand) :
    t.closeRegion.2.Assigned (held ++ [{ t.closeRegion.1 with results }]) := by
  refine h.shrink ?_ rfl rfl ?_ rfl
  · rw [valuesWith, contents_closeRegion rfl Region.binders_results]
    exact le_refl _
  · rw [numbersWith, contents_closeRegion rfl Region.numbers_results]
    exact le_refl _

theorem contents_bindNode (f : Region → List Nat) (kind : NodeKind) (inputs : List Operand)
    (types : List ArrayType) :
    contents f (t.bindNode kind inputs types).2 held =
      contents f (t.append [t.newNode kind inputs types]) held := by
  have hfresh := appends_freshAll { t with nextNode := t.nextNode + 1 } types
  obtain ⟨hroot, hopen⟩ := append_congr (u := t) hfresh.root_eq hfresh.openRegions_eq
    [t.newNode kind inputs types]
  rw [bindNode_snd]
  exact contents_congr hroot hopen

/-- A node that is recorded takes over the regions that were held for it. -/
theorem bindNode {kind : NodeKind} (h : t.Assigned (held ++ kind.regions)) (inputs : List Operand)
    (types : List ArrayType) : (t.bindNode kind inputs types).2.Assigned held := by
  have hinputs : (t.bindNode kind inputs types).2.inputs = t.inputs := by
    rw [bindNode_snd, append_inputs, freshAll_tracer]
  refine h.step types.length 1 ?_ ?_ (fun id hid => find?_bindNode_of_old t kind inputs types hid)
    (isSome_of_forall₂ (bindNode_types t kind inputs types)) ?_ ?_
  · obtain ⟨rest, hrest, hmap⟩ := contents_mapCurrent Region.binders t held
    rw [valuesWith, valuesWith, hinputs, contents_bindNode, contents_append, hrest, append, hmap,
      Region.binders_extend]
    simp only [newNode, ← Multiset.coe_add]
    exact le_of_eq (by ac_rfl)
  · rw [bindNode_snd, append_nextValue]
    exact freshAll_nextValue _ types
  · obtain ⟨rest, hrest, hmap⟩ := contents_mapCurrent Region.numbers t held
    rw [numbersWith, numbersWith, contents_bindNode, contents_append, hrest, append, hmap,
      Region.numbers_extend, List.range'_one]
    simp only [newNode, ← Multiset.coe_add]
    exact le_of_eq (by ac_rfl)
  · rw [bindNode_snd, append_nextNode, freshAll_tracer]

theorem retract (h : t.Assigned held) (id : Nat) : (t.retract id).2.Assigned held := by
  rcases hfind : t.current.nodes.find? fun node => node.id == id with _ | node
  · have hsame : (t.retract id).2 = t := by simp only [Tracer.retract, hfind]
    rw [hsame]
    exact h
  · have hstep : (t.retract id).2 = { t.mapCurrent (·.without id) with
        types := node.outputs.foldl Bindings.erase t.types } := by
      simp only [Tracer.retract, hfind, mapCurrent_types]
      rfl
    rw [hstep]
    have hlost : (t.mapCurrent (·.without id)).valuesWith held + node.outputs ≤
        t.valuesWith held := by
      obtain ⟨rest, hrest, hmap⟩ := contents_mapCurrent Region.binders t held
      rw [valuesWith, valuesWith, mapCurrent_inputs, hmap, hrest]
      calc (t.inputs : Multiset Nat) + ((t.current.without id).binders + rest) + node.outputs
          = ((t.current.without id).binders + node.outputs) + (t.inputs + rest) := by ac_rfl
        _ ≤ t.current.binders + (t.inputs + rest) :=
          Multiset.add_le_add_right (Region.binders_without hfind)
        _ = t.inputs + (t.current.binders + rest) := by ac_rfl
    have hvalues := le_trans (Multiset.le_add_right _ _) hlost
    refine ⟨?_, fun other hother => ?_, ?_⟩
    · simp only [mapCurrent_nextValue]
      exact h.values.mono hvalues
    · -- the outputs of the node were bound there and nowhere else
      have hnodup := (Multiset.nodup_add.mp (Multiset.nodup_of_le hlost h.values.nodup)).2.2
      have hout : other ∉ node.outputs := fun hm =>
        Multiset.disjoint_left.mp hnodup hother (Multiset.mem_coe.mpr hm)
      simp only
      rw [Bindings.find?_foldl_erase, if_neg hout]
      exact h.typed other (Multiset.mem_of_le hvalues hother)
    · simp only [mapCurrent_nextNode]
      refine h.numbers.mono ?_
      obtain ⟨rest, hrest, hmap⟩ := contents_mapCurrent Region.numbers t held
      rw [numbersWith, numbersWith, hrest]
      refine le_of_eq_of_le (hmap _) ?_
      exact Multiset.add_le_add_right (Region.numbers_without t.current id)

end Assigned

/-! ## Scripts -/

variable {ρ ε : Type}

theorem primitiveRules_assigned (held : List Region) :
    PrimitiveRules (ρ := ρ) (ε := ε) (fun more s => s.1.Assigned (held ++ more))
      (fun _ s => s.1.Assigned held) (fun _ s => s.1.Assigned held) where
  refuse := fun _ _ h => h.drop
  record := by
    rintro ⟨t, r⟩ primitive kind inputs outputs before after h
    refine Step.Leaves.of_snd (P := fun s : Tracer × ρ => s.1.Assigned held) ?_
    simp only [bindPrimitive]
    split <;> exact Assigned.bindNode h inputs outputs

theorem holds_of_assigned (held : List Region) (primitive : Primitive)
    {body : List Value → Traced ρ ε (List Value)}
    (hbody : ∀ args s held, s.1.Assigned held → (body args).Leaves s fun s' => s'.1.Assigned held) :
    Holds (fun more s => s.1.Assigned (held ++ more)) (fun _ s => s.1.Assigned held) primitive
      body := by
  intro types more s hs
  refine ends_inRegion (hbody _ _ _ (hs.openRegion types)) ?_ ?_ ?_ (fun _ _ h => h.drop)
    fun _ h => h.drop
  · intro values results outs t r _ h
    have hclosed := h.closeRegion results
    rw [List.append_assoc] at hclosed
    exact hclosed
  · intro values f t r h
    exact (h.closeRegion []).drop.drop
  · intro e t r h
    exact (h.closeRegion []).drop.drop

mutual

/-- Whatever a script does, no value is bound twice: not in the regions of the tracer, and not in
those that its callers hold meanwhile. -/
theorem Script.assigned_run {α : Type} : ∀ (p : Script ε α) (s : Tracer × ρ) (held : List Region),
    s.1.Assigned held → p.run.Leaves s fun s' => s'.1.Assigned held
  | .yield _, _, _, h => h
  | .abort _, _, _, h => h
  | .halt _, _, _, h => h
  | .input type next, (t, r), held, h =>
    Script.assigned_run (next (t.input type).1) ((t.input type).2, r) held (h.input type)
  | .apply op args next, (t, r), held, h => by
    have hstep : (Tracer.apply op args t).2.Assigned held := by
      rcases apply_snd op args t with heq | ⟨operands, type, heq⟩
      · rw [heq]
        exact h
      · rw [heq]
        exact Assigned.bindNode (by rwa [NodeKind.regions, List.append_nil]) operands [type]
    exact .handled (.onFirst (.of_snd hstep))
      (fun result s' => Script.assigned_run (next result) s' held) fun _ h => h
  | .retract id next, (t, r), held, h =>
    .handled (.onFirst (.of_snd (h.retract id)))
      (fun result s' => Script.assigned_run (next result) s' held) fun _ h => h
  | .call c next, s, held, h =>
    .handled (Call.assigned_run c s held h)
      (fun result s' => Script.assigned_run (next result) s' held) fun _ h => h

theorem Call.assigned_run : ∀ (c : Call ε) (s : Tracer × ρ) (held : List Region),
    s.1.Assigned held → c.run.Leaves s fun s' => s'.1.Assigned held
  | .cond predicate operands thenBranch elseBranch, _, held, h =>
    (primitiveRules_assigned held).ends_cond (by rwa [List.append_nil]) predicate operands
      (holds_of_assigned held _ fun args => Script.assigned_run (thenBranch args))
      (holds_of_assigned held _ fun args => Script.assigned_run (elseBranch args))
  | .forLoop range init body, _, held, h =>
    (primitiveRules_assigned held).ends_forLoop (by rwa [List.append_nil]) range init
      (holds_of_assigned held _ fun args s held h => ends_onIndex
        (fun index carried => Script.assigned_run (body index carried) s held h) args)
  | .whileLoop init predicate body, _, held, h =>
    (primitiveRules_assigned held).ends_whileLoop (by rwa [List.append_nil]) init
      (holds_of_assigned held _ fun args s held h =>
        ends_yieldOne (Script.assigned_run (predicate args) s held h))
      (holds_of_assigned held _ fun args => Script.assigned_run (body args))

end

/-- The graph inputs, the parameters of regions and the outputs of nodes, anywhere in the root and
in the open regions, are distinct, were issued and have types; the numbers of the nodes there are
distinct and were issued. -/
structure SingleAssignment (t : Tracer) : Prop where
  values : (t.inputs ++ (t.root :: t.openRegions).flatMap Region.binders).Nodup
  values_lt : ∀ id ∈ t.inputs ++ (t.root :: t.openRegions).flatMap Region.binders, id < t.nextValue
  typed : ∀ id ∈ t.inputs ++ (t.root :: t.openRegions).flatMap Region.binders,
    (Bindings.find? t.types id).isSome
  numbers : ((t.root :: t.openRegions).flatMap Region.numbers).Nodup
  numbers_lt : ∀ id ∈ (t.root :: t.openRegions).flatMap Region.numbers, id < t.nextNode

theorem Assigned.singleAssignment (h : t.Assigned []) : t.SingleAssignment := by
  have hvalues : t.valuesWith [] =
      (t.inputs ++ (t.root :: t.openRegions).flatMap Region.binders : List Nat) := by
    rw [valuesWith, contents, List.append_nil, Multiset.coe_add]
  have hnumbers : t.numbersWith [] =
      ((t.root :: t.openRegions).flatMap Region.numbers : List Nat) := by
    rw [numbersWith, contents, List.append_nil]
  have h₁ := h.values
  have h₂ := h.typed
  have h₃ := h.numbers
  rw [hvalues] at h₁ h₂
  rw [hnumbers] at h₃
  exact ⟨Multiset.coe_nodup.mp h₁.nodup, h₁.lt, h₂, Multiset.coe_nodup.mp h₃.nodup, h₃.lt⟩

theorem assigned_start (session : Bool) : (start session).Assigned [] where
  values := ⟨Multiset.nodup_zero, fun _ h => absurd h (Multiset.notMem_zero _)⟩
  typed := fun _ h => absurd h (Multiset.notMem_zero _)
  numbers := ⟨Multiset.nodup_zero, fun _ h => absurd h (Multiset.notMem_zero _)⟩

/-- In every state that a script leads to, wherever it stops, every value is bound once. -/
theorem Script.singleAssignment_run {α : Type} (p : Script ε α) (session : Bool) (r : ρ) :
    (p.run (start session, r)).2.1.SingleAssignment :=
  (p.assigned_run (start session, r) [] (assigned_start session)).snd.singleAssignment

end Tracer

end StagedFlow
