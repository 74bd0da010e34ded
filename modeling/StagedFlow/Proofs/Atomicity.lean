import StagedFlow.Proofs.Growth
import StagedFlow.Proofs.Scripts

/-!
The control-flow primitives are atomic on the stack of regions. Whatever their callbacks do, the
regions around a call are at its end as they were, but for the one node that it records in the
current region; a failure says whether that node is there, and taking it back restores everything.
Main definitions: `Tracer.Attaches`, `Tracer.Inside`. Main results: `Tracer.Script.inside_run`,
`Tracer.Call.run_atomic`.
-/
set_option autoImplicit false

namespace StagedFlow.Tracer

/-! ## Nodes in the current region -/

/-- The regions of `t'` are those of `t` with nodes added to the current one; the nodes and their
outputs have numbers that were not issued before, and the types that were known are the same. -/
structure Attaches (t : Tracer) (nodes : List Node) (t' : Tracer) : Prop where
  root : t'.root = (t.append nodes).root
  openRegions : t'.openRegions = (t.append nodes).openRegions
  nextValue : t.nextValue ≤ t'.nextValue
  nextNode : t.nextNode ≤ t'.nextNode
  types : ∀ id < t.nextValue, Bindings.find? t'.types id = Bindings.find? t.types id
  numbers : ∀ node ∈ nodes, t.nextNode ≤ node.id
  outputs : ∀ node ∈ nodes, ∀ id ∈ node.outputs, t.nextValue ≤ id

namespace Attaches

variable {t t' t'' : Tracer} {nodes : List Node}

theorem nothing (root : t'.root = t.root) (openRegions : t'.openRegions = t.openRegions)
    (nextValue : t.nextValue ≤ t'.nextValue) (nextNode : t.nextNode ≤ t'.nextNode)
    (types : ∀ id < t.nextValue, Bindings.find? t'.types id = Bindings.find? t.types id) :
    t.Attaches [] t' where
  root := by rw [append_nil, root]
  openRegions := by rw [append_nil, openRegions]
  nextValue := nextValue
  nextNode := nextNode
  types := types
  numbers := fun _ h => by cases h
  outputs := fun _ h => by cases h

theorem refl (t : Tracer) : t.Attaches [] t :=
  nothing rfl rfl (Nat.le_refl _) (Nat.le_refl _) fun _ _ => rfl

theorem root_eq (h : t.Attaches [] t') : t'.root = t.root := by
  rw [h.root, append_nil]

theorem openRegions_eq (h : t.Attaches [] t') : t'.openRegions = t.openRegions := by
  rw [h.openRegions, append_nil]

theorem current_eq (h : t.Attaches nodes t') : t'.current = t.current.extend nodes := by
  rw [current_congr h.root h.openRegions, current_append]

theorem depth_eq (h : t.Attaches nodes t') : t'.depth = t.depth := by
  unfold depth
  rw [h.openRegions]
  rcases ho : t.openRegions with _ | ⟨region, rest⟩ <;> simp [append, mapCurrent, ho]

/-- Nodes that are added where nothing was added yet. -/
theorem after (h : t.Attaches [] t') (h' : t'.Attaches nodes t'') : t.Attaches nodes t'' := by
  obtain ⟨hroot, hopen⟩ := append_congr h.root_eq h.openRegions_eq nodes
  have h1 := h.nextValue
  have h2 := h.nextNode
  exact
    { root := h'.root.trans hroot
      openRegions := h'.openRegions.trans hopen
      nextValue := Nat.le_trans h1 h'.nextValue
      nextNode := Nat.le_trans h2 h'.nextNode
      types := fun id hid => by rw [h'.types id (by omega), h.types id hid]
      numbers := fun node hnode => Nat.le_trans h2 (h'.numbers node hnode)
      outputs := fun node hnode id hid => Nat.le_trans h1 (h'.outputs node hnode id hid) }

/-- A node that is recorded is attached, whatever regions it owns. -/
theorem bindNode (t : Tracer) (kind : NodeKind) (inputs : List Operand) (types : List ArrayType) :
    t.Attaches [t.newNode kind inputs types] (t.bindNode kind inputs types).2 := by
  have hfresh := appends_freshAll { t with nextNode := t.nextNode + 1 } types
  obtain ⟨hroot, hopen⟩ := append_congr (u := t) hfresh.root_eq hfresh.openRegions_eq
    [t.newNode kind inputs types]
  have hold : ∀ id < t.nextValue, Bindings.find? (t.bindNode kind inputs types).2.types id =
      Bindings.find? t.types id := fun id hid => find?_bindNode_of_old t kind inputs types hid
  have hnext : (t.bindNode kind inputs types).2.nextNode = t.nextNode + 1 := by
    rw [bindNode_snd, append_nextNode, freshAll_tracer]
  rw [bindNode_snd] at hold hnext ⊢
  refine ⟨hroot, hopen, ?_, ?_, hold, ?_, ?_⟩
  · rw [append_nextValue]
    exact hfresh.nextValue
  · omega
  · intro node hnode
    rw [List.mem_singleton.mp hnode]
    exact Nat.le_refl _
  · intro node hnode id hid
    rw [List.mem_singleton.mp hnode] at hid
    exact (List.mem_range'_1.mp hid).1

/-- Taking back the only node that was added leaves the regions and the known types as they were. -/
theorem retract {node : Node} (ht : t.Numbered) (h : t.Attaches [node] t') :
    ∃ t'', Tracer.retract node.id t' = (.ok ⟨⟩, t'') ∧ t.Attaches [] t'' := by
  have hnew : ∀ other ∈ t.current.nodes, other.id ≠ node.id := by
    intro other hother
    have h1 := ht.current other hother
    have h2 := h.numbers node (by simp)
    omega
  refine ⟨_, retract_eq hnew h.root h.openRegions, ?_⟩
  refine nothing rfl rfl h.nextValue h.nextNode fun id hid => ?_
  have hout : id ∉ node.outputs := fun hm => by
    have := h.outputs node (by simp) id hm
    omega
  simp only
  rw [Bindings.find?_foldl_erase, if_neg hout]
  exact h.types id hid

end Attaches

/-! ## Steps in the current region -/

/-- From `t` to `t'` only the current region has changed: nodes of it were taken back, and others
were added under numbers that were not issued before. -/
structure Inside (t t' : Tracer) : Prop where
  depth : t'.openRegions.length = t.openRegions.length
  around : t'.openRegions.tail = t.openRegions.tail
  root : t.openRegions ≠ [] → t'.root = t.root
  nextValue : t.nextValue ≤ t'.nextValue
  nextNode : t.nextNode ≤ t'.nextNode
  outputs : ∀ node ∈ t'.current.nodes, node ∈ t.current.nodes ∨
    ∀ id ∈ node.outputs, t.nextValue ≤ id
  types : ∀ id < t.nextValue, (∀ node ∈ t.current.nodes, id ∉ node.outputs) →
    Bindings.find? t'.types id = Bindings.find? t.types id

namespace Inside

variable {t t' t'' : Tracer}

theorem refl (t : Tracer) : t.Inside t :=
  ⟨rfl, rfl, fun _ => rfl, Nat.le_refl _, Nat.le_refl _, fun _ h => Or.inl h, fun _ _ _ => rfl⟩

theorem trans (h : t.Inside t') (h' : t'.Inside t'') : t.Inside t'' where
  depth := h'.depth.trans h.depth
  around := h'.around.trans h.around
  root hopen := by
    have hopen' : t'.openRegions ≠ [] := by
      intro hnil
      have hlen := h.depth
      rw [hnil] at hlen
      exact hopen (List.eq_nil_of_length_eq_zero hlen.symm)
    exact (h'.root hopen').trans (h.root hopen)
  nextValue := Nat.le_trans h.nextValue h'.nextValue
  nextNode := Nat.le_trans h.nextNode h'.nextNode
  outputs node hnode := by
    rcases h'.outputs node hnode with hold | hnew
    · exact h.outputs node hold
    · exact Or.inr fun id hid => Nat.le_trans h.nextValue (hnew id hid)
  types id hid hout := by
    -- what is no output of the old nodes is no output of the new ones either
    have hout' : ∀ node ∈ t'.current.nodes, id ∉ node.outputs := by
      intro node hnode hm
      rcases h.outputs node hnode with hold | hnew
      · exact hout node hold hm
      · exact Nat.not_le_of_lt hid (hnew id hm)
    rw [h'.types id (Nat.lt_of_lt_of_le hid h.nextValue) hout', h.types id hid hout]

theorem of_attaches {nodes : List Node} (h : t.Attaches nodes t') : t.Inside t' where
  depth := h.depth_eq
  around := by
    rw [h.openRegions]
    rcases ho : t.openRegions with _ | ⟨region, rest⟩ <;> simp [append, mapCurrent, ho]
  root hopen := by
    rw [h.root]
    rcases ho : t.openRegions with _ | ⟨region, rest⟩
    · exact absurd ho hopen
    · simp only [append, mapCurrent, ho]
  nextValue := h.nextValue
  nextNode := h.nextNode
  outputs node hnode := by
    rw [h.current_eq] at hnode
    exact (List.mem_append.mp hnode).imp_right (h.outputs node)
  types id hid _ := h.types id hid

theorem input (t : Tracer) (type : ArrayType) : t.Inside (t.input type).2 := by
  have hold : ∀ id < t.nextValue,
      Bindings.find? (t.input type).2.types id = Bindings.find? t.types id := by
    intro id hid
    exact (Bindings.find?_cons ..).trans (if_neg (by omega))
  have hnothing : t.Attaches [] (t.input type).2 :=
    .nothing rfl rfl (Nat.le_succ _) (Nat.le_refl _) hold
  exact .of_attaches hnothing

theorem apply (t : Tracer) (op : Op) (args : List Value) :
    t.Inside (Tracer.apply op args t).2 := by
  rcases apply_snd op args t with h | ⟨operands, type, h⟩
  · rw [h]
    exact .refl t
  · rw [h]
    exact .of_attaches (.bindNode t (.apply op) operands [type])

theorem retract (t : Tracer) (id : Nat) : t.Inside (Tracer.retract id t).2 := by
  unfold Tracer.retract
  split
  · exact .refl t
  · next node hfind =>
    have hmem := List.mem_of_find?_eq_some hfind
    have hkept := t.current_mapCurrent fun r =>
      { r with nodes := r.nodes.eraseP fun other => other.id == id }
    refine ⟨?_, ?_, ?_, ?_, ?_, ?_, ?_⟩
    · rcases ho : t.openRegions with _ | ⟨region, rest⟩ <;> simp [mapCurrent, ho]
    · rcases ho : t.openRegions with _ | ⟨region, rest⟩ <;> simp [mapCurrent, ho]
    · intro hopen
      rcases ho : t.openRegions with _ | ⟨region, rest⟩
      · exact absurd ho hopen
      · simp only [mapCurrent, ho]
    · exact Nat.le_of_eq (mapCurrent_nextValue t _).symm
    · exact Nat.le_of_eq (mapCurrent_nextNode t _).symm
    · intro other hother
      refine Or.inl ?_
      have hold : other ∈ (t.mapCurrent fun r =>
        { r with nodes := r.nodes.eraseP fun other => other.id == id }).current.nodes := hother
      rw [hkept] at hold
      exact List.mem_of_mem_eraseP hold
    · intro other _ hout
      simp only [mapCurrent_types]
      rw [Bindings.find?_foldl_erase, if_neg (hout node hmem)]

/-- What happened in a region that was opened leaves nothing behind when the region is closed. -/
theorem closeRegion {types : List ArrayType} (h : (t.openRegion types).2.Inside t') :
    t.Attaches [] t'.closeRegion.2 := by
  have hfresh := appends_freshAll t types
  have hvalue := freshAll_nextValue t types
  rw [openRegion_snd] at h
  have hlen : (t.freshAll types).2.nextValue ≤ t'.nextValue := h.nextValue
  refine .nothing ?_ h.around ?_ ?_ ?_
  · exact (h.root (by simp)).trans hfresh.root_eq
  · show t.nextValue ≤ t'.nextValue
    omega
  · exact Nat.le_trans hfresh.nextNode h.nextNode
  · intro id hid
    have hold : id < (t.freshAll types).2.nextValue := by omega
    refine (h.types id hold ?_).trans (find?_freshAll_of_old t types (Or.inl hid))
    intro node hnode
    cases hnode

end Inside

/-! ## Calls -/

variable {ρ ε : Type}

/-- What a call that began in `t` has done when it returns values: it added the node that computes
them. -/
def Returned (t : Tracer) (values : List Value) (t' : Tracer) : Prop :=
  ∃ node, List.Forall₂ (fun id v => ∃ type, v = .traced id type) node.outputs values ∧
    t.Attaches [node] t'

/-- What a call that began in `t` has left when it fails: nothing, or the node that it names. -/
def Left (t : Tracer) (stage : Stage) (t' : Tracer) : Prop :=
  match stage with
  | .preBind => t.Attaches [] t'
  | .postBind id => ∃ node, node.id = id ∧ t.Attaches [node] t'

theorem Returned.inside {t t' : Tracer} {values : List Value} (h : t.Returned values t') :
    t.Inside t' := by
  obtain ⟨node, -, h⟩ := h
  exact .of_attaches h

theorem Left.inside {t t' : Tracer} {stage : Stage} (h : t.Left stage t') : t.Inside t' := by
  cases stage with
  | preBind => exact .of_attaches h
  | postBind id =>
    obtain ⟨node, -, h⟩ := h
    exact .of_attaches h

/-- The placeholders of a node's outputs stand for them one by one. -/
theorem forall₂_placeholders {ids : List Nat} {types : List ArrayType}
    (h : ids.length = types.length) :
    List.Forall₂ (fun id v => ∃ type, v = Value.traced id type) ids (placeholders ids types) := by
  induction ids generalizing types with
  | nil =>
    cases types with
    | nil => exact .nil
    | cons _ _ => cases h
  | cons id ids ih =>
    cases types with
    | nil => cases h
    | cons type types => exact .cons ⟨type, rfl⟩ (ih (Nat.succ.inj h))

theorem primitiveRules_left (t : Tracer) :
    PrimitiveRules (ρ := ρ) (ε := ε) (fun _ s => t.Attaches [] s.1)
      (fun values s => t.Returned values s.1)
      (fun e s => ∀ failure, e = .error failure → t.Left failure.stage s.1) where
  refuse := by
    rintro held s primitive f hs failure heq
    cases heq
    exact hs
  record := by
    intro s primitive kind inputs outputs before after hs
    obtain ⟨u, r⟩ := s
    have hnode := hs.after (.bindNode u kind inputs outputs)
    unfold Step.Ends
    simp only [bindPrimitive, bindNode_fst]
    by_cases hshape : before.map ArrayType.shape = after.map ArrayType.shape
    · simp only [hshape, if_true]
      exact ⟨_, forall₂_placeholders (List.length_range' ..), hnode⟩
    · simp only [hshape, if_false]
      intro failure heq
      cases heq
      exact ⟨_, rfl, hnode⟩

/-- Unless it halts, a step changes nothing but the current region. -/
def StaysInside {α : Type} (x : Traced ρ ε α) (s : Tracer × ρ) : Prop :=
  x.Ends s (fun _ s' => s.1.Inside s'.1) (fun e s' => ∀ error, e = .error error → s.1.Inside s'.1)

theorem StaysInside.handled {δ α β : Type} {x : Traced ρ δ α} {next : Except δ α → Traced ρ ε β}
    {s : Tracer × ρ} (hx : StaysInside x s) (hnext : ∀ result s, StaysInside (next result) s) :
    StaysInside (x.handled next) s := by
  have hrest : ∀ result s', s.1.Inside s'.1 → (next result).Ends s'
      (fun _ s'' => s.1.Inside s''.1) (fun e s'' => ∀ error, e = .error error → s.1.Inside s''.1) :=
    fun result s' h => (hnext result s').mono (fun _ _ h' => h.trans h')
      fun _ _ h' e he => h.trans (h' e he)
  refine Step.Ends.handled hx (fun a s' => hrest (.ok a) s') (fun e s' h => ?_) ?_ ?_
  · exact hrest (.error e) s' (h e rfl)
  · intro _ _ _ _ he
    cases he
  · intro _ _ _ he
    cases he

/-- A callback that stays inside its region leaves nothing behind when the region is closed. -/
theorem holds_of_staysInside (t : Tracer) (primitive : Primitive)
    {body : List Value → Traced ρ ε (List Value)} (hbody : ∀ args s, StaysInside (body args) s) :
    Holds (fun _ s => t.Attaches [] s.1)
      (fun e s => ∀ failure, e = .error failure → t.Left failure.stage s.1) primitive body := by
  intro types held s hs
  refine ends_inRegion (hbody _ _) ?_ ?_ ?_ ?_ ?_
  · intro values results outs t' r _ h
    exact hs.after (Inside.closeRegion h)
  · rintro values f t' r h failure heq
    cases heq
    exact hs.after (Inside.closeRegion h)
  · rintro e t' r h failure heq
    cases heq
    exact hs.after (Inside.closeRegion (h e rfl))
  · rintro reason s' _ failure heq
    cases heq
  · rintro s' _ failure heq
    cases heq

mutual

/-- A script changes nothing but the region that it runs in. -/
theorem Script.staysInside_run {α : Type} : ∀ (p : Script ε α) (s : Tracer × ρ),
    StaysInside p.run s
  | .yield a, s => .done (.refl s.1)
  | .abort e, s => .fail fun _ _ => .refl s.1
  | .halt reason, s => fun _ h => by cases h
  | .input type next, (t, r) => by
    have hnext := Script.staysInside_run (next (t.input type).1) ((t.input type).2, r)
    have hinput := Inside.input t type
    exact hnext.mono (fun _ _ h => hinput.trans h) fun _ _ h e he => hinput.trans (h e he)
  | .apply op args next, (t, r) => by
    have hstep : StaysInside (Tracer.apply op args).onFirst (t, r) :=
      .onFirst (.mono (Step.Leaves.of_snd (Inside.apply t op args)) (fun _ _ h => h) fun _ _ h _ _ => h)
    exact hstep.handled fun result s => Script.staysInside_run (next result) s
  | .retract id next, (t, r) => by
    have hstep : StaysInside (Tracer.retract id).onFirst (t, r) :=
      .onFirst (.mono (Step.Leaves.of_snd (Inside.retract t id)) (fun _ _ h => h) fun _ _ h _ _ => h)
    exact hstep.handled fun result s => Script.staysInside_run (next result) s
  | .call c next, s => by
    have hcall : StaysInside c.run s :=
      (Call.returned_or_left c s).mono (fun _ _ h => h.inside) fun _ _ h e he => (h e he).inside
    exact hcall.handled fun result s => Script.staysInside_run (next result) s

/-- A call adds the node that computes its values; a call that fails leaves what its failure
says. -/
theorem Call.returned_or_left : ∀ (c : Call ε) (s : Tracer × ρ),
    c.run.Ends s (fun values s' => s.1.Returned values s'.1)
      (fun e s' => ∀ failure, e = .error failure → s.1.Left failure.stage s'.1)
  | .cond predicate operands thenBranch elseBranch, s =>
    (primitiveRules_left s.1).ends_cond (.refl s.1) predicate operands
      (holds_of_staysInside s.1 _ fun args s => Script.staysInside_run (thenBranch args) s)
      (holds_of_staysInside s.1 _ fun args s => Script.staysInside_run (elseBranch args) s)
  | .forLoop range init body, s =>
    (primitiveRules_left s.1).ends_forLoop (.refl s.1) range init
      (holds_of_staysInside s.1 _ fun args s =>
        ends_onIndex (fun index carried => Script.staysInside_run (body index carried) s) args)
  | .whileLoop init predicate body, s =>
    (primitiveRules_left s.1).ends_whileLoop (.refl s.1) init
      (holds_of_staysInside s.1 _ fun args s =>
        ends_yieldOne (Script.staysInside_run (predicate args) s))
      (holds_of_staysInside s.1 _ fun args s => Script.staysInside_run (body args) s)

end

/-! ## Reachable tracers -/

theorem primitiveRules_reachable :
    PrimitiveRules (ρ := ρ) (ε := ε) (fun _ s => s.1.Reachable) (fun _ s => s.1.Reachable)
      (fun _ s => s.1.Reachable) where
  refuse := fun _ _ h => h
  record := by
    rintro ⟨t, r⟩ primitive kind inputs outputs before after h
    refine Step.Leaves.of_snd (P := fun s : Tracer × ρ => s.1.Reachable) ?_
    simp only [bindPrimitive]
    split <;> exact .bindNode kind inputs outputs h

theorem holds_of_reachable (primitive : Primitive) {body : List Value → Traced ρ ε (List Value)}
    (hbody : ∀ args s, s.1.Reachable → (body args).Leaves s fun s' => s'.1.Reachable) :
    Holds (fun _ s => s.1.Reachable) (fun _ s => s.1.Reachable) primitive body := by
  intro types held s hs
  refine ends_inRegion (hbody _ _ (.openRegion types hs)) ?_ ?_ ?_ (fun _ _ h => h) fun _ h => h
  · exact fun _ _ _ _ _ _ h => .closeRegion h
  · exact fun _ _ _ _ h => .closeRegion h
  · exact fun _ _ _ h => .closeRegion h

mutual

/-- A script leads from a reachable tracer to another, wherever it stops. -/
theorem Script.reachable_run {α : Type} : ∀ (p : Script ε α) (s : Tracer × ρ), s.1.Reachable →
    p.run.Leaves s fun s' => s'.1.Reachable
  | .yield _, _, h => h
  | .abort _, _, h => h
  | .halt _, _, h => h
  | .input type next, (t, r), h =>
    Script.reachable_run (next (t.input type).1) ((t.input type).2, r) (.input type h)
  | .apply op args next, (t, r), h => by
    have hstep : (Tracer.apply op args t).2.Reachable := by
      rcases apply_snd op args t with heq | ⟨operands, type, heq⟩
      · rw [heq]
        exact h
      · rw [heq]
        exact .bindNode _ operands [type] h
    exact .handled (.onFirst (.of_snd hstep)) (fun result => Script.reachable_run (next result))
      fun _ h => h
  | .retract id next, (t, r), h =>
    .handled (.onFirst (.of_snd (Reachable.retract id h)))
      (fun result => Script.reachable_run (next result)) fun _ h => h
  | .call c next, s, h =>
    .handled (Call.reachable_run c s h) (fun result => Script.reachable_run (next result))
      fun _ h => h

theorem Call.reachable_run : ∀ (c : Call ε) (s : Tracer × ρ), s.1.Reachable →
    c.run.Leaves s fun s' => s'.1.Reachable
  | .cond predicate operands thenBranch elseBranch, _, h =>
    primitiveRules_reachable.ends_cond h predicate operands
      (holds_of_reachable _ fun args s => Script.reachable_run (thenBranch args) s)
      (holds_of_reachable _ fun args s => Script.reachable_run (elseBranch args) s)
  | .forLoop range init body, _, h =>
    primitiveRules_reachable.ends_forLoop h range init
      (holds_of_reachable _ fun args s h =>
        ends_onIndex (fun index carried => Script.reachable_run (body index carried) s h) args)
  | .whileLoop init predicate body, _, h =>
    primitiveRules_reachable.ends_whileLoop h init
      (holds_of_reachable _ fun args s h =>
        ends_yieldOne (Script.reachable_run (predicate args) s h))
      (holds_of_reachable _ fun args s => Script.reachable_run (body args) s)

end

/-! ## Atomicity -/

/-- The root and the open regions are the same. -/
def SameRegions (t t' : Tracer) : Prop :=
  t'.root = t.root ∧ t'.openRegions = t.openRegions

/-- The values that `t` has issued have the types that they had. -/
def SameTypes (t t' : Tracer) : Prop :=
  ∀ id < t.nextValue, Bindings.find? t'.types id = Bindings.find? t.types id

theorem Call.run_atomic (c : Call ε) {t : Tracer} (ht : t.Reachable) (r : ρ) :
    c.run.Ensures (t, r)
      (fun values s => s.1.depth = t.depth ∧ t.SameTypes s.1 ∧
        ∃ node, (t.append [node]).SameRegions s.1 ∧
          List.Forall₂ (fun id v => ∃ type, v = .traced id type) node.outputs values)
      (fun failure s => s.1.depth = t.depth ∧ t.SameTypes s.1 ∧
        (failure.stage = .preBind → t.SameRegions s.1) ∧
        ∀ id, failure.stage = .postBind id →
          (∃ node, node.id = id ∧ (t.append [node]).SameRegions s.1) ∧
          ∃ t', retract id s.1 = (.ok ⟨⟩, t') ∧ t.SameRegions t' ∧ t.SameTypes t') := by
  have h := Call.returned_or_left c (t, r)
  refine (h.mono (fun values s hs => ?_) fun _ _ h => h).ensures fun failure s hs => ?_
  · obtain ⟨node, hvalues, hs⟩ := hs
    exact ⟨hs.depth_eq, hs.types, node, ⟨hs.root, hs.openRegions⟩, hvalues⟩
  · have hleft := hs failure rfl
    rcases hstage : failure.stage with _ | id
    · rw [hstage] at hleft
      refine ⟨hleft.depth_eq, hleft.types, fun _ => ⟨hleft.root_eq, hleft.openRegions_eq⟩, ?_⟩
      intro id hid
      cases hid
    · rw [hstage] at hleft
      obtain ⟨node, rfl, hnode⟩ := hleft
      refine ⟨hnode.depth_eq, hnode.types, fun hid => absurd hid (by simp), ?_⟩
      rintro _ ⟨⟩
      obtain ⟨t', hretract, hnothing⟩ := hnode.retract ht.numbered
      exact ⟨⟨node, rfl, hnode.root, hnode.openRegions⟩, t', hretract,
        ⟨hnothing.root_eq, hnothing.openRegions_eq⟩, hnothing.types⟩

/-- A tracer in the middle of a counted loop, whose body has recorded one node. -/
def midLoop : Tracer :=
  let loop : Call Fault := .forLoop (.upTo 3) [.int 0] fun index carried =>
    .apply (.binary .add) (index :: carried) fun _ => .halt .overflow
  ((Script.call loop fun _ => .yield ⟨⟩ : Script Fault Unit).run (.start true, ())).2.1

/-- A loop that does not keep the shape of what it carries. -/
def widening : Call Fault :=
  .forLoop (.upTo 2) [.int 1] fun _ _ => .yield [.array (.ofInts [1, 2])]

theorem Call.run_atomic_widening :
    midLoop.depth = 1 ∧ midLoop.current.nodes.length = 1 ∧
      ∃ t', retract 1 (widening.run (midLoop, ())).2.1 = (.ok ⟨⟩, t') ∧ midLoop.SameRegions t' := by
  have ht : midLoop.Reachable :=
    (Script.reachable_run _ (Tracer.start true, ()) (.start true)).snd
  refine ⟨rfl, rfl, ?_⟩
  rcases hx : widening.run (midLoop, ()) with ⟨(e | values), s⟩
  · obtain ⟨failure, rfl, hstage⟩ : ∃ failure, e = .error failure ∧ failure.stage = .postBind 1 := by
      cases hx
      exact ⟨_, rfl, rfl⟩
    obtain ⟨-, -, -, hpost⟩ := (run_atomic widening ht ()).of_error hx
    obtain ⟨-, t', hretract, hregions, -⟩ := hpost 1 hstage
    exact ⟨t', hretract, hregions⟩
  · cases hx

end StagedFlow.Tracer
