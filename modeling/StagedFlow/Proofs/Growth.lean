import Mathlib.Data.List.Forall2
import StagedFlow.Proofs.Contract
import StagedFlow.Proofs.Lookup
import StagedFlow.Tracer.Primitive

/-!
How a tracer grows. Whatever happens between two moments of tracing, nodes are only added at the
end of the region that they go to, under numbers that were not issued before; the regions around it
stay as they are. Main definitions: `bindersOf`, `Tracer.append`, `Tracer.Numbered`,
`Tracer.Appends`. Main results: `Tracer.Appends.trans`, `Tracer.Appends.bindNode`,
`Tracer.retract_appended`, and what opening and closing a region comes to.
-/
set_option autoImplicit false

namespace StagedFlow

/-! ## The values that nodes bind -/

mutual

/-- The values that a region binds: its parameters and the outputs of its nodes, at any depth. -/
def Region.binders : Region → List Nat
  | ⟨params, nodes, _⟩ => params ++ bindersOf nodes

def bindersOf : List Node → List Nat
  | [] => []
  | ⟨_, kind, _, outputs⟩ :: rest => outputs ++ (kind.binders ++ bindersOf rest)

def NodeKind.binders : NodeKind → List Nat
  | .apply _ => []
  | .cond thenRegion elseRegion => thenRegion.binders ++ elseRegion.binders
  | .forLoop body => body.binders
  | .whileLoop cond body => cond.binders ++ body.binders

end

theorem bindersOf_append (a b : List Node) : bindersOf (a ++ b) = bindersOf a ++ bindersOf b := by
  induction a with
  | nil => rfl
  | cons node rest ih =>
    obtain ⟨id, kind, inputs, outputs⟩ := node
    simp only [List.cons_append, bindersOf, ih, List.append_assoc]

theorem mem_bindersOf_singleton {id : Nat} {node : Node} :
    id ∈ bindersOf [node] ↔ id ∈ node.outputs ∨ id ∈ node.kind.binders := by
  obtain ⟨number, kind, inputs, outputs⟩ := node
  simp [bindersOf]

/-- A region with nodes added at its end. -/
def Region.extend (r : Region) (nodes : List Node) : Region :=
  { r with nodes := r.nodes ++ nodes }

theorem Region.extend_nil (r : Region) : r.extend [] = r := by
  cases r
  simp [Region.extend]

theorem Region.extend_extend (r : Region) (a b : List Node) :
    (r.extend a).extend b = r.extend (a ++ b) := by
  simp [Region.extend]

namespace Tracer

/-- The tracer with nodes added to the region that nodes go to. -/
def append (t : Tracer) (nodes : List Node) : Tracer :=
  t.mapCurrent (·.extend nodes)

theorem append_nil (t : Tracer) : t.append [] = t := by
  rcases h : t.openRegions with _ | ⟨region, rest⟩
  · simp only [append, mapCurrent, h, Region.extend_nil]
    rw [← h]
  · simp only [append, mapCurrent, h, Region.extend_nil]
    rw [← h]

theorem append_append (t : Tracer) (a b : List Node) :
    (t.append a).append b = t.append (a ++ b) := by
  rcases h : t.openRegions with _ | ⟨region, rest⟩
  · simp only [append, mapCurrent, h, Region.extend_extend]
  · simp only [append, mapCurrent, h, Region.extend_extend]

/-- Where nodes are added depends on the regions only. -/
theorem append_congr {t u : Tracer} (hroot : t.root = u.root)
    (hopen : t.openRegions = u.openRegions) (nodes : List Node) :
    (t.append nodes).root = (u.append nodes).root ∧
      (t.append nodes).openRegions = (u.append nodes).openRegions := by
  rcases h : u.openRegions with _ | ⟨region, rest⟩
  · rw [h] at hopen
    simp only [append, mapCurrent, h, hopen, hroot, and_self]
  · rw [h] at hopen
    simp only [append, mapCurrent, h, hopen, hroot, and_self]

theorem current_mapCurrent (t : Tracer) (f : Region → Region) :
    (t.mapCurrent f).current = f t.current := by
  rcases h : t.openRegions with _ | ⟨region, rest⟩ <;> simp [mapCurrent, current, h]

theorem mapCurrent_types (t : Tracer) (f : Region → Region) :
    (t.mapCurrent f).types = t.types := by
  rcases h : t.openRegions with _ | ⟨region, rest⟩ <;> simp only [mapCurrent, h]

theorem mapCurrent_nextValue (t : Tracer) (f : Region → Region) :
    (t.mapCurrent f).nextValue = t.nextValue := by
  rcases h : t.openRegions with _ | ⟨region, rest⟩ <;> simp only [mapCurrent, h]

theorem mapCurrent_nextNode (t : Tracer) (f : Region → Region) :
    (t.mapCurrent f).nextNode = t.nextNode := by
  rcases h : t.openRegions with _ | ⟨region, rest⟩ <;> simp only [mapCurrent, h]

theorem mapCurrent_inputs (t : Tracer) (f : Region → Region) :
    (t.mapCurrent f).inputs = t.inputs := by
  rcases h : t.openRegions with _ | ⟨region, rest⟩ <;> simp only [mapCurrent, h]

theorem append_types (t : Tracer) (nodes : List Node) : (t.append nodes).types = t.types :=
  t.mapCurrent_types _

theorem append_nextValue (t : Tracer) (nodes : List Node) :
    (t.append nodes).nextValue = t.nextValue :=
  t.mapCurrent_nextValue _

theorem append_nextNode (t : Tracer) (nodes : List Node) :
    (t.append nodes).nextNode = t.nextNode :=
  t.mapCurrent_nextNode _

theorem append_inputs (t : Tracer) (nodes : List Node) : (t.append nodes).inputs = t.inputs :=
  t.mapCurrent_inputs _

theorem current_append (t : Tracer) (nodes : List Node) :
    (t.append nodes).current = t.current.extend nodes :=
  t.current_mapCurrent _

theorem current_congr {t u : Tracer} (hroot : t.root = u.root)
    (hopen : t.openRegions = u.openRegions) : t.current = u.current := by
  unfold current
  rw [hroot, hopen]

/-! ## Numbers -/

/-- All numbers of nodes and all values with a type were issued: they lie below the counters. -/
structure Numbered (t : Tracer) : Prop where
  nodes : ∀ r ∈ t.root :: t.openRegions, ∀ node ∈ r.nodes, node.id < t.nextNode
  types : ∀ id, t.nextValue ≤ id → Bindings.find? t.types id = none

theorem Numbered.lt_of_find? {t : Tracer} (h : t.Numbered) {id : Nat} {type : ArrayType}
    (hid : Bindings.find? t.types id = some type) : id < t.nextValue := by
  refine Nat.lt_of_not_le fun hle => ?_
  rw [h.types id hle] at hid
  cases hid

theorem Numbered.current {t : Tracer} (h : t.Numbered) :
    ∀ node ∈ t.current.nodes, node.id < t.nextNode := by
  rcases hopen : t.openRegions with _ | ⟨region, rest⟩
  · have hc : t.current = t.root := by simp [Tracer.current, hopen]
    rw [hc]
    exact h.nodes t.root (by simp)
  · have hc : t.current = region := by simp [Tracer.current, hopen]
    rw [hc]
    exact h.nodes region (by simp [hopen])

/-- A tracer that came from another by adding nodes to its current region: what was there stays,
and the numbers of what is new were issued in between. -/
structure Appends (t : Tracer) (nodes : List Node) (t' : Tracer) : Prop where
  session : t'.session = t.session
  inputs : t'.inputs = t.inputs
  root : t'.root = (t.append nodes).root
  openRegions : t'.openRegions = (t.append nodes).openRegions
  nextValue : t.nextValue ≤ t'.nextValue
  nextNode : t.nextNode ≤ t'.nextNode
  types : ∀ id, id < t.nextValue ∨ t'.nextValue ≤ id →
    Bindings.find? t'.types id = Bindings.find? t.types id
  numbers : ∀ node ∈ nodes, t.nextNode ≤ node.id ∧ node.id < t'.nextNode
  binders : ∀ id ∈ bindersOf nodes, t.nextValue ≤ id ∧ id < t'.nextValue

namespace Appends

variable {t t' t'' : Tracer} {a b : List Node}

/-- Nothing was added where the regions are the same. -/
theorem nothing (session : t'.session = t.session) (inputs : t'.inputs = t.inputs)
    (root : t'.root = t.root) (openRegions : t'.openRegions = t.openRegions)
    (nextValue : t.nextValue ≤ t'.nextValue) (nextNode : t.nextNode ≤ t'.nextNode)
    (types : ∀ id, id < t.nextValue ∨ t'.nextValue ≤ id →
      Bindings.find? t'.types id = Bindings.find? t.types id) : t.Appends [] t' where
  session := session
  inputs := inputs
  root := by rw [append_nil, root]
  openRegions := by rw [append_nil, openRegions]
  nextValue := nextValue
  nextNode := nextNode
  types := types
  numbers := fun _ h => by cases h
  binders := fun _ h => by cases h

theorem refl (t : Tracer) : t.Appends [] t :=
  nothing rfl rfl rfl rfl (Nat.le_refl _) (Nat.le_refl _) (fun _ _ => rfl)

theorem trans (h : t.Appends a t') (h' : t'.Appends b t'') : t.Appends (a ++ b) t'' := by
  obtain ⟨hroot, hopen⟩ := append_congr h.root h.openRegions b
  rw [append_append] at hroot hopen
  refine
    { session := h'.session.trans h.session
      inputs := h'.inputs.trans h.inputs
      root := h'.root.trans hroot
      openRegions := h'.openRegions.trans hopen
      nextValue := Nat.le_trans h.nextValue h'.nextValue
      nextNode := Nat.le_trans h.nextNode h'.nextNode
      types := ?_
      numbers := ?_
      binders := ?_ }
  · intro id hid
    have h1 := h.nextValue
    have h2 := h'.nextValue
    rw [h'.types id (by omega), h.types id (by omega)]
  · intro node hnode
    have h1 := h.nextNode
    have h2 := h'.nextNode
    rcases List.mem_append.mp hnode with hm | hm
    · have := h.numbers node hm
      omega
    · have := h'.numbers node hm
      omega
  · intro id hid
    have h1 := h.nextValue
    have h2 := h'.nextValue
    rw [bindersOf_append] at hid
    rcases List.mem_append.mp hid with hm | hm
    · have := h.binders id hm
      omega
    · have := h'.binders id hm
      omega

theorem numbered (h : t.Appends a t') (ht : t.Numbered) : t'.Numbered where
  nodes := by
    intro r hr node hnode
    have hle := h.nextNode
    rcases hopen : t.openRegions with _ | ⟨region, rest⟩
    · have ho : t'.openRegions = [] := by
        rw [h.openRegions]
        simp only [append, mapCurrent, hopen]
      have hroot : t'.root = t.root.extend a := by
        rw [h.root]
        simp only [append, mapCurrent, hopen]
      rw [ho, hroot, List.mem_singleton] at hr
      subst hr
      rcases List.mem_append.mp hnode with hm | hm
      · have := ht.nodes t.root (by simp) node hm
        omega
      · exact (h.numbers node hm).2
    · have ho : t'.openRegions = region.extend a :: rest := by
        rw [h.openRegions]
        simp only [append, mapCurrent, hopen]
      have hroot : t'.root = t.root := by
        rw [h.root]
        simp only [append, mapCurrent, hopen]
      rw [ho, hroot] at hr
      rcases List.mem_cons.mp hr with rfl | hr
      · have := ht.nodes t.root (by simp) node hnode
        omega
      rcases List.mem_cons.mp hr with rfl | hr
      · rcases List.mem_append.mp hnode with hm | hm
        · have := ht.nodes region (by simp [hopen]) node hm
          omega
        · exact (h.numbers node hm).2
      · have := ht.nodes r (by simp [hopen, hr]) node hnode
        omega
  types := by
    intro id hid
    rw [h.types id (Or.inr hid)]
    exact ht.types id (Nat.le_trans h.nextValue hid)

/-- Types that are known stay known. -/
theorem find?_types (h : t.Appends a t') (ht : t.Numbered) {id : Nat} {type : ArrayType}
    (hid : Bindings.find? t.types id = some type) : Bindings.find? t'.types id = some type := by
  rw [h.types id (Or.inl (ht.lt_of_find? hid))]
  exact hid

theorem root_eq (h : t.Appends [] t') : t'.root = t.root := by
  rw [h.root, append_nil]

theorem openRegions_eq (h : t.Appends [] t') : t'.openRegions = t.openRegions := by
  rw [h.openRegions, append_nil]

theorem current_eq (h : t.Appends a t') : t'.current = t.current.extend a := by
  rw [current_congr h.root h.openRegions, current_append]

/-- The added nodes are determined by the two tracers. -/
theorem unique (h : t.Appends a t') (h' : t.Appends b t') : a = b := by
  have e := h.current_eq.symm.trans h'.current_eq
  simp only [Region.extend, Region.mk.injEq, true_and, and_true] at e
  exact List.append_cancel_left e

end Appends

/-! ## New values -/

theorem freshAll_ids (t : Tracer) (types : List ArrayType) :
    (t.freshAll types).1 = List.range' t.nextValue types.length := by
  induction types generalizing t with
  | nil => rfl
  | cons type rest ih =>
    simp only [freshAll, fresh, ih, List.length_cons, List.range'_succ]

theorem freshAll_tracer (t : Tracer) (types : List ArrayType) :
    (t.freshAll types).2 =
      { t with
        nextValue := t.nextValue + types.length
        types := (t.freshAll types).2.types } := by
  induction types generalizing t with
  | nil => rfl
  | cons type rest ih =>
    simp only [freshAll, fresh, List.length_cons]
    rw [ih]
    simp only [Nat.add_assoc, Nat.add_comm 1]

theorem freshAll_nextValue (t : Tracer) (types : List ArrayType) :
    (t.freshAll types).2.nextValue = t.nextValue + types.length := by
  rw [freshAll_tracer]

theorem find?_freshAll_of_old (t : Tracer) (types : List ArrayType) {id : Nat}
    (h : id < t.nextValue ∨ t.nextValue + types.length ≤ id) :
    Bindings.find? (t.freshAll types).2.types id = Bindings.find? t.types id := by
  induction types generalizing t with
  | nil => rfl
  | cons type rest ih =>
    rw [List.length_cons] at h
    simp only [freshAll, fresh]
    rw [ih _ (by simp only; omega)]
    exact (Bindings.find?_cons ..).trans (if_neg (by omega))

theorem find?_freshAll_of_new (t : Tracer) (types : List ArrayType) :
    List.Forall₂ (fun id type => Bindings.find? (t.freshAll types).2.types id = some type)
      (t.freshAll types).1 types := by
  induction types generalizing t with
  | nil => exact .nil
  | cons type rest ih =>
    simp only [freshAll, fresh]
    refine .cons ?_ (ih _)
    rw [find?_freshAll_of_old _ rest (by simp only; omega)]
    exact (Bindings.find?_cons ..).trans (if_pos rfl)

theorem appends_freshAll (t : Tracer) (types : List ArrayType) :
    t.Appends [] (t.freshAll types).2 := by
  have hold : ∀ id, id < t.nextValue ∨ (t.freshAll types).2.nextValue ≤ id →
      Bindings.find? (t.freshAll types).2.types id = Bindings.find? t.types id := by
    intro id hid
    rw [freshAll_nextValue] at hid
    exact find?_freshAll_of_old t types hid
  have hvalue : t.nextValue ≤ (t.freshAll types).2.nextValue := by
    rw [freshAll_nextValue]
    omega
  have hnode : (t.freshAll types).2.nextNode = t.nextNode := by rw [freshAll_tracer]
  refine .nothing ?_ ?_ ?_ ?_ hvalue (Nat.le_of_eq hnode.symm) hold <;> rw [freshAll_tracer]

/-! ## New nodes -/

/-- The node that is recorded next. -/
def newNode (t : Tracer) (kind : NodeKind) (inputs : List Operand) (types : List ArrayType) : Node :=
  ⟨t.nextNode, kind, inputs, List.range' t.nextValue types.length⟩

theorem bindNode_fst (t : Tracer) (kind : NodeKind) (inputs : List Operand)
    (types : List ArrayType) :
    (t.bindNode kind inputs types).1 =
      (t.nextNode, placeholders (List.range' t.nextValue types.length) types) := by
  simp only [bindNode, freshAll_ids]

theorem bindNode_snd (t : Tracer) (kind : NodeKind) (inputs : List Operand)
    (types : List ArrayType) :
    (t.bindNode kind inputs types).2 =
      (({ t with nextNode := t.nextNode + 1 } : Tracer).freshAll types).2.append
        [t.newNode kind inputs types] := by
  simp only [bindNode, freshAll_ids]
  rfl

/-- Recording a node whose regions were traced since `t` adds that node. -/
theorem Appends.bindNode {t t' : Tracer} (h : t.Appends [] t') {kind : NodeKind}
    (hkind : ∀ id ∈ kind.binders, t.nextValue ≤ id ∧ id < t'.nextValue) (inputs : List Operand)
    (types : List ArrayType) :
    t.Appends [t'.newNode kind inputs types] (t'.bindNode kind inputs types).2 := by
  have hf := appends_freshAll { t' with nextNode := t'.nextNode + 1 } types
  have hvalue := freshAll_nextValue { t' with nextNode := t'.nextNode + 1 } types
  obtain ⟨hroot, hopen⟩ := append_congr (hf.root_eq.trans h.root_eq)
    (hf.openRegions_eq.trans h.openRegions_eq) [t'.newNode kind inputs types]
  have hnext : (({ t' with nextNode := t'.nextNode + 1 } : Tracer).freshAll types).2.nextNode =
      t'.nextNode + 1 := by rw [freshAll_tracer]
  have h1 := h.nextValue
  have h2 := h.nextNode
  rw [bindNode_snd]
  generalize ({ t' with nextNode := t'.nextNode + 1 } : Tracer).freshAll types = fresh at *
  -- a node goes to a region, whichever is the current one, and all else stays
  have hsame : (fresh.2.append [t'.newNode kind inputs types]) =
      { fresh.2 with
        root := (fresh.2.append [t'.newNode kind inputs types]).root
        openRegions := (fresh.2.append [t'.newNode kind inputs types]).openRegions } := by
    rcases ho : fresh.2.openRegions with _ | ⟨region, rest⟩ <;>
      simp only [append, mapCurrent, ho]
  rw [hsame]
  refine
    { session := hf.session.trans h.session
      inputs := hf.inputs.trans h.inputs
      root := hroot
      openRegions := hopen
      nextValue := ?_
      nextNode := ?_
      types := ?_
      numbers := ?_
      binders := ?_ }
  · simp only [hvalue]
    omega
  · simp only [hnext]
    omega
  · intro id hid
    simp only [hvalue] at hid
    simp only
    rw [hf.types id (by simp only [hvalue]; omega)]
    exact h.types id (by omega)
  · intro node hnode
    rw [List.mem_singleton.mp hnode]
    simp only [newNode, hnext]
    omega
  · intro id hid
    simp only [hvalue]
    rcases mem_bindersOf_singleton.mp hid with hm | hm
    · have := List.mem_range'_1.mp hm
      omega
    · have := hkind id hm
      omega

theorem bindNode_types (t : Tracer) (kind : NodeKind) (inputs : List Operand)
    (types : List ArrayType) :
    List.Forall₂
      (fun id type => Bindings.find? (t.bindNode kind inputs types).2.types id = some type)
      (List.range' t.nextValue types.length) types := by
  have h := find?_freshAll_of_new { t with nextNode := t.nextNode + 1 } types
  rw [freshAll_ids] at h
  rw [bindNode_snd, append_types]
  exact h

theorem find?_bindNode_of_old (t : Tracer) (kind : NodeKind) (inputs : List Operand)
    (types : List ArrayType) {id : Nat} (h : id < t.nextValue) :
    Bindings.find? (t.bindNode kind inputs types).2.types id = Bindings.find? t.types id := by
  rw [bindNode_snd, append_types]
  exact find?_freshAll_of_old { t with nextNode := t.nextNode + 1 } types (Or.inl h)

theorem find?_eq_last {nodes : List Node} {node : Node}
    (h : ∀ other ∈ nodes, other.id ≠ node.id) :
    (nodes ++ [node]).find? (fun other => other.id == node.id) = some node := by
  rw [List.find?_append, List.find?_eq_none.mpr]
  · simp
  · intro other hother
    simpa using h other hother

theorem eraseP_extend {r : Region} {node : Node} (h : ∀ other ∈ r.nodes, other.id ≠ node.id) :
    { r.extend [node] with
      nodes := (r.extend [node]).nodes.eraseP fun other => other.id == node.id } = r := by
  cases r
  simp only [Region.extend]
  rw [List.eraseP_append_right]
  · simp
  · intro other hother
    simpa using h other hother

/-- Taking back the only node that was added to the regions of `t` restores them. -/
theorem retract_eq {t t' : Tracer} {node : Node}
    (hnew : ∀ other ∈ t.current.nodes, other.id ≠ node.id)
    (hroot : t'.root = (t.append [node]).root)
    (hopen : t'.openRegions = (t.append [node]).openRegions) :
    retract node.id t' = (.ok ⟨⟩,
      { t' with
        root := t.root
        openRegions := t.openRegions
        types := node.outputs.foldl Bindings.erase t'.types }) := by
  have hfind : t'.current.nodes.find? (fun other => other.id == node.id) = some node := by
    rw [current_congr hroot hopen, current_append]
    exact find?_eq_last hnew
  simp only [retract, hfind]
  rcases ho : t.openRegions with _ | ⟨region, rest⟩
  · have hc : t.current = t.root := by simp [current, ho]
    rw [hc] at hnew
    simp only [append, mapCurrent, ho] at hroot hopen
    simp only [mapCurrent, hopen, hroot, eraseP_extend hnew]
  · have hc : t.current = region := by simp [current, ho]
    rw [hc] at hnew
    simp only [append, mapCurrent, ho] at hroot hopen
    simp only [mapCurrent, hopen, hroot, eraseP_extend hnew]

/-- Taking back the node that was added last leaves nothing but issued numbers. -/
theorem retract_appended {t t' : Tracer} {node : Node} (ht : t.Numbered)
    (h : t.Appends [node] t') :
    ∃ t'', retract node.id t' = (.ok ⟨⟩, t'') ∧ t.Appends [] t'' := by
  have hnew : ∀ other ∈ t.current.nodes, other.id ≠ node.id := by
    intro other hother
    have h1 := ht.current other hother
    have h2 := (h.numbers node (by simp)).1
    omega
  refine ⟨_, retract_eq hnew h.root h.openRegions, ?_⟩
  refine .nothing h.session h.inputs rfl rfl h.nextValue h.nextNode fun id hid => ?_
  have hout : id ∉ node.outputs := by
    intro hm
    have hlt : id < t.nextValue ∨ t'.nextValue ≤ id := hid
    have := h.binders id (mem_bindersOf_singleton.mpr (Or.inl hm))
    omega
  simp only
  rw [Bindings.find?_foldl_erase, if_neg hout]
  exact h.types id hid

/-! ## Regions -/

theorem openRegion_fst (t : Tracer) (types : List ArrayType) :
    (t.openRegion types).1 = placeholders (List.range' t.nextValue types.length) types := by
  simp only [openRegion, freshAll_ids]

theorem openRegion_snd (t : Tracer) (types : List ArrayType) :
    (t.openRegion types).2 =
      { (t.freshAll types).2 with
        openRegions := .opened (List.range' t.nextValue types.length) :: t.openRegions } := by
  simp only [openRegion, freshAll_ids]
  rw [freshAll_tracer]

theorem openRegion_types (t : Tracer) (types : List ArrayType) :
    List.Forall₂ (fun id type => Bindings.find? (t.openRegion types).2.types id = some type)
      (List.range' t.nextValue types.length) types := by
  have h := find?_freshAll_of_new t types
  rw [freshAll_ids] at h
  rw [openRegion_snd]
  exact h

theorem numbered_openRegion {t : Tracer} (ht : t.Numbered) (types : List ArrayType) :
    (t.openRegion types).2.Numbered := by
  have h := (appends_freshAll t types).numbered ht
  have ho := (appends_freshAll t types).openRegions_eq
  rw [openRegion_snd]
  refine ⟨?_, h.types⟩
  intro r hr node hnode
  simp only [List.mem_cons] at hr
  rcases hr with rfl | rfl | hr
  · exact h.nodes _ (by simp) node hnode
  · simp [Region.opened] at hnode
  · exact h.nodes r (by simp [ho, hr]) node hnode

/-- A region that was opened, filled and closed again leaves the tracer's own regions alone. -/
theorem Appends.closeRegion {t t' : Tracer} {types : List ArrayType} {nodes : List Node}
    (h : (t.openRegion types).2.Appends nodes t') :
    t'.closeRegion.1 = ⟨List.range' t.nextValue types.length, nodes, []⟩ ∧
      t.Appends [] t'.closeRegion.2 := by
  have hf := appends_freshAll t types
  rw [openRegion_snd] at h
  have hvalue := freshAll_nextValue t types
  -- what was added went to the innermost region, which is the one that was opened
  have ho : t'.openRegions =
      ⟨List.range' t.nextValue types.length, nodes, []⟩ :: t.openRegions := by
    rw [h.openRegions]
    rfl
  have hroot : t'.root = t.root := by
    rw [h.root]
    exact hf.root_eq
  have h1 := h.nextValue
  simp only at h1
  refine ⟨by simp [Tracer.closeRegion, ho], ?_⟩
  have hclosed : t'.closeRegion.2 = { t' with openRegions := t.openRegions } := by
    simp [Tracer.closeRegion, ho]
  rw [hclosed]
  refine .nothing (h.session.trans hf.session) (h.inputs.trans hf.inputs) hroot rfl
    (Nat.le_trans hf.nextValue h1) (Nat.le_trans hf.nextNode h.nextNode) fun id hid => ?_
  simp only at hid ⊢
  rw [h.types id (by simp only; omega)]
  exact hf.types id (by omega)

/-! ## The tracers that there are -/

/-- A tracer that came about by tracing: nothing changes it but these steps. -/
inductive Reachable : Tracer → Prop
  | start (session : Bool) : Reachable (.start session)
  | session {t : Tracer} (active : Bool) : Reachable t → Reachable { t with session := active }
  | input {t : Tracer} (type : ArrayType) : Reachable t → Reachable (t.input type).2
  | bindNode {t : Tracer} (kind : NodeKind) (inputs : List Operand) (types : List ArrayType) :
    Reachable t → Reachable (t.bindNode kind inputs types).2
  | retract {t : Tracer} (id : Nat) : Reachable t → Reachable (t.retract id).2
  | openRegion {t : Tracer} (types : List ArrayType) :
    Reachable t → Reachable (t.openRegion types).2
  | closeRegion {t : Tracer} : Reachable t → Reachable t.closeRegion.2

theorem Numbered.input {t : Tracer} (h : t.Numbered) (type : ArrayType) :
    (t.input type).2.Numbered := by
  refine ⟨h.nodes, fun id hid => ?_⟩
  have hlt : t.nextValue < id := hid
  refine (Bindings.find?_cons ..).trans ?_
  rw [if_neg (by omega)]
  exact h.types id (by omega)

/-- Changing the current region is harmless if its new nodes have numbers that were issued. -/
theorem Numbered.mapCurrent {t : Tracer} (h : t.Numbered) {f : Region → Region}
    (hf : ∀ r, ∀ node ∈ (f r).nodes, node ∈ r.nodes ∨ node.id < t.nextNode) :
    (t.mapCurrent f).Numbered := by
  rcases ho : t.openRegions with _ | ⟨region, rest⟩
  · simp only [Tracer.mapCurrent, ho]
    refine ⟨fun r hr node hnode => ?_, h.types⟩
    simp only [List.mem_singleton] at hr
    subst hr
    rcases hf t.root node hnode with hold | hnew
    · exact h.nodes t.root (by simp) node hold
    · exact hnew
  · simp only [Tracer.mapCurrent, ho]
    refine ⟨fun r hr node hnode => ?_, h.types⟩
    simp only [List.mem_cons] at hr
    rcases hr with rfl | rfl | hr
    · exact h.nodes t.root (by simp) node hnode
    · rcases hf region node hnode with hold | hnew
      · exact h.nodes region (by simp [ho]) node hold
      · exact hnew
    · exact h.nodes r (by simp [ho, hr]) node hnode

theorem Numbered.bindNode {t : Tracer} (h : t.Numbered) (kind : NodeKind) (inputs : List Operand)
    (types : List ArrayType) : (t.bindNode kind inputs types).2.Numbered := by
  have hnext : ({ t with nextNode := t.nextNode + 1 } : Tracer).Numbered :=
    ⟨fun r hr node hnode => Nat.lt_succ_of_lt (h.nodes r hr node hnode), h.types⟩
  have hfresh := (appends_freshAll { t with nextNode := t.nextNode + 1 } types).numbered hnext
  rw [bindNode_snd]
  refine hfresh.mapCurrent fun r node hnode => ?_
  rcases List.mem_append.mp hnode with hold | hnew
  · exact Or.inl hold
  · rw [List.mem_singleton.mp hnew, freshAll_tracer]
    exact Or.inr (Nat.lt_succ_self _)

theorem Numbered.retract {t : Tracer} (h : t.Numbered) (id : Nat) :
    (t.retract id).2.Numbered := by
  unfold Tracer.retract
  split
  · exact h
  · next node _ =>
    have hmap := h.mapCurrent (f := fun r => { r with nodes := r.nodes.eraseP fun n => n.id == id })
      fun r other hother => Or.inl (List.mem_of_mem_eraseP hother)
    refine ⟨hmap.nodes, fun other hother => ?_⟩
    refine (Bindings.find?_foldl_erase ..).trans ?_
    split
    · rfl
    · exact hmap.types other hother

theorem Reachable.numbered {t : Tracer} (h : t.Reachable) : t.Numbered := by
  induction h with
  | start session =>
    refine ⟨?_, fun _ _ => rfl⟩
    intro r hr node hnode
    rw [List.mem_singleton.mp hr] at hnode
    cases hnode
  | session active _ ih => exact ⟨ih.nodes, ih.types⟩
  | input type _ ih => exact ih.input type
  | bindNode kind inputs types _ ih => exact ih.bindNode kind inputs types
  | retract id _ ih => exact ih.retract id
  | openRegion types _ ih => exact numbered_openRegion ih types
  | closeRegion _ ih =>
    refine ⟨fun r hr => ih.nodes r ?_, ih.types⟩
    rcases List.mem_cons.mp hr with rfl | hr
    · exact List.mem_cons_self
    · exact List.mem_cons_of_mem _ (List.mem_of_mem_tail hr)

end Tracer

end StagedFlow
