import StagedFlow.Proofs.Growth
import StagedFlow.Proofs.HostOps
import StagedFlow.Proofs.WellTyped

/-!
How a tracer evolves when the values in play are its own. If all placeholders that come in belong to
the tracer, then so do those that come out, and the new nodes are well typed where they stand. Main
definitions: `Tracer.scope`, `Tracer.Knows`, `Tracer.Evolves`, `Tracer.protocol`. Main results:
`Tracer.bindNode_spec`, `Tracer.keeps_apply`.

The statements have a parameter `known`, whether the placeholders that come in belong to the tracer:
nodes are added in any case.
-/
set_option autoImplicit false

namespace StagedFlow

namespace Tracer

/-- The values that a node of the current region may use. -/
def scope (t : Tracer) : List Nat :=
  t.openRegions.flatMap (fun r => definedBy r.nodes ++ r.params) ++
    (definedBy t.root.nodes ++ t.inputs)

/-- All placeholders in a value belong to the tracer, and have the types that it gives them. -/
def Knows (t : Tracer) (v : Value) : Prop :=
  ∀ p ∈ v.placeholders, p.1 ∈ t.scope ∧ Bindings.find? t.types p.1 = some p.2

theorem Appends.mem_scope {t t' : Tracer} {nodes : List Node} (h : t.Appends nodes t') (id : Nat) :
    id ∈ t'.scope ↔ id ∈ definedBy nodes ∨ id ∈ t.scope := by
  unfold scope
  rw [h.root, h.openRegions, h.inputs]
  rcases ho : t.openRegions with _ | ⟨region, rest⟩
  · simp only [append, mapCurrent, ho, Region.extend, definedBy_append, List.flatMap_nil,
      List.nil_append, List.mem_append]
    tauto
  · simp only [append, mapCurrent, ho, Region.extend, definedBy_append, List.flatMap_cons,
      List.mem_append]
    tauto

theorem Appends.extends {t t' : Tracer} {nodes : List Node} (h : t.Appends nodes t')
    (ht : t.Numbered) : t.types.Extends t'.types :=
  fun _ _ => h.find?_types ht

theorem Appends.knows {t t' : Tracer} {nodes : List Node} (h : t.Appends nodes t')
    (ht : t.Numbered) {v : Value} (hv : t.Knows v) : t'.Knows v :=
  fun p hp => ⟨(h.mem_scope p.1).mpr (Or.inr (hv p hp).1), h.extends ht p.1 p.2 (hv p hp).2⟩

/-- Nodes were added, and they are well typed if the placeholders were known. -/
def Evolves (known : Prop) (t t' : Tracer) : Prop :=
  ∃ nodes, t.Appends nodes t' ∧ (known → nodesTyped t'.types nodes t.scope)

namespace Evolves

variable {known : Prop} {t t' t'' : Tracer}

theorem of_nothing (h : t.Appends [] t') : Evolves known t t' :=
  ⟨[], h, fun _ => trivial⟩

theorem trans (ht : t.Numbered) (h : Evolves known t t') (h' : Evolves known t' t'') :
    Evolves known t t'' := by
  obtain ⟨a, ha, hatyped⟩ := h
  obtain ⟨b, hb, hbtyped⟩ := h'
  refine ⟨a ++ b, ha.trans hb, fun hk => nodesTyped_append ?_ ?_⟩
  · exact nodesTyped_mono (hb.extends (ha.numbered ht)) (fun _ h => h) (hatyped hk)
  · refine nodesTyped_mono (fun _ _ h => h) (fun id hid => ?_) (hbtyped hk)
    exact List.mem_append.mpr ((ha.mem_scope id).mp hid)

theorem numbered (ht : t.Numbered) (h : Evolves known t t') : t'.Numbered := by
  obtain ⟨nodes, h, -⟩ := h
  exact h.numbered ht

theorem knows (h : Evolves known t t') (ht : t.Numbered) {v : Value} (hv : t.Knows v) :
    t'.Knows v := by
  obtain ⟨nodes, h, -⟩ := h
  exact h.knows ht hv

end Evolves

/-- How evaluation may change a tracer. -/
def protocol (known : Prop) : Protocol Tracer where
  inv := Numbered
  leads := Evolves known
  refl := fun t _ => .of_nothing (.refl t)
  trans := fun ht h h' => h.trans ht h'
  keeps := fun ht h => h.numbered ht

/-! ## What is known -/

variable {t : Tracer}

theorem knows_of_nil {v : Value} (h : v.placeholders = []) : t.Knows v := by
  intro p hp
  rw [h] at hp
  cases hp

theorem knows_of_subset {v w : Value} (h : v.placeholders ⊆ w.placeholders) (hw : t.Knows w) :
    t.Knows v :=
  fun p hp => hw p (h hp)

theorem knows_of_within {v : Value} {args : List Value} (h : v.Within args)
    (hargs : ∀ w ∈ args, t.Knows w) : t.Knows v := by
  intro p hp
  obtain ⟨w, hw, hpw⟩ := Value.mem_placeholdersOf.mp (h hp)
  exact hargs w hw p hpw

theorem knows_list {items : List Value} : t.Knows (.list items) ↔ ∀ v ∈ items, t.Knows v := by
  unfold Knows
  simp only [Value.placeholders, Value.mem_placeholdersOf]
  constructor
  · intro h v hv p hp
    exact h p ⟨v, hv, hp⟩
  · rintro h p ⟨v, hv, hp⟩
    exact h v hv p hp

theorem knows_tuple {items : List Value} : t.Knows (.tuple items) ↔ ∀ v ∈ items, t.Knows v :=
  knows_list

theorem knows_dict {entries : List (Value × Value)} :
    t.Knows (.dict entries) ↔ ∀ e ∈ entries, t.Knows e.1 ∧ t.Knows e.2 := by
  unfold Knows
  simp only [Value.placeholders, Value.mem_entryPlaceholders]
  constructor
  · intro h e he
    exact ⟨fun p hp => h p ⟨e, he, Or.inl hp⟩, fun p hp => h p ⟨e, he, Or.inr hp⟩⟩
  · rintro h p ⟨e, he, hp | hp⟩
    · exact (h e he).1 p hp
    · exact (h e he).2 p hp

theorem knows_traced {id : Nat} {type : ArrayType} :
    t.Knows (.traced id type) ↔ id ∈ t.scope ∧ Bindings.find? t.types id = some type := by
  unfold Knows
  simp only [Value.placeholders, List.mem_singleton, forall_eq]

/-- New values in scope are known under their types. -/
theorem knows_placeholders {ids : List Nat} {types : List ArrayType}
    (hscope : ∀ id ∈ ids, id ∈ t.scope) (htypes : t.types.Gives ids types) :
    ∀ v ∈ placeholders ids types, t.Knows v := by
  unfold placeholders
  induction htypes with
  | nil => intro v hv; cases hv
  | cons hid _ ih =>
    intro v hv
    rcases List.mem_cons.mp hv with rfl | hv
    · exact knows_traced.mpr ⟨hscope _ (by simp), hid⟩
    · exact ih (fun id h => hscope id (by simp [h])) v hv

/-! ## Operands -/

theorem operandOf_hasType {v : Value} {operand : Operand} {type : ArrayType} (hv : t.Knows v)
    (h : operandOf v = .ok (operand, type)) : operand.HasType t.types t.scope type := by
  cases v with
  | traced id _ =>
    cases h
    exact knows_traced.mp hv
  | scalar s =>
    cases h
    exact ⟨rfl, rfl⟩
  | array a =>
    cases h
    exact ⟨rfl, rfl⟩
  | _ => cases h

theorem operandsOf_cons_eq_ok {v : Value} {vs : List Value} {operands : List Operand}
    {types : List ArrayType} (h : operandsOf (v :: vs) = .ok (operands, types)) :
    ∃ operand type operands' types', operandOf v = .ok (operand, type) ∧
      operandsOf vs = .ok (operands', types') ∧ operands = operand :: operands' ∧
      types = type :: types' := by
  unfold operandsOf at h
  rcases hv : operandOf v with f | ⟨operand, type⟩
  · rw [hv] at h
    cases h
  rcases hvs : operandsOf vs with f | ⟨operands', types'⟩
  · rw [hv, hvs] at h
    cases h
  rw [hv, hvs] at h
  cases h
  exact ⟨operand, type, operands', types', rfl, rfl, rfl, rfl⟩

theorem operandsOf_length {vs : List Value} {operands : List Operand} {types : List ArrayType}
    (h : operandsOf vs = .ok (operands, types)) :
    operands.length = vs.length ∧ types.length = vs.length := by
  induction vs generalizing operands types with
  | nil =>
    cases h
    exact ⟨rfl, rfl⟩
  | cons v vs ih =>
    obtain ⟨operand, type, operands', types', -, hrest, rfl, rfl⟩ := operandsOf_cons_eq_ok h
    obtain ⟨h1, h2⟩ := ih hrest
    exact ⟨congrArg Nat.succ h1, congrArg Nat.succ h2⟩

theorem operandsOf_haveTypes {vs : List Value} {operands : List Operand} {types : List ArrayType}
    (hvs : ∀ v ∈ vs, t.Knows v) (h : operandsOf vs = .ok (operands, types)) :
    HaveTypes t.types t.scope operands types := by
  induction vs generalizing operands types with
  | nil =>
    cases h
    exact .nil
  | cons v vs ih =>
    obtain ⟨operand, type, operands', types', hv, hrest, rfl, rfl⟩ := operandsOf_cons_eq_ok h
    exact .cons (operandOf_hasType (hvs v (by simp)) hv) (ih (fun w hw => hvs w (by simp [hw])) hrest)

/-! ## Operations -/

variable {known : Prop}

/-- A node that is well typed where it is recorded makes the tracer evolve, and what it computes is
known. -/
theorem bindNode_spec {t t' : Tracer} (ht : t.Numbered) (h : t.Appends [] t') (kind : NodeKind)
    (inputs : List Operand) (types : List ArrayType)
    (hbinders : ∀ id ∈ kind.binders, t.nextValue ≤ id ∧ id < t'.nextValue)
    (htyped : known → kind.Typed t'.types t.scope inputs types) :
    (known → nodesTyped (t'.bindNode kind inputs types).2.types [t'.newNode kind inputs types]
      t.scope) ∧
      ∀ v ∈ (t'.bindNode kind inputs types).1.2, (t'.bindNode kind inputs types).2.Knows v := by
  have happ := h.bindNode hbinders inputs types
  have hnew := bindNode_types t' kind inputs types
  have ht' := h.numbered ht
  constructor
  · intro hk
    refine ⟨⟨types, hnew, (htyped hk).mono (fun id type hid => ?_) fun _ h => h⟩, trivial⟩
    rw [find?_bindNode_of_old t' kind inputs types (ht'.lt_of_find? hid)]
    exact hid
  · intro v hv
    rw [bindNode_fst] at hv
    refine knows_placeholders (fun id hid => ?_) hnew v hv
    refine (happ.mem_scope id).mpr (Or.inl ?_)
    simpa [definedBy, newNode] using hid

/-- An operation that works is carried out on host values, or recorded as a node. -/
theorem apply_eq_ok {op : Op} {args : List Value} {v : Value} {t' : Tracer}
    (h : apply op args t = (.ok v, t')) :
    (args.any Value.isTraced = false ∧ op.apply args = .ok v ∧ t' = t) ∨
      (args.any Value.isTraced = true ∧ ∃ operands types type,
        operandsOf args = .ok (operands, types) ∧ op.resultType types = .ok type ∧
        v = .traced t.nextValue type ∧ t' = (t.bindNode (.apply op) operands [type]).2) := by
  unfold apply at h
  split at h
  · next htraced =>
    refine Or.inr ⟨htraced, ?_⟩
    rcases hops : operandsOf args with f | ⟨operands, types⟩
    · rw [hops] at h
      cases h
    rw [hops] at h
    simp only at h
    split at h
    · cases h
    rcases hres : op.resultType types with f | type
    · rw [hres] at h
      cases h
    rw [hres] at h
    simp only [Prod.mk.injEq, Except.ok.injEq] at h
    exact ⟨operands, types, type, rfl, hres, h.1.symm, h.2.symm⟩
  · next htraced =>
    obtain ⟨hv, ht⟩ := Prod.mk.inj h
    exact Or.inl ⟨by simpa using htraced, hv, ht.symm⟩

/-- An operation that fails changes nothing. -/
theorem apply_eq_error {op : Op} {args : List Value} {e : Halt Fault} {t' : Tracer}
    (h : apply op args t = (.error e, t')) : t' = t := by
  unfold apply at h
  split at h
  · split at h
    · exact (Prod.mk.inj h).2.symm
    · split at h
      · exact (Prod.mk.inj h).2.symm
      · split at h
        · exact (Prod.mk.inj h).2.symm
        · cases h
  · exact (Prod.mk.inj h).2.symm

/-- The result of an operation is as well known as its operands. -/
theorem keeps_apply (op : Op) {args : List Value} (hargs : known → ∀ v ∈ args, t.Knows v) :
    (apply op args).Keeps (protocol known) t fun v t' => known → t'.Knows v := by
  intro ht
  refine .intro (fun v t' h => ?_) fun f t' h => ?_
  · rcases apply_eq_ok h with ⟨-, hop, rfl⟩ | ⟨-, operands, types, type, hops, hres, rfl, rfl⟩
    · have hwithin := (Op.regular_apply op args).of_ok hop
      exact ⟨.of_nothing (.refl _), fun hk => knows_of_within hwithin (hargs hk)⟩
    · have hbinders : ∀ id ∈ (NodeKind.apply op).binders, t.nextValue ≤ id ∧ id < t.nextValue :=
        fun _ hid => by cases hid
      have htyped : known → (NodeKind.apply op).Typed t.types t.scope operands [type] :=
        fun hk => ⟨types, type, operandsOf_haveTypes (hargs hk) hops, hres, rfl⟩
      have hspec := bindNode_spec ht (.refl t) (.apply op) operands [type] hbinders htyped
      have happ := (Appends.refl t).bindNode hbinders operands [type]
      refine ⟨⟨_, happ, hspec.1⟩, fun _ => hspec.2 _ ?_⟩
      rw [bindNode_fst]
      exact List.mem_singleton_self _
  · rw [apply_eq_error h]
    exact .of_nothing (.refl t)

end Tracer

end StagedFlow
