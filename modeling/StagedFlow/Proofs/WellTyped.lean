import Mathlib.Data.List.Forall2
import StagedFlow.Graph.Verify
import StagedFlow.Op.Abstract
import StagedFlow.Tracer.Primitive

/-!
Well-typed graphs. A node may use what stands before it in its region and what is defined around
that region, its operands have to have types that its operation accepts, and regions take and yield
the types of the node they belong to. Main definitions: `Operand.HasType`, `Region.Typed`,
`nodesTyped`. Main results: `nodesTyped_append`, `nodesTyped_mono`, and `verify_of_typed`, that a
graph of well-typed nodes passes its check.
-/
set_option autoImplicit false

namespace StagedFlow

/-- Every type of the first table is in the second. -/
def TypeTable.Extends (table table' : TypeTable) : Prop :=
  ∀ id type, Bindings.find? table id = some type → Bindings.find? table' id = some type

/-- Values have the given types in a table. -/
def TypeTable.Gives (table : TypeTable) (ids : List Nat) (types : List ArrayType) : Prop :=
  List.Forall₂ (fun id type => Bindings.find? table id = some type) ids types

theorem TypeTable.Gives.mono {table table' : TypeTable} (h : table.Extends table')
    {ids : List Nat} {types : List ArrayType} (hids : table.Gives ids types) :
    table'.Gives ids types :=
  hids.imp fun id type => h id type

/-- An operand of a type: a value in scope, or a constant. -/
def Operand.HasType (table : TypeTable) (scope : List Nat) : Operand → ArrayType → Prop
  | .var id, type => id ∈ scope ∧ Bindings.find? table id = some type
  | .const v, type => v.isTraced = false ∧ v.arrayType = .ok type

theorem Operand.HasType.mono {table table' : TypeTable} {scope scope' : List Nat}
    (ht : table.Extends table') (hs : scope ⊆ scope') {operand : Operand} {type : ArrayType}
    (h : operand.HasType table scope type) : operand.HasType table' scope' type := by
  cases operand with
  | var id => exact ⟨hs h.1, ht id type h.2⟩
  | const v => exact h

/-- Operands of types. -/
def HaveTypes (table : TypeTable) (scope : List Nat) (operands : List Operand)
    (types : List ArrayType) : Prop :=
  List.Forall₂ (Operand.HasType table scope) operands types

theorem HaveTypes.mono {table table' : TypeTable} {scope scope' : List Nat}
    (ht : table.Extends table') (hs : scope ⊆ scope') {operands : List Operand}
    {types : List ArrayType} (h : HaveTypes table scope operands types) :
    HaveTypes table' scope' operands types :=
  h.imp fun _ _ h => h.mono ht hs

/-- The outputs of nodes. -/
def definedBy (nodes : List Node) : List Nat :=
  nodes.flatMap Node.outputs

theorem definedBy_append (a b : List Node) : definedBy (a ++ b) = definedBy a ++ definedBy b :=
  List.flatMap_append

mutual

/-- A region that takes values of the types `ins` and yields operands of the types `outs`. -/
def Region.Typed (table : TypeTable) : Region → List Nat → List ArrayType → List ArrayType → Prop
  | ⟨params, nodes, results⟩, scope, ins, outs =>
    table.Gives params ins ∧ nodesTyped table nodes (params ++ scope) ∧
      HaveTypes table (definedBy nodes ++ (params ++ scope)) results outs

/-- Nodes that use what is in scope, each what those before it define. -/
def nodesTyped (table : TypeTable) : List Node → List Nat → Prop
  | [], _ => True
  | ⟨_, kind, inputs, outputs⟩ :: rest, scope =>
    (∃ types, table.Gives outputs types ∧ kind.Typed table scope inputs types) ∧
      nodesTyped table rest (outputs ++ scope)

/-- What a node of a kind takes to compute values of the types `outs`. -/
def NodeKind.Typed (table : TypeTable) :
    NodeKind → List Nat → List Operand → List ArrayType → Prop
  | .apply op, scope, inputs, outs =>
    ∃ types type, HaveTypes table scope inputs types ∧ op.resultType types = .ok type ∧
      outs = [type]
  | .cond thenRegion elseRegion, scope, inputs, outs =>
    ∃ type types, HaveTypes table scope inputs (type :: types) ∧ type.isScalar ∧
      thenRegion.Typed table scope types outs ∧ elseRegion.Typed table scope types outs
  | .forLoop body, scope, inputs, outs =>
    ∃ bounds, HaveTypes table scope inputs (bounds ++ outs) ∧ bounds.length = 3 ∧
      (∀ type ∈ bounds, Tracer.isLoopBound type) ∧
      body.Typed table scope (.scalar .int :: outs) outs
  | .whileLoop cond body, scope, inputs, outs =>
    HaveTypes table scope inputs outs ∧ cond.Typed table scope outs [.scalar .bool] ∧
      body.Typed table scope outs outs

end

/-! ## More types and a larger scope -/

theorem scope_subset {scope scope' : List Nat} (defined : List Nat) (h : scope ⊆ scope') :
    defined ++ scope ⊆ defined ++ scope' :=
  List.append_subset.mpr
    ⟨List.subset_append_left defined scope', List.subset_append_of_subset_right defined h⟩

mutual

theorem Region.Typed.mono {table table' : TypeTable} (ht : table.Extends table') :
    ∀ {r : Region} {scope scope' : List Nat} {ins outs : List ArrayType}, scope ⊆ scope' →
      r.Typed table scope ins outs → r.Typed table' scope' ins outs
  | ⟨params, nodes, results⟩, scope, scope', ins, outs, hs, h => by
    obtain ⟨hparams, hnodes, hresults⟩ := h
    have hs' : params ++ scope ⊆ params ++ scope' := scope_subset params hs
    exact ⟨hparams.mono ht, nodesTyped_mono ht hs' hnodes,
      hresults.mono ht (scope_subset _ hs')⟩

theorem nodesTyped_mono {table table' : TypeTable} (ht : table.Extends table') :
    ∀ {nodes : List Node} {scope scope' : List Nat}, scope ⊆ scope' →
      nodesTyped table nodes scope → nodesTyped table' nodes scope'
  | [], _, _, _, _ => trivial
  | ⟨_, kind, inputs, outputs⟩ :: rest, scope, scope', hs, h => by
    obtain ⟨⟨types, houts, hkind⟩, hrest⟩ := h
    exact ⟨⟨types, houts.mono ht, hkind.mono ht hs⟩,
      nodesTyped_mono ht (scope_subset outputs hs) hrest⟩

theorem NodeKind.Typed.mono {table table' : TypeTable} (ht : table.Extends table') :
    ∀ {kind : NodeKind} {scope scope' : List Nat} {inputs : List Operand}
      {outs : List ArrayType}, scope ⊆ scope' →
      kind.Typed table scope inputs outs → kind.Typed table' scope' inputs outs
  | .apply op, scope, scope', inputs, outs, hs, h => by
    obtain ⟨types, type, hin, hop, rfl⟩ := h
    exact ⟨types, type, hin.mono ht hs, hop, rfl⟩
  | .cond thenRegion elseRegion, scope, scope', inputs, outs, hs, h => by
    obtain ⟨type, types, hin, hscalar, hthen, helse⟩ := h
    exact ⟨type, types, hin.mono ht hs, hscalar, hthen.mono ht hs, helse.mono ht hs⟩
  | .forLoop body, scope, scope', inputs, outs, hs, h => by
    obtain ⟨bounds, hin, hlen, hbounds, hbody⟩ := h
    exact ⟨bounds, hin.mono ht hs, hlen, hbounds, hbody.mono ht hs⟩
  | .whileLoop cond body, scope, scope', inputs, outs, hs, h => by
    obtain ⟨hin, hcond, hbody⟩ := h
    exact ⟨hin.mono ht hs, hcond.mono ht hs, hbody.mono ht hs⟩

end

theorem Region.Typed.results {table : TypeTable} {r : Region} {scope : List Nat}
    {ins outs : List ArrayType} (h : r.Typed table scope ins outs) :
    ∃ scope', HaveTypes table scope' r.results outs := by
  obtain ⟨params, nodes, results⟩ := r
  exact ⟨_, h.2.2⟩

theorem nodesTyped_append {table : TypeTable} {a b : List Node} {scope : List Nat}
    (ha : nodesTyped table a scope) (hb : nodesTyped table b (definedBy a ++ scope)) :
    nodesTyped table (a ++ b) scope := by
  induction a generalizing scope with
  | nil => exact hb
  | cons node rest ih =>
    obtain ⟨id, kind, inputs, outputs⟩ := node
    obtain ⟨hnode, hrest⟩ := ha
    refine ⟨hnode, ih hrest ?_⟩
    refine nodesTyped_mono (fun _ _ h => h) (fun x hx => ?_) hb
    simp only [definedBy, List.flatMap_cons, List.mem_append] at hx ⊢
    tauto

/-! ## The check of a graph -/

theorem mapM_eq_ok {ε α β : Type} {f : α → Except ε β} {as : List α} {bs : List β}
    (h : List.Forall₂ (fun a b => f a = .ok b) as bs) : as.mapM f = .ok bs := by
  induction h with
  | nil => rfl
  | cons ha _ ih =>
    rw [List.mapM_cons, ha, ih]
    rfl

namespace Graph

variable {g : Graph}

theorem operandTypes_eq {scope : List Nat} {operands : List Operand} {types : List ArrayType}
    (h : HaveTypes g.types scope operands types) : g.operandTypes operands = .ok types := by
  refine mapM_eq_ok (h.imp fun operand type ho => ?_)
  cases operand with
  | var id =>
    simp only [operandType]
    rw [ho.2]
  | const v => exact ho.2

theorem operandTypes_outputs {ids : List Nat} {types : List ArrayType}
    (h : g.types.Gives ids types) : g.operandTypes (ids.map .var) = .ok types := by
  refine mapM_eq_ok (List.forall₂_map_left_iff.mpr (h.imp fun id type hid => ?_))
  simp only [operandType]
  rw [hid]

theorem expectTypes_eq {operands : List Operand} {types : List ArrayType}
    (h : g.operandTypes operands = .ok types) (node : Node) (part : String) :
    g.expectTypes node part types operands = .ok ⟨⟩ := by
  simp only [expectTypes, h]
  exact if_pos rfl

theorem verifyNode_eq {node : Node} {scope : List Nat} {types : List ArrayType}
    (hout : g.types.Gives node.outputs types)
    (hkind : node.kind.Typed g.types scope node.inputs types) :
    g.verifyNode node = .ok ⟨⟩ := by
  obtain ⟨id, kind, inputs, outputs⟩ := node
  have houtputs := operandTypes_outputs hout
  simp only at houtputs
  cases kind with
  | apply op =>
    simp only [verifyNode, houtputs]
    rfl
  | cond thenRegion elseRegion =>
    obtain ⟨type, ins, hin, hscalar, hthen, helse⟩ := hkind
    obtain ⟨_, hthen⟩ := hthen.results
    obtain ⟨_, helse⟩ := helse.results
    simp only [verifyNode, houtputs, bind, Except.bind, expectTypes_eq (operandTypes_eq hthen),
      expectTypes_eq (operandTypes_eq helse)]
  | forLoop body =>
    obtain ⟨bounds, hin, hlen, hbounds, hbody⟩ := hkind
    obtain ⟨_, hbody⟩ := hbody.results
    have hcarried : HaveTypes g.types scope (inputs.drop 3) types := by
      have h := List.forall₂_drop bounds.length hin
      rw [List.drop_left, hlen] at h
      exact h
    simp only [verifyNode, houtputs, bind, Except.bind, operandTypes_eq hcarried,
      expectTypes_eq (operandTypes_eq hbody), expectTypes_eq houtputs]
  | whileLoop cond body =>
    obtain ⟨hin, hcond, hbody⟩ := hkind
    obtain ⟨_, hcond⟩ := hcond.results
    obtain ⟨_, hbody⟩ := hbody.results
    simp only [verifyNode, houtputs, bind, Except.bind, operandTypes_eq hin,
      expectTypes_eq (operandTypes_eq hcond), expectTypes_eq (operandTypes_eq hbody)]

mutual

theorem verifyNode_of_region {r : Region} {scope : List Nat} {ins outs : List ArrayType}
    (h : r.Typed g.types scope ins outs) : ∀ node ∈ r.allNodes, g.verifyNode node = .ok ⟨⟩ := by
  obtain ⟨params, nodes, results⟩ := r
  exact verifyNode_of_nodes h.2.1

/-- Every node among well-typed ones passes its check, at any depth. -/
theorem verifyNode_of_nodes {nodes : List Node} {scope : List Nat}
    (h : nodesTyped g.types nodes scope) :
    ∀ node ∈ nodesBelow nodes, g.verifyNode node = .ok ⟨⟩ := by
  match nodes with
  | [] => intro node hnode; cases hnode
  | ⟨id, kind, inputs, outputs⟩ :: rest =>
    obtain ⟨⟨types, hout, hkind⟩, hrest⟩ := h
    intro node hnode
    rcases List.mem_cons.mp hnode with rfl | hnode
    · exact verifyNode_eq hout hkind
    · rcases List.mem_append.mp hnode with hm | hm
      · exact verifyNode_of_kind hkind node hm
      · exact verifyNode_of_nodes hrest node hm

theorem verifyNode_of_kind {kind : NodeKind} {scope : List Nat} {inputs : List Operand}
    {outs : List ArrayType} (h : kind.Typed g.types scope inputs outs) :
    ∀ node ∈ kind.allNodes, g.verifyNode node = .ok ⟨⟩ := by
  intro node hnode
  match kind with
  | .apply op => cases hnode
  | .cond thenRegion elseRegion =>
    obtain ⟨type, ins, hin, hscalar, hthen, helse⟩ := h
    rcases List.mem_append.mp hnode with hm | hm
    · exact verifyNode_of_region hthen node hm
    · exact verifyNode_of_region helse node hm
  | .forLoop body =>
    obtain ⟨bounds, hin, hlen, hbounds, hbody⟩ := h
    exact verifyNode_of_region hbody node hnode
  | .whileLoop cond body =>
    obtain ⟨hin, hcond, hbody⟩ := h
    rcases List.mem_append.mp hnode with hm | hm
    · exact verifyNode_of_region hcond node hm
    · exact verifyNode_of_region hbody node hm

end

/-- A graph of well-typed nodes passes its check. -/
theorem verify_of_typed {scope : List Nat} (h : nodesTyped g.types g.body.nodes scope) :
    g.verify = .ok ⟨⟩ := by
  have hall := verifyNode_of_nodes h
  have hnodes : g.body.allNodes = nodesBelow g.body.nodes := by
    cases g.body
    rfl
  unfold verify
  rw [hnodes]
  generalize nodesBelow g.body.nodes = nodes at hall
  induction nodes with
  | nil => rfl
  | cons node rest ih =>
    show (do g.verifyNode node; rest.forM g.verifyNode) = _
    rw [hall node (by simp)]
    exact ih fun other hother => hall other (by simp [hother])

end Graph

end StagedFlow
