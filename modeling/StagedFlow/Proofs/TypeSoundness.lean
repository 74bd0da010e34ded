import StagedFlow.Proofs.GraphRuns
import StagedFlow.Proofs.ProperRuns
import StagedFlow.Proofs.TypedOps

/-!
Type soundness of graphs. A traced graph runs on inputs of its recorded types so that every value in
the store has the type recorded for it, at every step, also inside branches and in the rounds of
loops; and all that can stop the run is an operation on numbers of fitting types: a division by
zero, an index outside an array, or an integer that has no negative or no quotient. Main
definitions: `Reaches`, `Store.Models`, `Graph.Tame`, `SoundRuns`. Main results: `soundRuns`,
`Reaches.models`, `Workbench.typeSound_trace`.
-/
set_option autoImplicit false

namespace StagedFlow

/-! ## The steps of a run -/

/-- Whether a counted loop runs its body at `i`. -/
def InRange (stop step i : Int) : Prop :=
  (0 < step ∧ i < stop) ∨ (step < 0 ∧ stop < i)

/-- A counted loop that begins at `i` comes to a further index, with the values that it carries
there. -/
inductive CountsTo (body : Region) (stop step i : Int) (carried : List Value) (s : Store) :
    Int → List Value → Store → Prop
  | start : CountsTo body stop step i carried s i carried s
  | next {j : Int} {values values' : List Value} {t t' : Store}
    (h : CountsTo body stop step i carried s j values t) (hrange : InRange stop step j)
    (hround : RunsRegion body (.int (Int64.ofInt j) :: values) t values' t')
    (hfits : FitsInt64 (j + step)) : CountsTo body stop step i carried s (j + step) values' t'

/-- A conditional loop comes to a further test of its predicate. -/
inductive LoopsTo (test body : Region) (carried : List Value) (s : Store) :
    List Value → Store → Prop
  | start : LoopsTo test body carried s carried s
  | next {values values' more : List Value} {predicate : Value} {t t₁ t' : Store}
    (h : LoopsTo test body carried s values t)
    (htest : RunsRegion test values t (predicate :: more) t₁)
    (htrue : predicate.truthy = .ok true) (hround : RunsRegion body values t₁ values' t') :
    LoopsTo test body carried s values' t'

/-- A node that runs on `inputs` comes to run one of its regions, on arguments and with a store. -/
inductive NodeKind.Enters : NodeKind → List Value → Store → Region → List Value → Store → Prop
  | branch {thenRegion elseRegion : Region} {predicate : Value} {truth : Bool} {args : List Value}
    {s : Store} (htruth : predicate.truthy = .ok truth) :
    Enters (.cond thenRegion elseRegion) (predicate :: args) s
      (if truth then thenRegion else elseRegion) args s
  | round {body : Region} {start stop step : Value} {i j k : Int64} {l : Int}
    {carried values : List Value} {s t : Store} (hstart : start.toIndex = .ok i)
    (hstop : stop.toIndex = .ok j) (hstep : step.toIndex = .ok k)
    (h : CountsTo body j.toInt k.toInt i.toInt carried s l values t)
    (hrange : InRange j.toInt k.toInt l) :
    Enters (.forLoop body) (start :: stop :: step :: carried) s body
      (.int (Int64.ofInt l) :: values) t
  | test {test body : Region} {carried values : List Value} {s t : Store}
    (h : LoopsTo test body carried s values t) :
    Enters (.whileLoop test body) carried s test values t
  | again {test body : Region} {carried values more : List Value} {predicate : Value}
    {s t t₁ : Store} (h : LoopsTo test body carried s values t)
    (htest : RunsRegion test values t (predicate :: more) t₁)
    (htrue : predicate.truthy = .ok true) :
    Enters (.whileLoop test body) carried s body values t₁

/-- A run of nodes comes to the point where the nodes `nodes'` are next, at some depth, with the
store `s'`. -/
inductive Reaches : List Node → Store → List Node → Store → Prop
  | here (nodes : List Node) (s : Store) : Reaches nodes s nodes s
  | inside {node : Node} {rest nodes' : List Node} {inputs args : List Value} {region : Region}
    {s s₁ s' : Store} (hinputs : s.operands node.inputs = .ok inputs)
    (henters : node.kind.Enters inputs s region args s₁)
    (h : Reaches region.nodes (Bindings.insertAll s₁ region.params args) nodes' s') :
    Reaches (node :: rest) s nodes' s'
  | after {node : Node} {rest nodes' : List Node} {s s₁ s' : Store}
    (hnode : ∃ fuel, runNode fuel node s = .ok s₁) (h : Reaches rest s₁ nodes' s') :
    Reaches (node :: rest) s nodes' s'

/-- The run of nodes can stop with `h`: the fuel ends, or an operation that it comes to stops. -/
def Fails (nodes : List Node) (s : Store) (h : Halt Fault) : Prop :=
  h = .outOfFuel ∨ ∃ (id : Nat) (op : Op) (inputs : List Operand) (outputs : List Nat)
    (rest : List Node) (s' : Store) (args : List Value),
    Reaches nodes s (⟨id, .apply op, inputs, outputs⟩ :: rest) s' ∧
      s'.operands inputs = .ok args ∧ op.apply args = .error h ∧ op.Stops args h

/-- A node that runs on `inputs` can stop with `h` in one of its regions. -/
def NodeKind.FailsInside (kind : NodeKind) (inputs : List Value) (s : Store) (h : Halt Fault) :
    Prop :=
  h = .outOfFuel ∨ ∃ region args s', kind.Enters inputs s region args s' ∧
    Fails region.nodes (Bindings.insertAll s' region.params args) h

theorem Fails.inside {node : Node} {rest : List Node} {inputs : List Value} {s : Store}
    {h : Halt Fault} (hinputs : s.operands node.inputs = .ok inputs)
    (hfails : node.kind.FailsInside inputs s h) : Fails (node :: rest) s h := by
  rcases hfails with rfl | ⟨region, args, s₁, henters, rfl | hfails⟩
  · exact Or.inl rfl
  · exact Or.inl rfl
  · obtain ⟨id, op, operands, outputs, rest', s', args', hreaches, hstops⟩ := hfails
    exact Or.inr ⟨id, op, operands, outputs, rest', s', args',
      .inside hinputs henters hreaches, hstops⟩

theorem Fails.after {node : Node} {rest : List Node} {s s₁ : Store} {h : Halt Fault} {fuel : Nat}
    (hnode : runNode fuel node s = .ok s₁) (hfails : Fails rest s₁ h) :
    Fails (node :: rest) s h := by
  rcases hfails with rfl | ⟨id, op, operands, outputs, rest', s', args', hreaches, hstops⟩
  · exact Or.inl rfl
  · exact Or.inr ⟨id, op, operands, outputs, rest', s', args', .after ⟨fuel, hnode⟩ hreaches,
      hstops⟩

/-! ## What is asked of a graph -/

/-- A constant that is an array has axes, and none of length zero. -/
def Operand.Tame : Operand → Prop
  | .const (.array a) => a.shape ≠ [] ∧ 0 ∉ a.shape
  | _ => True

instance : (operand : Operand) → Decidable operand.Tame
  | .const (.array a) => inferInstanceAs (Decidable (a.shape ≠ [] ∧ 0 ∉ a.shape))
  | .const (.scalar _) | .const .none | .const (.str _) | .const (.list _) | .const (.tuple _)
  | .const (.dict _) | .const (.range _ _ _) | .const (.enumerate _ _) | .const (.traced _ _)
  | .var _ => isTrue trivial

def NodeKind.isPower : NodeKind → Bool
  | .apply (.binary .pow) => true
  | _ => false

/-- A node that is a power has an operand with float elements. -/
def Node.FloatPower (g : Graph) (node : Node) : Prop :=
  node.kind.isPower → ∀ types, g.operandTypes node.inputs = .ok types →
    ∃ type ∈ types, type.elem = .float

/-- No axis of a value or of a constant has length zero, no constant is an array without axes, and
no power is one of two integers. -/
structure Graph.Tame (g : Graph) : Prop where
  axes : ∀ id type, Bindings.find? g.types id = some type → 0 ∉ type.shape
  constants : ∀ node ∈ g.body.allNodes, ∀ operand ∈ node.operands, operand.Tame
  powers : ∀ node ∈ g.body.allNodes, node.FloatPower g

/-- All nodes, at any depth, are proper ones of a tame graph. -/
def NodesFit (g : Graph) (nodes : List Node) : Prop :=
  ∀ node ∈ nodesBelow nodes,
    node.Proper ∧ (∀ operand ∈ node.operands, operand.Tame) ∧ node.FloatPower g

/-- Operands whose constants have values of their types. -/
def ConstantsFit (operands : List Operand) : Prop :=
  ∀ v, .const v ∈ operands → v.Formed ∧ (Operand.const v).Tame

def Region.Fits (g : Graph) (r : Region) : Prop :=
  NodesFit g r.nodes ∧ ConstantsFit r.results

namespace NodesFit

variable {g : Graph} {node : Node} {rest : List Node}

theorem head (h : NodesFit g (node :: rest)) :
    node.Proper ∧ ConstantsFit node.operands ∧ node.FloatPower g := by
  obtain ⟨hproper, htame, hpower⟩ := h node (mem_nodesBelow.mpr ⟨node, by simp, Or.inl rfl⟩)
  exact ⟨hproper, fun v hv => ⟨hproper.constants v hv, htame _ hv⟩, hpower⟩

theorem tail (h : NodesFit g (node :: rest)) : NodesFit g rest := by
  intro n hn
  obtain ⟨other, hother, hn⟩ := mem_nodesBelow.mp hn
  exact h n (mem_nodesBelow.mpr ⟨other, by simp [hother], hn⟩)

theorem region (h : NodesFit g (node :: rest)) {r : Region} (hr : r ∈ node.kind.regions) :
    r.Fits g := by
  refine ⟨fun n hn => h n (mem_nodesBelow.mpr ⟨node, by simp, Or.inr ?_⟩), fun v hv => ?_⟩
  · refine NodeKind.mem_allNodes.mpr ⟨r, hr, ?_⟩
    obtain ⟨params, nodes, results⟩ := r
    exact hn
  · exact h.head.2.1 v (List.mem_append_right _ (List.mem_flatMap.mpr ⟨r, hr, hv⟩))

theorem whileLoop (h : NodesFit g (node :: rest)) {test body : Region}
    (hkind : node.kind = .whileLoop test body) : test.Fits g ∧ body.Fits g := by
  refine ⟨h.region ?_, h.region ?_⟩ <;> simp [hkind, NodeKind.regions]

end NodesFit

theorem Value.hasType_of_fits {v : Value} {type : ArrayType} (hformed : v.Formed)
    (htame : (Operand.const v).Tame) (htraced : v.isTraced = false) (h : v.arrayType = .ok type) :
    v.HasType type := by
  cases hformed with
  | scalar s =>
    cases h
    exact .scalar s
  | array hform =>
    cases h
    exact .array hform htame.1 htame.2
  | traced id type => cases htraced
  | _ => cases h

/-! ## Stores -/

namespace Store

/-- Every value of the store has just the type that the table records for it. -/
def Typed (table : TypeTable) (s : Store) : Prop :=
  ∀ id v, Bindings.find? s id = some v →
    ∃ type, Bindings.find? table id = some type ∧ v.HasType type

/-- A store for a scope: everything in scope has a value, and all values have their types. -/
structure Models (table : TypeTable) (scope : List Nat) (s : Store) : Prop where
  covers : s.Covers scope
  typed : s.Typed table

variable {table : TypeTable} {scope : List Nat} {s : Store}

theorem Typed.insertAll {ids : List Nat} {types : List ArrayType} {values : List Value}
    (hs : s.Typed table) (hids : table.Gives ids types)
    (hvalues : List.Forall₂ Value.HasType values types) :
    Typed table (Bindings.insertAll s ids values) := by
  induction hids generalizing s values with
  | nil =>
    cases hvalues
    exact hs
  | @cons id type ids types hid _ ih =>
    cases hvalues with
    | @cons v _ vs _ hv hvs =>
      rw [Bindings.insertAll]
      refine ih (fun x w hx => ?_) hvs
      rw [Bindings.find?_insert] at hx
      split at hx
      · next heq =>
        cases hx
        exact ⟨type, heq ▸ hid, hv⟩
      · exact hs x w hx

namespace Models

theorem insertAll {ids : List Nat} {types : List ArrayType} {values : List Value}
    (hs : s.Models table scope) (hids : table.Gives ids types)
    (hvalues : List.Forall₂ Value.HasType values types) :
    Models table (ids ++ scope) (Bindings.insertAll s ids values) where
  covers := by
    have hlen : ids.length = values.length := hids.length_eq.trans hvalues.length_eq.symm
    exact (covers_insertAll s hlen).append (hs.covers.mono (grows_insertAll s ids values))
  typed := hs.typed.insertAll hids hvalues

theorem of_subset {scope' : List Nat} (hs : s.Models table scope) (h : scope' ⊆ scope) :
    s.Models table scope' where
  covers := fun id hid => hs.covers id (h hid)
  typed := hs.typed

/-- Operands of types have values of just these types. -/
theorem operands {inputs : List Operand} {types : List ArrayType} (hs : s.Models table scope)
    (hfit : ConstantsFit inputs) (h : HaveTypes table scope inputs types) :
    ∃ args, s.operands inputs = .ok args ∧ List.Forall₂ Value.HasType args types := by
  induction h with
  | nil => exact ⟨[], rfl, .nil⟩
  | @cons operand type inputs types hoperand _ ih =>
    obtain ⟨args, hargs, htypes⟩ := ih fun v hv => hfit v (by simp [hv])
    have hvalue : ∃ v, s.operand operand = .ok v ∧ v.HasType type := by
      cases operand with
      | const v =>
        obtain ⟨hformed, htame⟩ := hfit v (by simp)
        exact ⟨v, rfl, Value.hasType_of_fits hformed htame hoperand.1 hoperand.2⟩
      | var id =>
        obtain ⟨v, hv⟩ := Option.isSome_iff_exists.mp (hs.covers id hoperand.1)
        obtain ⟨type', htype', hv'⟩ := hs.typed id v hv
        obtain rfl : type' = type := Option.some.inj (htype'.symm.trans hoperand.2)
        exact ⟨v, by simp only [operand, hv], hv'⟩
    obtain ⟨v, hv, hv'⟩ := hvalue
    refine ⟨v :: args, ?_, .cons hv' htypes⟩
    unfold Store.operands at hargs ⊢
    rw [List.mapM_cons, hv, hargs]
    rfl

end Models

theorem operands_const {inputs : List Operand} {args : List Value} {v : Value} {i : Nat}
    (h : s.operands inputs = .ok args) (hi : inputs[i]? = some (.const v)) : args[i]? = some v := by
  unfold operands at h
  induction inputs generalizing args i with
  | nil => cases hi
  | cons operand inputs ih =>
    rw [List.mapM_cons] at h
    obtain ⟨w, hw, h₁⟩ := Outcome.bind_eq_ok h
    obtain ⟨ws, hws, h₂⟩ := Outcome.bind_eq_ok h₁
    cases h₂
    cases i with
    | zero =>
      cases hi
      cases hw
      rfl
    | succ i =>
      have hrest : ws[i]? = some v := ih hws hi
      exact hrest

end Store

/-! ## Runs -/

/-- A counted loop ends as its body does, from indices and states that it comes to. -/
theorem ends_countLoop {σ : Type} {body : Int64 → σ → Outcome σ} {stop step : Int}
    {P : Int → σ → Prop} {Q : σ → Prop} {E : Halt Fault → Prop} (hdone : ∀ i s, P i s → Q s)
    (hround : ∀ i s, P i s → InRange stop step i → (body (Int64.ofInt i) s).Ends
      (fun s' => Q s' ∧ (FitsInt64 (i + step) → P (i + step) s')) E)
    (i : Int) (s : σ) (hs : P i s) : (countLoop body stop step i s).Ends Q E := by
  fun_induction countLoop body stop step i s with
  | case1 i s hloop s' hs' hfits ih =>
    have h := hround i s hs hloop
    rw [hs'] at h
    exact ih (h.2 hfits)
  | case2 i s hloop s' hs' hfits =>
    have h := hround i s hs hloop
    rw [hs'] at h
    exact h.1
  | case3 i s hloop e he =>
    have h := hround i s hs hloop
    rw [he] at h
    exact h
  | case4 i s hloop => exact hdone i s hs

/-- With this much fuel, all parts of a graph lead from values of their types to such values, and
stop only where an operation does. -/
structure SoundRuns (g : Graph) (fuel : Nat) : Prop where
  nodes : ∀ {nodes : List Node} {scope : List Nat} {s : Store}, nodesTyped g.types nodes scope →
    NodesFit g nodes → s.Models g.types scope →
    (runNodes fuel nodes s).Ends (Store.Models g.types (definedBy nodes ++ scope)) (Fails nodes s)
  region : ∀ {r : Region} {scope : List Nat} {ins outs : List ArrayType} {args : List Value}
    {s : Store}, r.Typed g.types scope ins outs → r.Fits g → s.Models g.types scope →
    List.Forall₂ Value.HasType args ins →
    (runRegion fuel r args s).Ends
      (fun p => List.Forall₂ Value.HasType p.1 outs ∧ p.2.Models g.types scope)
      (Fails r.nodes (Bindings.insertAll s r.params args))
  node : ∀ {node : Node} {rest : List Node} {scope : List Nat} {types : List ArrayType} {s : Store},
    g.types.Gives node.outputs types → node.kind.Typed g.types scope node.inputs types →
    NodesFit g (node :: rest) → s.Models g.types scope →
    (runNode fuel node s).Ends (Store.Models g.types (node.outputs ++ scope))
      (Fails (node :: rest) s)
  loop : ∀ {test body : Region} {scope : List Nat} {types : List ArrayType}
    {carried values : List Value} {s t : Store}, test.Typed g.types scope types [.scalar .bool] →
    body.Typed g.types scope types types → test.Fits g → body.Fits g →
    LoopsTo test body carried s values t → t.Models g.types scope →
    List.Forall₂ Value.HasType values types →
    (runWhile fuel test body values t).Ends
      (fun p => List.Forall₂ Value.HasType p.1 types ∧ p.2.Models g.types scope)
      ((NodeKind.whileLoop test body).FailsInside carried s)

section Runs

variable {g : Graph} {fuel : Nat}

theorem soundRuns_zero : SoundRuns g 0 where
  nodes := fun _ _ _ => by
    rw [runNodes]
    exact Or.inl rfl
  region := fun _ _ _ _ => by
    rw [runRegion]
    exact Or.inl rfl
  node := fun _ _ _ _ => by
    rw [runNode]
    exact Or.inl rfl
  loop := fun _ _ _ _ _ _ _ => by
    rw [runWhile]
    exact Or.inl rfl

theorem soundRuns_nodes (ih : SoundRuns g fuel) {nodes : List Node} {scope : List Nat} {s : Store}
    (htyped : nodesTyped g.types nodes scope) (hfit : NodesFit g nodes)
    (hs : s.Models g.types scope) :
    (runNodes (fuel + 1) nodes s).Ends (Store.Models g.types (definedBy nodes ++ scope))
      (Fails nodes s) := by
  cases nodes with
  | nil =>
    rw [runNodes]
    exact hs
  | cons node rest =>
    obtain ⟨id, kind, inputs, outputs⟩ := node
    obtain ⟨⟨types, hout, hkind⟩, hrest⟩ := htyped
    rw [runNodes]
    refine .bind ((ih.node hout hkind hfit hs).with_eq.mono ?_ fun _ h => h.2)
    rintro s₁ ⟨hrun, hs₁⟩
    refine (ih.nodes hrest hfit.tail hs₁).mono (fun s₂ hs₂ => ?_) fun h hh => .after hrun hh
    refine hs₂.of_subset fun x hx => ?_
    simp only [definedBy, List.flatMap_cons, List.mem_append] at hx ⊢
    tauto

theorem soundRuns_region (ih : SoundRuns g fuel) {r : Region} {scope : List Nat}
    {ins outs : List ArrayType} {args : List Value} {s : Store}
    (htyped : r.Typed g.types scope ins outs) (hfit : r.Fits g) (hs : s.Models g.types scope)
    (hargs : List.Forall₂ Value.HasType args ins) :
    (runRegion (fuel + 1) r args s).Ends
      (fun p => List.Forall₂ Value.HasType p.1 outs ∧ p.2.Models g.types scope)
      (Fails r.nodes (Bindings.insertAll s r.params args)) := by
  obtain ⟨params, nodes, results⟩ := r
  obtain ⟨hparams, hnodes, houts⟩ := htyped
  rw [runRegion]
  refine .bind ((ih.nodes hnodes hfit.1 (hs.insertAll hparams hargs)).mono (fun s₁ hs₁ => ?_)
    fun _ h => h)
  obtain ⟨values, hvalues, htypes⟩ := hs₁.operands hfit.2 houts
  refine .bind (.of_eq_ok hvalues (.pure ⟨htypes, hs₁.of_subset fun x hx => ?_⟩))
  simp [hx]

theorem soundRuns_loop (ih : SoundRuns g fuel) {test body : Region} {scope : List Nat}
    {types : List ArrayType} {carried values : List Value} {s t : Store}
    (htest : test.Typed g.types scope types [.scalar .bool])
    (hbody : body.Typed g.types scope types types) (hfitTest : test.Fits g)
    (hfitBody : body.Fits g) (hloops : LoopsTo test body carried s values t)
    (ht : t.Models g.types scope) (hvalues : List.Forall₂ Value.HasType values types) :
    (runWhile (fuel + 1) test body values t).Ends
      (fun p => List.Forall₂ Value.HasType p.1 types ∧ p.2.Models g.types scope)
      ((NodeKind.whileLoop test body).FailsInside carried s) := by
  rw [runWhile]
  refine .bind ((ih.region htest hfitTest ht hvalues).with_eq.mono ?_ fun h hh => ?_)
  · rintro ⟨results, t₁⟩ ⟨htested, hresults, ht₁⟩
    cases hresults with
    | @cons predicate _ more _ hpredicate hmore =>
      obtain ⟨truth, htruth⟩ := hpredicate.truthy rfl
      refine .bind (.of_eq_ok (congrArg Outcome.ofFault htruth) ?_)
      cases truth with
      | false => exact .pure ⟨hvalues, ht₁⟩
      | true =>
        refine .bind ((ih.region hbody hfitBody ht₁ hvalues).with_eq.mono ?_ fun h hh => ?_)
        · rintro ⟨values', t'⟩ ⟨hround, hvalues', ht'⟩
          refine ih.loop htest hbody hfitTest hfitBody ?_ ht' hvalues'
          exact .next hloops ⟨fuel, htested⟩ htruth ⟨fuel, hround⟩
        · exact Or.inr ⟨body, values, t₁, .again hloops ⟨fuel, htested⟩ htruth, hh.2⟩
  · exact Or.inr ⟨test, values, t, .test hloops, hh.2⟩

/-- At every index that a counted loop comes to, its values and the store have their types. -/
theorem soundRuns_rounds (ih : SoundRuns g fuel) {body : Region} {scope : List Nat}
    {types : List ArrayType} {start stop step : Value} {carried : List Value} {s : Store}
    {i j k : Int64} (hi : start.toIndex = .ok i) (hj : stop.toIndex = .ok j)
    (hk : step.toIndex = .ok k) (hbody : body.Typed g.types scope (.scalar .int :: types) types)
    (hfit : body.Fits g) (hs : s.Models g.types scope)
    (hcarried : List.Forall₂ Value.HasType carried types) :
    (countLoop (fun i state => runRegion fuel body (.int i :: state.1) state.2) j.toInt k.toInt
      i.toInt (carried, s)).Ends
      (fun p => List.Forall₂ Value.HasType p.1 types ∧ p.2.Models g.types scope)
      ((NodeKind.forLoop body).FailsInside (start :: stop :: step :: carried) s) := by
  refine ends_countLoop (P := fun l (p : List Value × Store) =>
    CountsTo body j.toInt k.toInt i.toInt carried s l p.1 p.2 ∧
      List.Forall₂ Value.HasType p.1 types ∧ p.2.Models g.types scope)
    (fun _ _ h => h.2) ?_ _ _ ⟨.start, hcarried, hs⟩
  rintro l ⟨values, t⟩ ⟨hcounts, hvalues, ht⟩ hrange
  have hindex : List.Forall₂ Value.HasType (.int (Int64.ofInt l) :: values)
      (.scalar .int :: types) := .cons (.scalar (.int _)) hvalues
  refine (ih.region hbody hfit ht hindex).with_eq.mono ?_ fun h hh => ?_
  · rintro ⟨values', t'⟩ ⟨hround, hnext⟩
    exact ⟨hnext, fun hfits => ⟨.next hcounts hrange ⟨fuel, hround⟩ hfits, hnext⟩⟩
  · exact Or.inr ⟨body, _, t, .round hi hj hk hcounts hrange, hh.2⟩

/-- The values of bounds are integers. -/
theorem toIndex_of_bound {v : Value} {type : ArrayType} (hv : v.HasType type)
    (hbound : Tracer.isLoopBound type) : ∃ k, v.toIndex = .ok k := by
  simp only [Tracer.isLoopBound, Bool.and_eq_true, bne_iff_ne, ne_eq] at hbound
  obtain ⟨k, -, hk⟩ := hv.toIndex hbound.1 hbound.2
  exact ⟨k, hk⟩

theorem soundRuns_node (ih : SoundRuns g fuel) {node : Node} {rest : List Node} {scope : List Nat}
    {types : List ArrayType} {s : Store} (hout : g.types.Gives node.outputs types)
    (hkind : node.kind.Typed g.types scope node.inputs types) (hfit : NodesFit g (node :: rest))
    (hs : s.Models g.types scope) :
    (runNode (fuel + 1) node s).Ends (Store.Models g.types (node.outputs ++ scope))
      (Fails (node :: rest) s) := by
  obtain ⟨id, kind, inputs, outputs⟩ := node
  obtain ⟨hproper, hconstants, hpower⟩ := hfit.head
  have hinputs : ConstantsFit inputs := fun v hv => hconstants v (List.mem_append_left _ hv)
  rw [runNode]
  cases kind with
  | apply op =>
    obtain ⟨ins, type, hin, hresult, rfl⟩ := hkind
    obtain ⟨args, hargs, htypes⟩ := hs.operands hinputs hin
    have htame : op.Tame ins := by
      refine ⟨fun hop => ?_, fun hop => ?_⟩
      · subst hop
        exact hpower rfl ins (Graph.operandTypes_eq hin)
      · rw [← hin.length_eq]
        exact hproper.negation (congrArg NodeKind.apply hop)
    refine .bind (.of_eq_ok hargs ?_)
    refine .bind ((Op.ends_apply htypes hresult htame).with_eq.mono (fun v hv => ?_) fun h hh => ?_)
    · exact .pure (hs.insertAll hout (.cons hv.2 .nil))
    · exact Or.inr ⟨id, op, inputs, outputs, rest, s, args, .here _ _, hargs, hh⟩
  | cond thenRegion elseRegion =>
    obtain ⟨type, ins, hin, hscalar, hthen, helse⟩ := hkind
    obtain ⟨args, hargs, htypes⟩ := hs.operands hinputs hin
    refine .bind (.of_eq_ok hargs ?_)
    cases htypes with
    | @cons predicate _ args _ hpredicate hargs' =>
      obtain ⟨truth, htruth⟩ := hpredicate.truthy hscalar
      refine .bind (.of_eq_ok (congrArg Outcome.ofFault htruth) ?_)
      have hregion : Region.Typed g.types (if truth = true then thenRegion else elseRegion) scope
          ins types := by
        split
        · exact hthen
        · exact helse
      have hmem : (if truth = true then thenRegion else elseRegion) ∈
          (NodeKind.cond thenRegion elseRegion).regions := by
        cases truth <;> simp [NodeKind.regions]
      refine .bind ((ih.region hregion (hfit.region hmem) hs hargs').mono ?_ fun h hh => ?_)
      · rintro ⟨values, s'⟩ ⟨hvalues, hs'⟩
        exact hs'.insertAll hout hvalues
      · exact .inside hargs (Or.inr ⟨_, _, _, .branch htruth, hh⟩)
  | forLoop body =>
    obtain ⟨bounds, hin, hlen, hbounds, hbody⟩ := hkind
    obtain ⟨args, hargs, htypes⟩ := hs.operands hinputs hin
    refine .bind (.of_eq_ok hargs ?_)
    obtain ⟨a, b, c, rfl⟩ := List.length_eq_three.mp hlen
    have hfitBody := hfit.region (r := body) (by simp [NodeKind.regions])
    -- the types alone leave a step of zero open, which the loop would refuse
    obtain ⟨k, hk, hconst⟩ := hproper.step body rfl
    have hstep : args[2]? = some (.int k) := Store.operands_const hargs hconst
    rcases htypes with _ | ⟨hstart, _ | ⟨hstop, _ | ⟨-, hcarried⟩⟩⟩
    cases hstep
    obtain ⟨i, hi⟩ := toIndex_of_bound hstart (hbounds a (by simp))
    obtain ⟨j, hj⟩ := toIndex_of_bound hstop (hbounds b (by simp))
    have hk' : (Value.int k).toIndex = .ok k := rfl
    refine .bind (.of_eq_ok (congrArg Outcome.ofFault hi) ?_)
    refine .bind (.of_eq_ok (congrArg Outcome.ofFault hj) ?_)
    refine .bind (.of_eq_ok (congrArg Outcome.ofFault hk') ?_)
    rw [if_neg hk]
    refine .bind ((soundRuns_rounds ih hi hj hk' hbody hfitBody hs hcarried).mono ?_ fun h hh => ?_)
    · rintro ⟨values, s'⟩ ⟨hvalues, hs'⟩
      exact hs'.insertAll hout hvalues
    · exact .inside hargs hh
  | whileLoop test body =>
    obtain ⟨hin, htest, hbody⟩ := hkind
    obtain ⟨args, hargs, htypes⟩ := hs.operands hinputs hin
    refine .bind (.of_eq_ok hargs ?_)
    obtain ⟨hfitTest, hfitBody⟩ := hfit.whileLoop rfl
    refine .bind ((ih.loop htest hbody hfitTest hfitBody .start hs htypes).mono ?_ fun h hh => ?_)
    · rintro ⟨values, s'⟩ ⟨hvalues, hs'⟩
      exact hs'.insertAll hout hvalues
    · exact .inside hargs hh

/-- Every run is sound, whatever its fuel. -/
theorem soundRuns (g : Graph) (fuel : Nat) : SoundRuns g fuel := by
  induction fuel with
  | zero => exact soundRuns_zero
  | succ fuel ih =>
    exact ⟨soundRuns_nodes ih, soundRuns_region ih, soundRuns_node ih, soundRuns_loop ih⟩

end Runs

/-! ## Points that a run comes to -/

section Points

variable {g : Graph} {scope : List Nat} {types : List ArrayType}

theorem RunsRegion.models {r : Region} {ins outs : List ArrayType} {args values : List Value}
    {s s' : Store} (h : RunsRegion r args s values s') (htyped : r.Typed g.types scope ins outs)
    (hfit : r.Fits g) (hs : s.Models g.types scope) (hargs : List.Forall₂ Value.HasType args ins) :
    List.Forall₂ Value.HasType values outs ∧ s'.Models g.types scope := by
  obtain ⟨fuel, h⟩ := h
  exact ((soundRuns g fuel).region htyped hfit hs hargs).of_ok h

theorem CountsTo.models {body : Region} {stop step i l : Int} {carried values : List Value}
    {s t : Store} (h : CountsTo body stop step i carried s l values t)
    (hbody : body.Typed g.types scope (.scalar .int :: types) types)
    (hfit : body.Fits g) (hs : s.Models g.types scope)
    (hcarried : List.Forall₂ Value.HasType carried types) :
    List.Forall₂ Value.HasType values types ∧ t.Models g.types scope := by
  induction h with
  | start => exact ⟨hcarried, hs⟩
  | next _ _ hround _ ih => exact hround.models hbody hfit ih.2 (.cons (.scalar (.int _)) ih.1)

theorem LoopsTo.models {test body : Region} {carried values : List Value} {s t : Store}
    (h : LoopsTo test body carried s values t)
    (htest : test.Typed g.types scope types [.scalar .bool])
    (hbody : body.Typed g.types scope types types) (hfitTest : test.Fits g)
    (hfitBody : body.Fits g) (hs : s.Models g.types scope)
    (hcarried : List.Forall₂ Value.HasType carried types) :
    List.Forall₂ Value.HasType values types ∧ t.Models g.types scope := by
  induction h with
  | start => exact ⟨hcarried, hs⟩
  | next _ htested _ hround ih =>
    have hafter := htested.models htest hfitTest ih.2 ih.1
    exact hround.models hbody hfitBody hafter.2 ih.1

/-- A region that a node comes to run gets arguments of its types, and a store for the scope of the
node. -/
theorem NodeKind.Enters.models {node : Node} {rest : List Node} {inputs args : List Value}
    {region : Region} {s t : Store} (h : node.kind.Enters inputs s region args t)
    (htyped : node.kind.Typed g.types scope node.inputs types) (hfit : NodesFit g (node :: rest))
    (hinputs : s.operands node.inputs = .ok inputs) (hs : s.Models g.types scope) :
    region ∈ node.kind.regions ∧ t.Models g.types scope ∧ ∃ ins outs,
      region.Typed g.types scope ins outs ∧ List.Forall₂ Value.HasType args ins := by
  obtain ⟨id, kind, operands, outputs⟩ := node
  have hconstants : ConstantsFit operands :=
    fun v hv => hfit.head.2.1 v (List.mem_append_left _ hv)
  have hvalues : ∀ {ins}, HaveTypes g.types scope operands ins →
      List.Forall₂ Value.HasType inputs ins := by
    intro ins hin
    obtain ⟨values, hvalues, htypes⟩ := hs.operands hconstants hin
    obtain rfl : values = inputs := Except.ok.inj (hvalues.symm.trans hinputs)
    exact htypes
  cases h with
  | @branch thenRegion elseRegion predicate truth args s htruth =>
    obtain ⟨type, ins, hin, -, hthen, helse⟩ := htyped
    cases hvalues hin with
    | cons _ hargs =>
      cases truth with
      | true => exact ⟨by simp [NodeKind.regions], hs, ins, types, hthen, hargs⟩
      | false => exact ⟨by simp [NodeKind.regions], hs, ins, types, helse, hargs⟩
  | round _ _ _ hcounts _ =>
    obtain ⟨bounds, hin, hlen, -, hbody⟩ := htyped
    obtain ⟨a, b, c, rfl⟩ := List.length_eq_three.mp hlen
    have hmem : region ∈ (NodeKind.forLoop region).regions := by simp [NodeKind.regions]
    rcases hvalues hin with _ | ⟨-, _ | ⟨-, _ | ⟨-, hcarried⟩⟩⟩
    obtain ⟨hcounted, ht⟩ := hcounts.models hbody (hfit.region hmem) hs hcarried
    exact ⟨hmem, ht, _, _, hbody, .cons (.scalar (.int _)) hcounted⟩
  | test hloops =>
    obtain ⟨hin, htest, hbody⟩ := htyped
    obtain ⟨hfitTest, hfitBody⟩ := hfit.whileLoop rfl
    obtain ⟨hcarried, ht⟩ := hloops.models htest hbody hfitTest hfitBody hs (hvalues hin)
    exact ⟨by simp [NodeKind.regions], ht, _, _, htest, hcarried⟩
  | again hloops htested _ =>
    obtain ⟨hin, htest, hbody⟩ := htyped
    obtain ⟨hfitTest, hfitBody⟩ := hfit.whileLoop rfl
    obtain ⟨hcarried, ht⟩ := hloops.models htest hbody hfitTest hfitBody hs (hvalues hin)
    have ht₁ := (htested.models htest hfitTest ht hcarried).2
    exact ⟨by simp [NodeKind.regions], ht₁, _, _, hbody, hcarried⟩

/-- Wherever a run comes to, the store has values of the recorded types. -/
theorem Reaches.models {nodes nodes' : List Node} {s s' : Store} (h : Reaches nodes s nodes' s')
    (htyped : nodesTyped g.types nodes scope) (hfit : NodesFit g nodes)
    (hs : s.Models g.types scope) : s'.Typed g.types := by
  induction h generalizing scope with
  | here nodes s => exact hs.typed
  | @inside node rest nodes' inputs args region s s₁ s' hinputs henters _ ih =>
    obtain ⟨id, kind, operands, outputs⟩ := node
    obtain ⟨⟨types, -, hkind⟩, -⟩ := htyped
    obtain ⟨hmem, hs₁, ins, outs, hregion, hargs⟩ := henters.models hkind hfit hinputs hs
    have hfit' := (hfit.region hmem).1
    obtain ⟨params, nodes, results⟩ := region
    exact ih hregion.2.1 hfit' (hs₁.insertAll hregion.1 hargs)
  | @after node rest nodes' s s₁ s' hnode _ ih =>
    obtain ⟨id, kind, operands, outputs⟩ := node
    obtain ⟨⟨types, hout, hkind⟩, hrest⟩ := htyped
    obtain ⟨fuel, hnode⟩ := hnode
    have hs₁ := ((soundRuns g fuel).node hout hkind hfit hs).of_ok hnode
    exact ih hrest hfit.tail hs₁

end Points

/-- A run that ends comes to its end. -/
theorem RunsTo.reaches {nodes : List Node} {s s' : Store} (h : RunsTo nodes s s') :
    Reaches nodes s [] s' := by
  induction nodes generalizing s with
  | nil =>
    rw [h.nil]
    exact .here [] s
  | cons node rest ih =>
    obtain ⟨s₁, hnode, hrest⟩ := h.cons
    exact .after hnode (ih hrest)

/-! ## Traced graphs -/

/-- A scalar, or a well-formed array that has axes. -/
def Value.Concrete : Value → Prop
  | .scalar _ => True
  | .array a => a.WellFormed ∧ a.shape ≠ []
  | _ => False

namespace Graph

/-- Inputs that have the types that the graph records for them. -/
def Accepts (g : Graph) (inputs : List Value) : Prop :=
  List.Forall₂ (fun id v => v.Concrete ∧ ∃ type, Bindings.find? g.types id = some type ∧
    v.arrayType = .ok type) g.inputs inputs

/-- The run of a graph on inputs comes to a point where `nodes` are next. -/
def Comes (g : Graph) (inputs : List Value) (nodes : List Node) (s : Store) : Prop :=
  Reaches g.body.nodes (Bindings.insertAll [] g.inputs inputs) nodes s

/-- A graph runs on inputs with values of the recorded types only, and fails only where one of its
operations divides by zero, indexes past the end of an array, or has no integer to give. -/
structure SoundOn (g : Graph) (inputs : List Value) (output : Value) : Prop where
  typed : ∀ nodes s id v, g.Comes inputs nodes s → Bindings.find? s id = some v →
    ∃ type, Bindings.find? g.types id = some type ∧ v.arrayType = .ok type
  ends : ∀ fuel s, g.run fuel inputs = .ok s → g.Comes inputs [] s
  fails : ∀ fuel h, g.evaluate fuel inputs output = .error h → h = .outOfFuel ∨
    (h = .error .divisionByZero ∨ (∃ i length, h = .error (.bounds i length)) ∨
      h = .crash .overflow) ∧ ∃ node rest s op args, g.Comes inputs (node :: rest) s ∧
      node.kind = .apply op ∧ s.operands node.inputs = .ok args ∧ op.apply args = .error h ∧
      op.Stops args h

variable {g : Graph} {inputs : List Value} {output : Value}

/-- Accepted inputs have values of the recorded types if no axis has length zero. -/
theorem Accepts.hasTypes (h : g.Accepts inputs)
    (haxes : ∀ id type, Bindings.find? g.types id = some type → 0 ∉ type.shape) :
    ∃ types, g.types.Gives g.inputs types ∧ List.Forall₂ Value.HasType inputs types := by
  unfold Accepts at h
  generalize g.inputs = ids at h ⊢
  induction h with
  | nil => exact ⟨[], .nil, .nil⟩
  | @cons id v ids values hv _ ih =>
    obtain ⟨types, hids, hvalues⟩ := ih
    obtain ⟨hconcrete, type, htype, hv⟩ := hv
    have hv' : v.HasType type := by
      cases v with
      | scalar x =>
        cases hv
        exact .scalar x
      | array a =>
        cases hv
        exact .array hconcrete.1 hconcrete.2 (haxes id _ htype)
      | _ => exact hconcrete.elim
    exact ⟨type :: types, .cons htype hids, .cons hv' hvalues⟩

theorem Accepts.models (h : g.Accepts inputs) (htame : g.Tame) :
    Store.Models g.types g.inputs (Bindings.insertAll [] g.inputs inputs) := by
  obtain ⟨types, hids, hvalues⟩ := h.hasTypes htame.axes
  have hempty : Store.Models g.types [] [] :=
    ⟨fun id hid => absurd hid List.not_mem_nil, fun id v hv => by cases hv⟩
  exact (hempty.insertAll hids hvalues).of_subset (List.subset_append_left _ _)

theorem Tame.nodesFit (htame : g.Tame) (hproper : g.body.Proper) : NodesFit g g.body.nodes := by
  have hnodes : g.body.allNodes = nodesBelow g.body.nodes := by
    cases g.body
    rfl
  intro node hnode
  rw [← hnodes] at hnode
  exact ⟨hproper node hnode, htame.constants node hnode, htame.powers node hnode⟩

/-- Reading the output off the store does not fail. -/
theorem Closed.ends_evaluate (hclosed : g.Closed output) (hfit : NodesFit g g.body.nodes)
    (hlen : inputs.length = g.inputs.length)
    (hs : Store.Models g.types g.inputs (Bindings.insertAll [] g.inputs inputs)) (fuel : Nat) :
    (g.evaluate fuel inputs output).Ends (fun _ => True)
      (Fails g.body.nodes (Bindings.insertAll [] g.inputs inputs)) := by
  unfold evaluate Graph.run
  rw [if_neg (not_not.mpr hlen)]
  refine .bind (((soundRuns g fuel).nodes hclosed.typed hfit hs).mono (fun s' hs' => ?_)
    fun _ h => h)
  obtain ⟨w, hw⟩ := exists_materialize output fun p hp => hs'.covers p.1 (hclosed.output p hp)
  exact .of_eq_ok hw trivial

/-- A closed graph of proper nodes is sound on the inputs that it accepts. -/
theorem Closed.soundOn (hclosed : g.Closed output) (hproper : g.body.Proper) (htame : g.Tame)
    (h : g.Accepts inputs) : g.SoundOn inputs output where
  typed := by
    intro nodes s id v hcomes hv
    have hfit := htame.nodesFit hproper
    obtain ⟨type, htype, hv'⟩ := hcomes.models hclosed.typed hfit (h.models htame) id v hv
    exact ⟨type, htype, hv'.arrayType_eq⟩
  ends := by
    intro fuel s hrun
    unfold Graph.run at hrun
    split at hrun
    · cases hrun
    · exact RunsTo.reaches ⟨fuel, hrun⟩
  fails := by
    intro fuel e herror
    have hfit := htame.nodesFit hproper
    have hends := hclosed.ends_evaluate hfit h.length_eq.symm (h.models htame) fuel
    rcases hends.of_error herror with hfuel | ⟨id, op, operands, outputs, rest, s, args, hcomes,
      hargs, happly, hstops⟩
    · exact Or.inl hfuel
    · exact Or.inr ⟨hstops.halts, _, rest, s, op, args, hcomes, rfl, hargs, happly, hstops⟩

end Graph

namespace Workbench

/-- Traced graphs are type sound. The arrays that come in from outside have as many elements as
their shapes have room for, as all arrays have that are made by operations. -/
theorem typeSound_trace {fuel handle : Nat} {args : List Argument} {w w' : Workbench} {r : Trace}
    (hargs : ∀ v, .fixed v ∈ args → v.placeholders = [] ∧ v.Formed)
    (h : trace fuel handle args w = (.ok r, w')) (htame : r.graph.Tame) {inputs : List Value}
    (hinputs : r.graph.Accepts inputs) : r.graph.SoundOn inputs r.output := by
  obtain ⟨hresult, hgraph⟩ := trace_eq_ok h
  obtain ⟨f, w₁, -, htraced⟩ := traceWith_eq_ok hresult
  rw [htraced] at hresult hgraph
  have hclosed := closed_traceCall _ fuel none (fun v hv => (hargs v hv).1) hresult
  have hproper := proper_traceCall _ fuel none (fun v hv => (hargs v hv).1)
    (fun v hv => (hargs v hv).2) hresult
  rw [← hgraph] at hclosed hproper
  exact hclosed.soundOn hproper htame hinputs

/-! The example divides in the rounds of a loop, the last time by zero. -/

def share : FunctionDef :=
  ⟨"share", [⟨"x", none⟩, ⟨"n", none⟩],
    [.whileDo (.binary .ge (.var "n") (.literal (.int 0)))
        [.act (.update "x" .floorDiv (.var "n")) .unknown,
          .act (.update "n" .sub (.literal (.int 1))) .unknown] .unknown,
      .act (.ret (some (.var "x"))) .unknown], none, none, .unknown⟩

def shareArgs : List Argument :=
  [.dynamic (.int 6), .dynamic (.int 2)]

def shareBench : Workbench :=
  (Workbench.register {} share).2

/-- What can be read off the graph of the example. -/
def IsShared (r : Trace) : Prop :=
  (∀ e ∈ r.graph.types, 0 ∉ e.2.shape) ∧
    (∀ node ∈ r.graph.body.allNodes,
      (∀ operand ∈ node.operands, operand.Tame) ∧ node.kind.isPower = false) ∧
    r.graph.inputs = [0, 1] ∧ Bindings.find? r.graph.types 0 = some (.scalar .int) ∧
    Bindings.find? r.graph.types 1 = some (.scalar .int)

instance (r : Trace) : Decidable (IsShared r) :=
  inferInstanceAs (Decidable (_ ∧ _ ∧ _ ∧ _ ∧ _))

theorem typeSound_trace_share :
    ∃ r w', trace 20 0 shareArgs shareBench = (.ok r, w') ∧ r.graph.Tame ∧
      r.graph.Accepts [.int 6, .int 2] ∧ r.graph.SoundOn [.int 6, .int 2] r.output := by
  have hshared : (trace 20 0 shareArgs shareBench).1.toOption.map (fun r => decide (IsShared r)) =
      some true := by decide +kernel
  rcases hresult : trace 20 0 shareArgs shareBench with ⟨(h | r), w'⟩
  · rw [hresult] at hshared
    cases hshared
  rw [hresult] at hshared
  obtain ⟨haxes, hnodes, hinputs, hx, hn⟩ := of_decide_eq_true (Option.some.inj hshared)
  have hargs : ∀ v, .fixed v ∈ shareArgs → v.placeholders = [] ∧ v.Formed := by
    intro v hv
    simp [shareArgs] at hv
  have htame : r.graph.Tame :=
    ⟨fun id type h => haxes _ (Bindings.mem_of_find? h), fun node hnode => (hnodes node hnode).1,
      fun node hnode hpower => absurd hpower (by simp [(hnodes node hnode).2])⟩
  have haccepts : r.graph.Accepts [.int 6, .int 2] := by
    unfold Graph.Accepts
    rw [hinputs]
    exact .cons ⟨trivial, _, hx, rfl⟩ (.cons ⟨trivial, _, hn, rfl⟩ .nil)
  exact ⟨r, w', rfl, htame, haccepts, typeSound_trace hargs hresult htame haccepts⟩

end Workbench

end StagedFlow
