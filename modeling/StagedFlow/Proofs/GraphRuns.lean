import StagedFlow.Graph.Eval
import StagedFlow.Proofs.Growth

/-!
Runs of graphs that come to an end, taken apart: a run of nodes is a run of each, a region binds its
parameters and reads its results, and all that a run changes in the store are the values that the
nodes bind. Main definitions: `RunsTo`, `RunsRegion`. Main results: `RunsTo.append`,
`runNode_eq_ok`, `RunsTo.find?`, `RunsRegion.find?`.
-/
set_option autoImplicit false

namespace StagedFlow

theorem Outcome.ofFault_eq_ok {α : Type} {x : Except Fault α} {a : α}
    (h : Outcome.ofFault x = .ok a) : x = .ok a := by
  cases x with
  | error e => cases h
  | ok b => exact congrArg Except.ok (Except.ok.inj h)

/-! ## Runs that end -/

/-- With some fuel, the nodes run to the end and leave a store. -/
def RunsTo (nodes : List Node) (s s' : Store) : Prop :=
  ∃ fuel, runNodes fuel nodes s = .ok s'

def RunsRegion (r : Region) (args : List Value) (s : Store) (outs : List Value) (s' : Store) :
    Prop :=
  ∃ fuel, runRegion fuel r args s = .ok (outs, s')

namespace RunsTo

variable {a b nodes : List Node} {node : Node} {s s' : Store}

theorem nil (h : RunsTo [] s s') : s' = s := by
  obtain ⟨fuel, h⟩ := h
  cases fuel with
  | zero =>
    rw [runNodes] at h
    cases h
  | succ fuel =>
    rw [runNodes] at h
    exact (Except.ok.inj h).symm

theorem cons (h : RunsTo (node :: nodes) s s') :
    ∃ s₁, (∃ fuel, runNode fuel node s = .ok s₁) ∧ RunsTo nodes s₁ s' := by
  obtain ⟨fuel, h⟩ := h
  cases fuel with
  | zero =>
    rw [runNodes] at h
    cases h
  | succ fuel =>
    rw [runNodes] at h
    obtain ⟨s₁, hnode, hrest⟩ := Outcome.bind_eq_ok h
    exact ⟨s₁, ⟨fuel, hnode⟩, ⟨fuel, hrest⟩⟩

theorem singleton (h : RunsTo [node] s s') : ∃ fuel, runNode fuel node s = .ok s' := by
  obtain ⟨s₁, hnode, hrest⟩ := h.cons
  rw [hrest.nil]
  exact hnode

theorem append (h : RunsTo (a ++ b) s s') : ∃ s₁, RunsTo a s s₁ ∧ RunsTo b s₁ s' := by
  obtain ⟨fuel, h⟩ := h
  -- the fuel for the first part is kept, so that its nodes can be put together again
  suffices hsame : ∃ s₁, runNodes fuel a s = .ok s₁ ∧ RunsTo b s₁ s' by
    obtain ⟨s₁, ha, hb⟩ := hsame
    exact ⟨s₁, ⟨fuel, ha⟩, hb⟩
  induction a generalizing fuel s with
  | nil =>
    cases fuel with
    | zero =>
      rw [runNodes] at h
      cases h
    | succ fuel => exact ⟨s, by rw [runNodes], ⟨fuel + 1, h⟩⟩
  | cons node a ih =>
    cases fuel with
    | zero =>
      rw [runNodes] at h
      cases h
    | succ fuel =>
      rw [List.cons_append, runNodes] at h
      obtain ⟨s₁, hnode, hrest⟩ := Outcome.bind_eq_ok h
      obtain ⟨s₂, ha, hb⟩ := ih fuel hrest
      refine ⟨s₂, ?_, hb⟩
      rw [runNodes, hnode]
      exact ha

end RunsTo

theorem RunsRegion.nodes {r : Region} {args outs : List Value} {s s' : Store}
    (h : RunsRegion r args s outs s') :
    RunsTo r.nodes (Bindings.insertAll s r.params args) s' ∧ s'.operands r.results = .ok outs := by
  obtain ⟨fuel, h⟩ := h
  cases fuel with
  | zero =>
    rw [runRegion] at h
    cases h
  | succ fuel =>
    rw [runRegion] at h
    obtain ⟨s₁, hnodes, h₁⟩ := Outcome.bind_eq_ok h
    obtain ⟨values, hvalues, h₂⟩ := Outcome.bind_eq_ok h₁
    obtain ⟨rfl, rfl⟩ := Prod.mk.inj (Except.ok.inj h₂)
    exact ⟨⟨fuel, hnodes⟩, hvalues⟩

theorem Graph.evaluate_eq_ok {fuel : Nat} {g : Graph} {args : List Value} {output v : Value}
    (h : g.evaluate fuel args output = .ok v) :
    ∃ s, RunsTo g.body.nodes (Bindings.insertAll [] g.inputs args) s ∧
      materialize s output = .ok v := by
  obtain ⟨s, hrun, hout⟩ := Outcome.bind_eq_ok h
  unfold Graph.run at hrun
  split at hrun
  · cases hrun
  · exact ⟨s, ⟨fuel, hrun⟩, hout⟩

/-- What a node does with its inputs to come to its outputs. -/
def NodeKind.Computes (kind : NodeKind) (inputs : List Value) (s : Store) (outs : List Value)
    (s' : Store) : Prop :=
  match kind with
  | .apply op => ∃ v, op.apply inputs = .ok v ∧ outs = [v] ∧ s' = s
  | .cond thenRegion elseRegion =>
    ∃ predicate args truth, inputs = predicate :: args ∧ predicate.truthy = .ok truth ∧
      RunsRegion (if truth then thenRegion else elseRegion) args s outs s'
  | .forLoop body =>
    ∃ start stop step carried i j k fuel, inputs = start :: stop :: step :: carried ∧
      start.toIndex = .ok i ∧ stop.toIndex = .ok j ∧ step.toIndex = .ok k ∧
      countLoop (fun i state => runRegion fuel body (.int i :: state.1) state.2)
        j.toInt k.toInt i.toInt (carried, s) = .ok (outs, s')
  | .whileLoop test body => ∃ fuel, runWhile fuel test body inputs s = .ok (outs, s')

theorem runNode_eq_ok {fuel : Nat} {node : Node} {s s' : Store}
    (h : runNode fuel node s = .ok s') :
    ∃ inputs outs s₁, s.operands node.inputs = .ok inputs ∧
      node.kind.Computes inputs s outs s₁ ∧ s' = Bindings.insertAll s₁ node.outputs outs := by
  cases fuel with
  | zero =>
    rw [runNode] at h
    cases h
  | succ fuel =>
    obtain ⟨id, kind, operands, outputs⟩ := node
    rw [runNode] at h
    obtain ⟨inputs, hinputs, h₁⟩ := Outcome.bind_eq_ok h
    refine ⟨inputs, ?_⟩
    cases kind with
    | apply op =>
      obtain ⟨v, hv, h₂⟩ := Outcome.bind_eq_ok h₁
      exact ⟨[v], s, hinputs, ⟨v, hv, rfl, rfl⟩, (Except.ok.inj h₂).symm⟩
    | cond thenRegion elseRegion =>
      cases inputs with
      | nil => cases h₁
      | cons predicate args =>
        obtain ⟨truth, htruth, h₂⟩ := Outcome.bind_eq_ok h₁
        obtain ⟨⟨outs, s₁⟩, hregion, h₃⟩ := Outcome.bind_eq_ok h₂
        exact ⟨outs, s₁, hinputs,
          ⟨predicate, args, truth, rfl, Outcome.ofFault_eq_ok htruth, fuel, hregion⟩,
          (Except.ok.inj h₃).symm⟩
    | forLoop body =>
      match inputs, h₁ with
      | start :: stop :: step :: carried, h₁ =>
        obtain ⟨i, hi, h₂⟩ := Outcome.bind_eq_ok h₁
        obtain ⟨j, hj, h₃⟩ := Outcome.bind_eq_ok h₂
        obtain ⟨k, hk, h₄⟩ := Outcome.bind_eq_ok h₃
        by_cases hzero : k = 0
        · rw [if_pos hzero] at h₄
          cases h₄
        · rw [if_neg hzero] at h₄
          obtain ⟨⟨outs, s₁⟩, hloop, h₅⟩ := Outcome.bind_eq_ok h₄
          exact ⟨outs, s₁, hinputs,
            ⟨start, stop, step, carried, i, j, k, fuel, rfl, Outcome.ofFault_eq_ok hi,
              Outcome.ofFault_eq_ok hj, Outcome.ofFault_eq_ok hk, hloop⟩,
            (Except.ok.inj h₅).symm⟩
    | whileLoop cond body =>
      obtain ⟨⟨outs, s₁⟩, hloop, h₂⟩ := Outcome.bind_eq_ok h₁
      exact ⟨outs, s₁, hinputs, ⟨fuel, hloop⟩, (Except.ok.inj h₂).symm⟩

/-- One round of a conditional loop: the predicate decides between an end and a round of the body,
after which the loop goes on with less fuel. -/
theorem runWhile_eq_ok {fuel : Nat} {test body : Region} {carried outs : List Value}
    {s s' : Store} (h : runWhile fuel test body carried s = .ok (outs, s')) :
    ∃ less predicate more truth s₁, fuel = less + 1 ∧
      RunsRegion test carried s (predicate :: more) s₁ ∧ predicate.truthy = .ok truth ∧
      if truth then
        ∃ next s₂, RunsRegion body carried s₁ next s₂ ∧
          runWhile less test body next s₂ = .ok (outs, s')
      else outs = carried ∧ s' = s₁ := by
  cases fuel with
  | zero =>
    rw [runWhile] at h
    cases h
  | succ fuel =>
    rw [runWhile] at h
    obtain ⟨⟨results, s₁⟩, htest, h₁⟩ := Outcome.bind_eq_ok h
    cases results with
    | nil => cases h₁
    | cons predicate more =>
      obtain ⟨truth, htruth, h₂⟩ := Outcome.bind_eq_ok h₁
      refine ⟨fuel, predicate, more, truth, s₁, rfl, ⟨fuel, htest⟩,
        Outcome.ofFault_eq_ok htruth, ?_⟩
      cases truth with
      | true =>
        obtain ⟨⟨next, s₂⟩, hbody, h₃⟩ := Outcome.bind_eq_ok h₂
        exact ⟨next, s₂, ⟨fuel, hbody⟩, h₃⟩
      | false =>
        obtain ⟨rfl, rfl⟩ := Prod.mk.inj (Except.ok.inj h₂)
        exact ⟨rfl, rfl⟩

/-! ## What a run leaves alone -/

theorem countLoop_keeps {σ : Type} {body : Int64 → σ → Outcome σ} {P : σ → Prop}
    (hbody : ∀ i s s', P s → body i s = .ok s' → P s') {stop step i : Int} {s s' : σ} (hs : P s)
    (h : countLoop body stop step i s = .ok s') : P s' := by
  fun_induction countLoop body stop step i s with
  | case1 i s hloop s₁ hs₁ hfits ih => exact ih (hbody _ _ _ hs hs₁) h
  | case2 i s hloop s₁ hs₁ hfits =>
    cases h
    exact hbody _ _ _ hs hs₁
  | case3 i s hloop e he => cases h
  | case4 =>
    cases h
    exact hs

theorem runWhile_keeps {test body : Region} {P : Store → Prop}
    (htest : ∀ args s outs s', P s → RunsRegion test args s outs s' → P s')
    (hbody : ∀ args s outs s', P s → RunsRegion body args s outs s' → P s') (fuel : Nat)
    {carried outs : List Value} {s s' : Store} (hs : P s)
    (h : runWhile fuel test body carried s = .ok (outs, s')) : P s' := by
  induction fuel generalizing carried s with
  | zero =>
    rw [runWhile] at h
    cases h
  | succ fuel ih =>
    obtain ⟨less, predicate, more, truth, s₁, hless, hrun, -, hrest⟩ := runWhile_eq_ok h
    obtain rfl := Nat.succ.inj hless
    have hs₁ := htest _ _ _ _ hs hrun
    cases truth with
    | true =>
      obtain ⟨next, s₂, hround, hloop⟩ := hrest
      exact ih (hbody _ _ _ _ hs₁ hround) hloop
    | false =>
      obtain ⟨-, rfl⟩ := hrest
      exact hs₁

mutual

theorem RunsRegion.find? {id : Nat} : ∀ {r : Region} {args outs : List Value} {s s' : Store},
    RunsRegion r args s outs s' → id ∉ r.binders →
      Bindings.find? s' id = Bindings.find? s id
  | ⟨params, nodes, results⟩, args, _, s, _, h, hid => by
    simp only [Region.binders, List.mem_append, not_or] at hid
    exact (h.nodes.1.find? hid.2).trans (Bindings.find?_insertAll_of_notMem hid.1 args s)

theorem RunsTo.find? {id : Nat} : ∀ {nodes : List Node} {s s' : Store}, RunsTo nodes s s' →
    id ∉ bindersOf nodes → Bindings.find? s' id = Bindings.find? s id
  | [], _, _, h, _ => by rw [h.nil]
  | ⟨number, kind, operands, outputs⟩ :: rest, s, s', h, hid => by
    simp only [bindersOf, List.mem_append, not_or] at hid
    obtain ⟨s₁, ⟨fuel, hnode⟩, hrest⟩ := h.cons
    obtain ⟨inputs, outs, s₂, -, hkind, rfl⟩ := runNode_eq_ok hnode
    calc Bindings.find? s' id
        = Bindings.find? (Bindings.insertAll s₂ outputs outs) id := hrest.find? hid.2.2
      _ = Bindings.find? s₂ id := Bindings.find?_insertAll_of_notMem hid.1 outs s₂
      _ = Bindings.find? s id := hkind.find? hid.2.1

/-- All that a run changes are the values that its nodes bind. -/
theorem NodeKind.Computes.find? {id : Nat} : ∀ {kind : NodeKind} {inputs outs : List Value}
    {s s' : Store}, kind.Computes inputs s outs s' → id ∉ kind.binders →
      Bindings.find? s' id = Bindings.find? s id
  | .apply _, _, _, _, _, ⟨_, _, _, hs⟩, _ => by rw [hs]
  | .cond thenRegion elseRegion, _, _, _, _, h, hid => by
    simp only [NodeKind.binders, List.mem_append, not_or] at hid
    obtain ⟨predicate, args, truth, -, -, hregion⟩ := h
    cases truth with
    | true => exact RunsRegion.find? (r := thenRegion) hregion hid.1
    | false => exact RunsRegion.find? (r := elseRegion) hregion hid.2
  | .forLoop body, _, _, s, _, h, hid => by
    obtain ⟨start, stop, step, carried, i, j, k, fuel, -, -, -, -, hloop⟩ := h
    refine countLoop_keeps (P := fun state : List Value × Store =>
      Bindings.find? state.2 id = Bindings.find? s id) ?_ rfl hloop
    intro i state state' hstate hround
    have hregion : RunsRegion body (.int i :: state.1) state.2 state'.1 state'.2 := ⟨fuel, hround⟩
    exact (hregion.find? hid).trans hstate
  | .whileLoop test body, _, _, s, _, ⟨fuel, hloop⟩, hid => by
    simp only [NodeKind.binders, List.mem_append, not_or] at hid
    refine runWhile_keeps (P := fun s' => Bindings.find? s' id = Bindings.find? s id) ?_ ?_ fuel
      rfl hloop
    · intro args s₁ outs s₂ hs hregion
      exact (hregion.find? hid.1).trans hs
    · intro args s₁ outs s₂ hs hregion
      exact (hregion.find? hid.2).trans hs

end

end StagedFlow
