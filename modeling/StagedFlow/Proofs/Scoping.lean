import StagedFlow.Graph.Eval
import StagedFlow.Proofs.HostOps
import StagedFlow.Proofs.Lookup
import StagedFlow.Proofs.WellTyped

/-!
Running well-typed nodes. All regions share one store, so what matters is that a store never loses a
value: then every operand that is in scope has one, whichever branch is taken and however often a
loop runs, and every region gets as many arguments as it takes. Main definitions: `Store.Covers`,
`Store.Grows`, `Runs`. Main results: `runs`, `exists_materialize`.
-/
set_option autoImplicit false

namespace StagedFlow

namespace Store

/-- Every value in scope is in the store. -/
def Covers (s : Store) (scope : List Nat) : Prop :=
  ∀ id ∈ scope, (Bindings.find? s id).isSome

/-- A store that has all values of another one. -/
def Grows (s s' : Store) : Prop :=
  ∀ id, (Bindings.find? s id).isSome → (Bindings.find? s' id).isSome

theorem Grows.refl (s : Store) : s.Grows s := fun _ h => h

theorem Grows.trans {s s' s'' : Store} (h : s.Grows s') (h' : s'.Grows s'') : s.Grows s'' :=
  fun id hid => h' id (h id hid)

theorem Covers.mono {s s' : Store} {scope : List Nat} (h : s.Covers scope) (hs : s.Grows s') :
    s'.Covers scope :=
  fun id hid => hs id (h id hid)

theorem Covers.append {s : Store} {a b : List Nat} (ha : s.Covers a) (hb : s.Covers b) :
    s.Covers (a ++ b) := by
  intro id hid
  rcases List.mem_append.mp hid with h | h
  · exact ha id h
  · exact hb id h

theorem grows_insertAll (s : Store) (ids : List Nat) (values : List Value) :
    s.Grows (Bindings.insertAll s ids values) :=
  fun id => Bindings.isSome_find?_insertAll ids values s id

theorem covers_insertAll (s : Store) {ids : List Nat} {values : List Value}
    (h : ids.length = values.length) : Covers (Bindings.insertAll s ids values) ids :=
  fun _ hid => Bindings.find?_insertAll_isSome h hid s

/-! ## Operands -/

variable {table : TypeTable} {scope : List Nat} {s : Store}

theorem regular_operand (hs : s.Covers scope) {operand : Operand} {type : ArrayType}
    (h : operand.HasType table scope type) : (s.operand operand).Regular fun _ => True := by
  cases operand with
  | const v => trivial
  | var id =>
    obtain ⟨v, hv⟩ := Option.isSome_iff_exists.mp (hs id h.1)
    simp only [Store.operand, hv]
    trivial

theorem regular_operands (hs : s.Covers scope) {inputs : List Operand} {types : List ArrayType}
    (h : HaveTypes table scope inputs types) :
    (s.operands inputs).Regular fun values => values.length = types.length := by
  unfold operands
  induction h with
  | nil => rfl
  | cons hoperand _ ih =>
    rw [List.mapM_cons]
    refine .bind ((regular_operand hs hoperand).mono fun v _ _ => ?_)
    exact .bind (ih.mono fun values _ hlen => .pure (congrArg Nat.succ hlen))

end Store

/-! ## Loops -/

/-- A counted loop keeps what its body keeps. -/
theorem regular_countLoop {σ : Type} {body : Int64 → σ → Outcome σ} {P : σ → Prop}
    (hbody : ∀ i s, P s → (body i s).Regular P) (stop step i : Int) (s : σ) (hs : P s) :
    (countLoop body stop step i s).Regular P := by
  fun_induction countLoop body stop step i s with
  | case1 i s hloop s' hs' hfits ih =>
    have h := hbody (Int64.ofInt i) s hs
    rw [hs'] at h
    exact ih h
  | case2 i s hloop s' hs' hfits =>
    have h := hbody (Int64.ofInt i) s hs
    rw [hs'] at h
    exact h
  | case3 i s hloop e he =>
    have h := hbody (Int64.ofInt i) s hs
    rw [he] at h
    exact h
  | case4 => exact hs

open Store

/-- With this much fuel, all parts of a well-typed graph run without blaming it. -/
structure Runs (table : TypeTable) (fuel : Nat) : Prop where
  nodes : ∀ {nodes : List Node} {scope : List Nat} {s : Store}, nodesTyped table nodes scope →
    s.Covers scope → (runNodes fuel nodes s).Regular
      fun s' => s.Grows s' ∧ s'.Covers (definedBy nodes)
  region : ∀ {r : Region} {scope : List Nat} {ins outs : List ArrayType} {args : List Value}
    {s : Store}, r.Typed table scope ins outs → s.Covers scope → args.length = ins.length →
    (runRegion fuel r args s).Regular fun p => p.1.length = outs.length ∧ s.Grows p.2
  node : ∀ {node : Node} {scope : List Nat} {types : List ArrayType} {s : Store},
    table.Gives node.outputs types → node.kind.Typed table scope node.inputs types →
    s.Covers scope → (runNode fuel node s).Regular fun s' => s.Grows s' ∧ s'.Covers node.outputs
  loop : ∀ {cond body : Region} {scope : List Nat} {types : List ArrayType} {carried : List Value}
    {s : Store}, cond.Typed table scope types [.scalar .bool] →
    body.Typed table scope types types → s.Covers scope → carried.length = types.length →
    (runWhile fuel cond body carried s).Regular fun p => p.1.length = types.length ∧ s.Grows p.2

section Runs

variable {table : TypeTable} {fuel : Nat}

theorem runs_zero : Runs table 0 where
  nodes := fun _ _ => by
    rw [runNodes]
    trivial
  region := fun _ _ _ => by
    rw [runRegion]
    trivial
  node := fun _ _ _ => by
    rw [runNode]
    trivial
  loop := fun _ _ _ _ => by
    rw [runWhile]
    trivial

/-- A node ends by binding its outputs. -/
theorem regular_bindOutputs {s s' : Store} {outputs : List Nat} {values : List Value}
    (hs : s.Grows s') (h : outputs.length = values.length) :
    Outcome.Regular (Pure.pure (Bindings.insertAll s' outputs values)) fun s'' =>
      s.Grows s'' ∧ Covers s'' outputs :=
  .pure ⟨hs.trans (grows_insertAll s' outputs values), covers_insertAll s' h⟩

theorem three_of_length {α : Type} {xs : List α} {n : Nat} (h : xs.length = 3 + n) :
    ∃ a b c rest, xs = a :: b :: c :: rest ∧ rest.length = n := by
  match xs, h with
  | [], h => simp only [List.length_nil] at h; omega
  | [_], h => simp only [List.length_cons, List.length_nil] at h; omega
  | [_, _], h => simp only [List.length_cons, List.length_nil] at h; omega
  | a :: b :: c :: rest, h =>
    refine ⟨a, b, c, rest, rfl, ?_⟩
    simp only [List.length_cons] at h
    omega

theorem runs_node_succ (ih : Runs table fuel) {node : Node} {scope : List Nat}
    {types : List ArrayType} {s : Store} (hout : table.Gives node.outputs types)
    (hkind : node.kind.Typed table scope node.inputs types) (hs : s.Covers scope) :
    (runNode (fuel + 1) node s).Regular fun s' => s.Grows s' ∧ s'.Covers node.outputs := by
  obtain ⟨id, kind, inputs, outputs⟩ := node
  have hlen : outputs.length = types.length := hout.length_eq
  rw [runNode]
  cases kind with
  | apply op =>
    obtain ⟨ins, type, hin, -, rfl⟩ := hkind
    refine .bind ((regular_operands hs hin).mono fun args _ _ => ?_)
    refine .bind ((Op.regular_apply op args).mono fun v _ _ => ?_)
    exact regular_bindOutputs (.refl s) hlen
  | cond thenRegion elseRegion =>
    obtain ⟨type, ins, hin, -, hthen, helse⟩ := hkind
    refine .bind ((regular_operands hs hin).mono fun args _ hargs => ?_)
    cases args with
    | nil => cases hargs
    | cons predicate args =>
      refine .bind ((Value.regular_truthy predicate).mono fun truth _ _ => ?_)
      have hregion : Region.Typed table (if truth = true then thenRegion else elseRegion) scope
          ins types := by
        split
        · exact hthen
        · exact helse
      refine .bind ((ih.region hregion hs (Nat.succ.inj hargs)).mono ?_)
      rintro ⟨values, s'⟩ - ⟨hvalues, hgrows⟩
      exact regular_bindOutputs hgrows (hlen.trans hvalues.symm)
  | forLoop body =>
    obtain ⟨bounds, hin, hbounds, -, hbody⟩ := hkind
    refine .bind ((regular_operands hs hin).mono fun args _ hargs => ?_)
    rw [List.length_append, hbounds] at hargs
    obtain ⟨start, stop, step, carried, rfl, hcarried⟩ := three_of_length hargs
    refine .bind ((Value.regular_toIndex start).mono fun start _ _ => ?_)
    refine .bind ((Value.regular_toIndex stop).mono fun stop _ _ => ?_)
    refine .bind ((Value.regular_toIndex step).mono fun step _ _ => ?_)
    split
    · trivial
    -- every round leaves as many values as it got, and the store loses nothing
    refine .bind (Outcome.Regular.mono (regular_countLoop (P := fun p : List Value × Store =>
      p.1.length = types.length ∧ s.Grows p.2) ?_ _ _ _ _ ⟨hcarried, .refl s⟩) ?_)
    · rintro i ⟨values, s'⟩ ⟨hvalues, hgrows⟩
      have hargs' : (Value.int i :: values).length = (ArrayType.scalar .int :: types).length :=
        congrArg Nat.succ hvalues
      refine (ih.region hbody (hs.mono hgrows) hargs').mono ?_
      rintro ⟨values', s''⟩ - ⟨hvalues', hgrows'⟩
      exact ⟨hvalues', hgrows.trans hgrows'⟩
    · rintro ⟨values, s'⟩ - ⟨hvalues, hgrows⟩
      exact regular_bindOutputs hgrows (hlen.trans hvalues.symm)
  | whileLoop cond body =>
    obtain ⟨hin, hcond, hbody⟩ := hkind
    refine .bind ((regular_operands hs hin).mono fun args _ hargs => ?_)
    refine .bind ((ih.loop hcond hbody hs hargs).mono ?_)
    rintro ⟨values, s'⟩ - ⟨hvalues, hgrows⟩
    exact regular_bindOutputs hgrows (hlen.trans hvalues.symm)

theorem runs_succ (ih : Runs table fuel) : Runs table (fuel + 1) where
  nodes := fun {nodes scope s} hnodes hs => by
    cases nodes with
    | nil =>
      rw [runNodes]
      exact ⟨.refl s, fun _ hid => by cases hid⟩
    | cons node rest =>
      obtain ⟨id, kind, inputs, outputs⟩ := node
      obtain ⟨⟨types, hout, hkind⟩, hrest⟩ := hnodes
      rw [runNodes]
      refine .bind ((ih.node hout hkind hs).mono fun s' _ hs' => ?_)
      have hcovers : s'.Covers (outputs ++ scope) := hs'.2.append (hs.mono hs'.1)
      refine (ih.nodes hrest hcovers).mono fun s'' _ hs'' => ?_
      exact ⟨hs'.1.trans hs''.1, (hs'.2.mono hs''.1).append hs''.2⟩
  region := fun {r scope ins outs args s} hr hs hargs => by
    obtain ⟨params, nodes, results⟩ := r
    obtain ⟨hparams, hnodes, hresults⟩ := hr
    rw [runRegion]
    have hlen : params.length = args.length := hparams.length_eq.trans hargs.symm
    have hgrows := grows_insertAll s params args
    have hcovers : Covers (Bindings.insertAll s params args) (params ++ scope) :=
      (covers_insertAll s hlen).append (hs.mono hgrows)
    refine .bind ((ih.nodes hnodes hcovers).mono fun s' _ hs' => ?_)
    have hall : s'.Covers (definedBy nodes ++ (params ++ scope)) := hs'.2.append (hcovers.mono hs'.1)
    refine .bind ((regular_operands hall hresults).mono fun values _ hvalues => ?_)
    exact .pure ⟨hvalues, hgrows.trans hs'.1⟩
  node := runs_node_succ ih
  loop := fun {cond body scope types carried s} hcond hbody hs hcarried => by
    rw [runWhile]
    refine .bind ((ih.region hcond hs hcarried).mono ?_)
    rintro ⟨results, s₁⟩ - ⟨hresults, hgrows₁⟩
    cases results with
    | nil => cases hresults
    | cons predicate more =>
      refine .bind ((Value.regular_truthy predicate).mono fun truth _ _ => ?_)
      split
      · refine .bind ((ih.region hbody (hs.mono hgrows₁) hcarried).mono ?_)
        rintro ⟨carried', s₂⟩ - ⟨hcarried', hgrows₂⟩
        refine (ih.loop hcond hbody ((hs.mono hgrows₁).mono hgrows₂) hcarried').mono ?_
        rintro ⟨values, s₃⟩ - ⟨hvalues, hgrows₃⟩
        exact ⟨hvalues, (hgrows₁.trans hgrows₂).trans hgrows₃⟩
      · exact .pure ⟨hcarried, hgrows₁⟩

theorem runs (table : TypeTable) (fuel : Nat) : Runs table fuel := by
  induction fuel with
  | zero => exact runs_zero
  | succ fuel ih => exact runs_succ ih

end Runs

/-! ## Reading a value off a store -/

section Materialize

variable {s : Store}

mutual

/-- A value can be read off a store that has all its placeholders. -/
theorem exists_materialize : ∀ v : Value,
    (∀ p ∈ v.placeholders, (Bindings.find? s p.1).isSome) → ∃ w, materialize s v = .ok w
  | .traced id type, h => by
    obtain ⟨v, hv⟩ := Option.isSome_iff_exists.mp (h (id, type) (by simp [Value.placeholders]))
    exact ⟨v, by simp only [materialize, Store.operand, hv]⟩
  | .list items, h => by
    obtain ⟨vs, hvs⟩ := exists_materializeAll items h
    exact ⟨.list vs, by rw [materialize, hvs]; rfl⟩
  | .tuple items, h => by
    obtain ⟨vs, hvs⟩ := exists_materializeAll items h
    exact ⟨.tuple vs, by rw [materialize, hvs]; rfl⟩
  | .dict entries, h => by
    obtain ⟨es, hes⟩ := exists_materializeEntries entries h
    exact ⟨.dict es, by rw [materialize, hes]; rfl⟩
  | .range start stop step, h => by
    simp only [Value.placeholders, List.mem_append] at h
    obtain ⟨a, ha⟩ := exists_materialize start fun p hp => h p (Or.inl hp)
    obtain ⟨b, hb⟩ := exists_materialize stop fun p hp => h p (Or.inr (Or.inl hp))
    obtain ⟨c, hc⟩ := exists_materialize step fun p hp => h p (Or.inr (Or.inr hp))
    exact ⟨.range a b c, by rw [materialize, ha, hb, hc]; rfl⟩
  | .enumerate inner start, h => by
    obtain ⟨v, hv⟩ := exists_materialize inner h
    exact ⟨.enumerate v start, by rw [materialize, hv]; rfl⟩
  | .scalar x, _ => ⟨.scalar x, rfl⟩
  | .none, _ => ⟨.none, rfl⟩
  | .str text, _ => ⟨.str text, rfl⟩
  | .array a, _ => ⟨.array a, rfl⟩

theorem exists_materializeAll : ∀ vs : List Value,
    (∀ p ∈ Value.placeholdersOf vs, (Bindings.find? s p.1).isSome) →
    ∃ ws, materializeAll s vs = .ok ws
  | [], _ => ⟨[], rfl⟩
  | v :: vs, h => by
    simp only [Value.placeholdersOf, List.mem_append] at h
    obtain ⟨w, hw⟩ := exists_materialize v fun p hp => h p (Or.inl hp)
    obtain ⟨ws, hws⟩ := exists_materializeAll vs fun p hp => h p (Or.inr hp)
    exact ⟨w :: ws, by rw [materializeAll, hw, hws]; rfl⟩

theorem exists_materializeEntries : ∀ entries : List (Value × Value),
    (∀ p ∈ Value.entryPlaceholders entries, (Bindings.find? s p.1).isSome) →
    ∃ es, materializeEntries s entries = .ok es
  | [], _ => ⟨[], rfl⟩
  | (k, v) :: rest, h => by
    simp only [Value.entryPlaceholders, List.mem_append] at h
    obtain ⟨a, ha⟩ := exists_materialize k fun p hp => h p (Or.inl hp)
    obtain ⟨b, hb⟩ := exists_materialize v fun p hp => h p (Or.inr (Or.inl hp))
    obtain ⟨es, hes⟩ := exists_materializeEntries rest fun p hp =>
      h p (Or.inr (Or.inr hp))
    exact ⟨(a, b) :: es, by rw [materializeEntries, ha, hb, hes]; rfl⟩

end

theorem regular_materialize {v : Value}
    (h : ∀ p ∈ v.placeholders, (Bindings.find? s p.1).isSome) :
    (materialize s v).Regular fun _ => True := by
  obtain ⟨w, hw⟩ := exists_materialize v h
  rw [hw]
  trivial

end Materialize

end StagedFlow
