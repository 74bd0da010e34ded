import StagedFlow.Op.Concrete

/-!
What operations on host values can do: they make no placeholders of their own, and they never blame
the graph. Main definitions: `Value.placeholders`, `Outcome.Regular`. Main result:
`Op.regular_apply`.
-/
set_option autoImplicit false

namespace StagedFlow

/-! ## Placeholders -/

namespace Value

mutual

/-- The placeholders anywhere in a value, with their types. -/
def placeholders : Value → List (Nat × ArrayType)
  | .traced id type => [(id, type)]
  | .list items => placeholdersOf items
  | .tuple items => placeholdersOf items
  | .dict entries => entryPlaceholders entries
  | .range start stop step => start.placeholders ++ (stop.placeholders ++ step.placeholders)
  | .enumerate inner _ => inner.placeholders
  | .scalar _ => []
  | .none => []
  | .str _ => []
  | .array _ => []

def placeholdersOf : List Value → List (Nat × ArrayType)
  | [] => []
  | v :: vs => v.placeholders ++ placeholdersOf vs

def entryPlaceholders : List (Value × Value) → List (Nat × ArrayType)
  | [] => []
  | (k, v) :: rest => k.placeholders ++ (v.placeholders ++ entryPlaceholders rest)

end

theorem mem_placeholdersOf {p : Nat × ArrayType} {vs : List Value} :
    p ∈ placeholdersOf vs ↔ ∃ v ∈ vs, p ∈ v.placeholders := by
  induction vs with
  | nil => simp [placeholdersOf]
  | cons v vs ih => simp [placeholdersOf, ih]

theorem placeholdersOf_append (vs ws : List Value) :
    placeholdersOf (vs ++ ws) = placeholdersOf vs ++ placeholdersOf ws := by
  induction vs with
  | nil => rfl
  | cons v vs ih => simp [placeholdersOf, ih]

theorem mem_entryPlaceholders {p : Nat × ArrayType} {entries : List (Value × Value)} :
    p ∈ entryPlaceholders entries ↔
      ∃ e ∈ entries, p ∈ e.1.placeholders ∨ p ∈ e.2.placeholders := by
  induction entries with
  | nil => simp [entryPlaceholders]
  | cons e rest ih =>
    obtain ⟨k, v⟩ := e
    simp [entryPlaceholders, ih, or_assoc]

end Value

/-! ## Outcomes that do not blame the graph -/

namespace Outcome

variable {α β : Type}

/-- An outcome is a value with the property `Q`, or a failure that is no fault of the graph. -/
def Regular (x : Outcome α) (Q : α → Prop) : Prop :=
  match x with
  | .ok a => Q a
  | .error (.error (.malformed _)) => False
  | .error _ => True

theorem ofFault_bind (x : Except Fault α) (f : α → Except Fault β) :
    ofFault (x >>= f) = ofFault x >>= fun a => ofFault (f a) := by
  cases x <;> rfl

theorem ofFault_mapM {γ : Type} (f : γ → Except Fault α) (items : List γ) :
    ofFault (items.mapM f) = items.mapM fun c => ofFault (f c) := by
  induction items with
  | nil => rfl
  | cons c rest ih =>
    simp only [List.mapM_cons, ofFault_bind, ih]
    rfl

theorem ofFault_map (f : α → β) (x : Except Fault α) :
    ofFault (x.map f) = (ofFault x).map f := by
  cases x <;> rfl

namespace Regular

variable {x : Outcome α} {Q Q' : α → Prop}

theorem of_ok {a : α} (h : x.Regular Q) (hx : x = .ok a) : Q a := by
  subst hx
  exact h

theorem ne_malformed (h : x.Regular Q) (cause : GraphFault) :
    x ≠ .error (.error (.malformed cause)) := by
  rintro rfl
  exact h

theorem mono (h : x.Regular Q) (hQ : ∀ a, x = .ok a → Q a → Q' a) : x.Regular Q' := by
  unfold Regular at h ⊢
  split
  · exact hQ _ rfl h
  · exact h
  · trivial

/-- What is asked of values does not matter to a failure. -/
theorem of_error {h : Halt Fault} {R : β → Prop} (hx : Regular (.error h : Outcome α) Q) :
    Regular (.error h : Outcome β) R := by
  cases h with
  | error f => cases f <;> exact hx
  | crash _ => trivial
  | outOfFuel => trivial

theorem bind {f : α → Outcome β} {R : β → Prop} (h : x.Regular fun a => (f a).Regular R) :
    Regular (x >>= f) R := by
  cases x with
  | error e => exact h.of_error
  | ok a => exact h

theorem pure {a : α} (h : Q a) : Regular (Pure.pure a) Q := h

theorem typeFault {cause : TypeFault} : (Outcome.typeFault cause : Outcome α).Regular Q := trivial

theorem map {f : α → β} {R : β → Prop} (h : x.Regular fun a => R (f a)) :
    Regular (Except.map f x) R := by
  cases x with
  | error e => exact h.of_error
  | ok a => exact h

theorem mapM {γ : Type} {f : γ → Outcome α} {P : α → Prop} (items : List γ)
    (h : ∀ c ∈ items, (f c).Regular P) : (items.mapM f).Regular fun as => ∀ a ∈ as, P a := by
  induction items with
  | nil => exact pure (by simp)
  | cons c rest ih =>
    rw [List.mapM_cons]
    refine bind ((h c (by simp)).mono fun a _ ha => ?_)
    refine bind ((ih fun c' hc' => h c' (by simp [hc'])).mono fun as _ has => ?_)
    refine pure fun b hb => ?_
    rcases List.mem_cons.mp hb with rfl | hb
    · exact ha
    · exact has b hb

end Regular

end Outcome

/-! ## Scalars -/

theorem regular_checkedInt64 (n : Int) : (checkedInt64 n).Regular fun _ => True := by
  unfold checkedInt64
  split <;> trivial

theorem regular_floorQuotient (a b : Int64) : (floorQuotient a b).Regular fun _ => True := by
  unfold floorQuotient
  split
  · trivial
  · exact .bind ((regular_checkedInt64 _).mono fun _ _ _ => regular_checkedInt64 _)

theorem regular_floorRemainder (a b : Int64) : (floorRemainder a b).Regular fun _ => True := by
  unfold floorRemainder
  split
  · trivial
  · split
    · trivial
    · exact .bind ((regular_checkedInt64 _).mono fun _ _ _ => .pure trivial)

namespace Scalar

theorem regular_intArith (op : BinaryOp) (a b : Int64) :
    (intArith op a b).Regular fun _ => True := by
  unfold intArith
  split
  · trivial
  · trivial
  · trivial
  · exact .map (regular_floorQuotient a b)
  · exact .map (regular_floorRemainder a b)
  · trivial

theorem regular_binary (op : BinaryOp) (a b : Scalar) : (binary op a b).Regular fun _ => True := by
  unfold binary
  split
  · trivial
  · split
    · trivial
    · exact regular_intArith _ _ _
    · trivial

theorem regular_negate (s : Scalar) : s.negate.Regular fun _ => True := by
  cases s with
  | bool b => trivial
  | int n => exact .map (regular_checkedInt64 _)
  | float x => trivial

end Scalar

/-! ## Arrays -/

namespace NDArray

theorem regular_make (shape : List Nat) (cells : Cells) :
    (make shape cells).Regular fun _ => True := by
  unfold make
  split
  · trivial
  · split <;> trivial

theorem regular_ofScalars (shape : List Nat) (scalars : List Scalar) :
    (ofScalars shape scalars).Regular fun _ => True :=
  regular_make _ _

theorem regular_mapM (a : NDArray) {f : Scalar → Outcome Scalar}
    (hf : ∀ s, (f s).Regular fun _ => True) : (a.mapM f).Regular fun _ => True :=
  .bind ((Outcome.Regular.mapM _ fun s _ => hf s).mono fun _ _ _ => regular_ofScalars _ _)

theorem regular_zipWithM (a b : NDArray) {f : Scalar → Scalar → Outcome Scalar}
    (hf : ∀ s t, (f s t).Regular fun _ => True) : (a.zipWithM b f).Regular fun _ => True := by
  unfold zipWithM
  split
  · exact .bind ((Outcome.Regular.mapM _ fun p _ => hf p.1 p.2).mono fun _ _ _ =>
      regular_ofScalars _ _)
  · trivial

theorem regular_flat (a : NDArray) (i : Nat) : (a.flat i).Regular fun _ => True := by
  unfold flat
  split <;> trivial

theorem regular_broadcastPair (a b : NDArray) : (a.broadcastPair b).Regular fun _ => True := by
  unfold broadcastPair
  split
  · trivial
  · split
    · refine .bind ((regular_flat a 0).mono fun _ _ _ => ?_)
      exact .bind ((regular_ofScalars _ _).mono fun _ _ _ => .pure trivial)
    · split
      · refine .bind ((regular_flat b 0).mono fun _ _ _ => ?_)
        exact .bind ((regular_ofScalars _ _).mono fun _ _ _ => .pure trivial)
      · trivial

theorem regular_index (a : NDArray) (i : Int64) :
    (a.index i).Regular fun v => v.placeholders = [] := by
  unfold index
  split
  · trivial
  · split
    · trivial
    · split
      · trivial
      · split
        · exact .map ((regular_flat _ _).mono fun _ _ _ => rfl)
        · refine .map ?_
          unfold Cells.slice
          split
          · rfl
          · trivial

theorem regular_rows (a : NDArray) :
    a.rows.Regular fun items => ∀ v ∈ items, v.placeholders = [] := by
  unfold rows
  split
  · trivial
  · exact Outcome.Regular.mapM _ fun _ _ => regular_index a _

theorem regular_kronEntry (xs ys : List Scalar) (c₁ r₂ c₂ i j : Nat) :
    (kronEntry xs ys c₁ r₂ c₂ i j).Regular fun _ => True := by
  have hat : ∀ (zs : List Scalar) (k : Nat), (scalarAt zs k).Regular fun _ => True := by
    intro zs k
    unfold scalarAt
    split <;> trivial
  exact .bind ((hat xs _).mono fun _ _ _ =>
    .bind ((hat ys _).mono fun _ _ _ => Scalar.regular_binary _ _ _))

theorem regular_checkedSize (n : Nat) : (checkedSize n).Regular fun _ => True := by
  unfold checkedSize
  split <;> trivial

theorem regular_kron (a b : NDArray) : (a.kron b).Regular fun _ => True := by
  unfold kron
  split
  · refine .bind ((regular_checkedSize _).mono fun _ _ _ => ?_)
    exact .bind ((Outcome.Regular.mapM _ fun p _ => Scalar.regular_binary _ p.1 p.2).mono
      fun _ _ _ => regular_ofScalars _ _)
  · refine .bind ((regular_checkedSize _).mono fun _ _ _ => ?_)
    refine .bind ((regular_checkedSize _).mono fun _ _ _ => ?_)
    exact .bind ((Outcome.Regular.mapM _ fun _ _ => regular_kronEntry _ _ _ _ _ _ _).mono
      fun _ _ _ => regular_ofScalars _ _)
  · trivial

end NDArray

/-! ## Values -/

namespace Value

/-- The value has no placeholders but those of the given values. -/
def Within (v : Value) (args : List Value) : Prop :=
  v.placeholders ⊆ placeholdersOf args

theorem within_of_nil {v : Value} (args : List Value) (h : v.placeholders = []) : v.Within args := by
  unfold Within
  rw [h]
  exact List.nil_subset _

theorem Within.of_mem {v w : Value} {args : List Value} (hw : w ∈ args)
    (h : v.placeholders ⊆ w.placeholders) : v.Within args :=
  fun _ hp => mem_placeholdersOf.mpr ⟨w, hw, h hp⟩

theorem regular_repeatList (items : List Value) (n : Int64) :
    (repeatList items n).Regular fun v => v.placeholders ⊆ placeholdersOf items := by
  unfold repeatList
  split
  · exact List.nil_subset _
  · split
    · trivial
    · intro p hp
      obtain ⟨v, hv, hp⟩ := mem_placeholdersOf.mp hp
      obtain ⟨l, hl, hv⟩ := List.mem_flatten.mp hv
      rw [List.eq_of_mem_replicate hl] at hv
      exact mem_placeholdersOf.mpr ⟨v, hv, hp⟩

theorem regular_repeated {v : Value} {n : Int64} {x : Outcome Value} (h : v.repeated n = some x) :
    x.Regular fun r => r.placeholders ⊆ v.placeholders := by
  cases v with
  | str s =>
    obtain rfl := Option.some.inj h
    unfold repeatText
    split
    · exact List.nil_subset _
    · split
      · trivial
      · exact List.nil_subset _
  | list items =>
    obtain rfl := Option.some.inj h
    exact regular_repeatList items n
  | _ => cases h

theorem regular_objectProduct {a b : Value} {x : Outcome Value} (h : objectProduct a b = some x) :
    x.Regular fun r => r.Within [a, b] := by
  unfold objectProduct at h
  split at h
  · exact (regular_repeated h).mono fun _ _ hr => .of_mem (by simp) hr
  · exact (regular_repeated h).mono fun _ _ hr => .of_mem (by simp) hr
  · cases h

theorem regular_objectBinary (op : BinaryOp) (a b : Value) :
    (objectBinary op a b).Regular fun r => r.Within [a, b] := by
  have hsum : ∀ vs ws : List Value,
      placeholdersOf (vs ++ ws) ⊆ placeholdersOf vs ++ (placeholdersOf ws ++ []) := by
    intro vs ws
    rw [placeholdersOf_append, List.append_nil]
    exact List.Subset.refl _
  unfold objectBinary
  split
  · exact within_of_nil _ rfl
  · exact within_of_nil _ rfl
  · exact within_of_nil _ rfl
  · exact hsum _ _
  · exact hsum _ _
  · rcases hx : objectProduct a b with _ | x
    · trivial
    · exact regular_objectProduct hx
  · split
    · exact within_of_nil _ rfl
    · trivial
  · trivial

theorem regular_binary (op : BinaryOp) (a b : Value) :
    (binary op a b).Regular fun r => r.Within [a, b] := by
  unfold binary
  split
  · refine .bind ((NDArray.regular_broadcastPair _ _).mono fun _ _ _ => ?_)
    exact .bind ((NDArray.regular_zipWithM _ _ (Scalar.regular_binary op)).mono fun _ _ _ =>
      .pure (within_of_nil _ rfl))
  · exact .bind ((NDArray.regular_mapM _ fun _ => Scalar.regular_binary _ _ _).mono fun _ _ _ =>
      .pure (within_of_nil _ rfl))
  · exact .bind ((NDArray.regular_mapM _ fun _ => Scalar.regular_binary _ _ _).mono fun _ _ _ =>
      .pure (within_of_nil _ rfl))
  · exact .bind ((Scalar.regular_binary _ _ _).mono fun _ _ _ => .pure (within_of_nil _ rfl))
  · exact regular_objectBinary _ _ _

theorem regular_negate (v : Value) : v.negate.Regular fun r => r.placeholders = [] := by
  unfold negate
  split
  · exact .bind ((Scalar.regular_negate _).mono fun _ _ _ => .pure rfl)
  · exact .bind ((NDArray.regular_mapM _ Scalar.regular_negate).mono fun _ _ _ => .pure rfl)
  · trivial

theorem regular_logicalOperand (v : Value) : (logicalOperand v).Regular fun _ => True := by
  unfold logicalOperand
  split <;> trivial

theorem regular_logical (op : LogicalOp) (args : List Value) :
    (logical op args).Regular fun r => r.placeholders = [] := by
  unfold logical
  split
  · exact .bind ((NDArray.regular_mapM _ fun _ => .pure trivial).mono fun _ _ _ => .pure rfl)
  · exact .bind ((regular_logicalOperand _).mono fun _ _ _ => .pure rfl)
  · trivial
  · refine .bind ((NDArray.regular_broadcastPair _ _).mono fun _ _ _ => ?_)
    exact .bind ((NDArray.regular_zipWithM _ _ fun _ _ => .pure trivial).mono fun _ _ _ => .pure rfl)
  · refine .bind ((NDArray.regular_mapM _ fun _ => ?_).mono fun _ _ _ => .pure rfl)
    exact .bind ((regular_logicalOperand _).mono fun _ _ _ => .pure trivial)
  · refine .bind ((NDArray.regular_mapM _ fun _ => ?_).mono fun _ _ _ => .pure rfl)
    exact .bind ((regular_logicalOperand _).mono fun _ _ _ => .pure trivial)
  · refine .bind ((regular_logicalOperand _).mono fun _ _ _ => ?_)
    exact .bind ((regular_logicalOperand _).mono fun _ _ _ => .pure rfl)
  · trivial

theorem regular_toIndex (v : Value) : (Outcome.ofFault v.toIndex).Regular fun _ => True := by
  unfold toIndex
  split <;> trivial

theorem regular_truthy (v : Value) : (Outcome.ofFault v.truthy).Regular fun _ => True := by
  unfold truthy
  split <;> try trivial
  · split <;> trivial
  · split <;> trivial

theorem regular_itemAt {α : Type} (items : List α) (i : Int64) :
    (itemAt items i).Regular fun item => item ∈ items := by
  unfold itemAt
  split
  · trivial
  · split
    · next h => exact List.mem_of_getElem? h
    · trivial

theorem regular_lookup (entries : List (Value × Value)) (key : Value) :
    (lookup entries key).Regular fun r => r.placeholders ⊆ entryPlaceholders entries := by
  unfold lookup
  split
  · next e h =>
    intro p hp
    exact mem_entryPlaceholders.mpr ⟨e, List.mem_of_find?_eq_some h, Or.inr hp⟩
  · trivial

theorem regular_index (base i : Value) :
    (base.index i).Regular fun r => r.placeholders ⊆ base.placeholders := by
  have hitem : ∀ items : List Value, Outcome.Regular
      (do itemAt items (← .ofFault i.toIndex)) fun r => r.placeholders ⊆ placeholdersOf items := by
    intro items
    refine .bind ((regular_toIndex i).mono fun k _ _ => ?_)
    exact (regular_itemAt items k).mono fun v _ hv p hp => mem_placeholdersOf.mpr ⟨v, hv, hp⟩
  unfold index
  split
  · refine .bind ((regular_toIndex i).mono fun k _ _ => ?_)
    refine (NDArray.regular_index _ k).mono fun v _ hv => ?_
    rw [hv]
    exact List.nil_subset _
  · exact hitem _
  · exact hitem _
  · refine .bind ((regular_toIndex i).mono fun k _ _ => ?_)
    exact .bind ((regular_itemAt _ k).mono fun _ _ _ => .pure (List.nil_subset _))
  · exact regular_lookup _ _
  · trivial

theorem regular_convertOne (elem : ElemType) (v : Value) :
    (Outcome.ofFault (convertOne elem v)).Regular fun _ => True := by
  unfold convertOne
  split
  · trivial
  · split <;> trivial
  · unfold toFloat
    split <;> trivial
  · have h := regular_truthy v
    rcases hv : v.truthy with f | b
    · rw [hv] at h
      exact h.of_error
    · trivial

theorem regular_parse (elem : ElemType) (s : String) :
    (Outcome.ofFault (parse elem s)).Regular fun r => (scalar r).placeholders = [] := by
  unfold parse
  split
  · split
    · exact .pure rfl
    · exact .typeFault
  · split
    · exact .pure rfl
    · exact .typeFault
  · exact .pure rfl

theorem regular_convert (elem : ElemType) (v : Value) :
    (v.convert elem).Regular fun r => r.placeholders = [] := by
  unfold convert
  split
  · rw [Outcome.ofFault_mapM]
    refine .bind ((Outcome.Regular.mapM _ fun s _ => regular_convertOne _ _).mono fun _ _ _ => ?_)
    exact .bind ((NDArray.regular_make _ _).mono fun _ _ _ => .pure rfl)
  · rw [Outcome.ofFault_map]
    exact .map (regular_parse elem _)
  · rw [Outcome.ofFault_map]
    exact .map ((regular_convertOne _ _).mono fun _ _ _ => rfl)

end Value

/-- An operation on host values makes no placeholders, and blames no graph. -/
theorem Op.regular_apply (op : Op) (args : List Value) :
    (op.apply args).Regular fun r => r.Within args := by
  unfold Op.apply
  split
  · exact Value.regular_binary _ _ _
  · exact (Value.regular_negate _).mono fun _ _ h => Value.within_of_nil _ h
  · exact (Value.regular_logical _ _).mono fun _ _ h => Value.within_of_nil _ h
  · exact (Value.regular_index _ _).mono fun _ _ h => .of_mem List.mem_cons_self h
  · exact .bind ((NDArray.regular_kron _ _).mono fun _ _ _ =>
      .pure (Value.within_of_nil _ rfl))
  · trivial
  · exact (Value.regular_convert _ _).mono fun _ _ h => Value.within_of_nil _ h
  · trivial

end StagedFlow
