import StagedFlow.Proofs.Formed
import StagedFlow.Proofs.TypedOps

/-!
The types of results, foretold. Where an operation has a value, the types of its operands alone give
a type with the shape of that value, and with its element type as well unless an operand is empty or
an integer has an integer power. So a tracer accepts with placeholders what the host accepts without
them, and of the indices it knows it refuses just those outside the axis. Main definitions:
`Value.Representable`, `Value.Matches`, `Value.StandsFor`. Main results: `Op.makes_apply_type`,
`Tracer.outsideAxis_iff_index`, `Op.resultType_foretells_apply`.
-/
set_option autoImplicit false

namespace StagedFlow

/-! ## Values with types -/

namespace Value

/-- A host value that has a type: a scalar, or an array with any number of axes. -/
inductive Representable : Value → ArrayType → Prop
  | scalar (s : Scalar) : Representable (.scalar s) (.scalar s.elem)
  | array {a : NDArray} (hform : a.WellFormed) : Representable (.array a) a.type

theorem Representable.arrayType_eq {v : Value} {type : ArrayType} (h : v.Representable type) :
    v.arrayType = .ok type := by
  cases h <;> rfl

/-- The value has the shape of the type, and its element type as well if `exact` holds. -/
def Matches (v : Value) (type : ArrayType) (exact : Prop) : Prop :=
  ∃ elem, v.arrayType = .ok ⟨elem, type.shape⟩ ∧ (exact → elem = type.elem)

theorem matches_scalar {s : Scalar} {e : ElemType} {exact : Prop} (h : exact → s.elem = e) :
    (Value.scalar s).Matches ⟨e, []⟩ exact :=
  ⟨s.elem, rfl, h⟩

theorem matches_array {a : NDArray} {type : ArrayType} {exact : Prop}
    (hshape : a.shape = type.shape) (helem : exact → a.elem = type.elem) : (Value.array a).Matches type exact :=
  ⟨a.elem, hshape ▸ rfl, helem⟩

end Value

/-! ## Arrays -/

theorem length_of_mapM_eq_ok {α β : Type} {f : α → Outcome β} {xs : List α} {ys : List β}
    (h : xs.mapM f = .ok ys) : ys.length = xs.length := by
  have hany : ∀ x ∈ xs, (f x).Ends (fun _ => True) fun _ => True := by
    intro x _
    cases f x <;> trivial
  exact ((Outcome.Ends.mapM xs hany).of_ok h).1

namespace NDArray

variable {a b : NDArray} {e : ElemType} {exact : Prop}

theorem makes_ofScalars_type {shape : List Nat} {scalars : List Scalar}
    (hne : exact → scalars ≠ []) (helem : exact → ∀ s ∈ scalars, s.elem = e) :
    Makes (ofScalars shape scalars) fun r => r.shape = shape ∧ (exact → r.elem = e) := by
  intro r hr
  obtain ⟨rfl, -⟩ := make_eq_ok hr
  refine ⟨rfl, fun hexact => ?_⟩
  show Cells.elem _ = e
  rw [Cells.elem_ofScalars, widestElem_eq (hne hexact) (helem hexact)]

theorem makes_mapM_type {f : Scalar → Outcome Scalar} (hpos : exact → 0 < a.size)
    (hf : exact → ∀ x, x.elem = a.elem → Makes (f x) fun r => r.elem = e) :
    Makes (a.mapM f) fun r => r.shape = a.shape ∧ (exact → r.elem = e) := by
  refine makes_bind (P := fun scalars => scalars.length = a.size ∧
    (exact → ∀ s ∈ scalars, s.elem = e)) (fun scalars hscalars => ⟨?_, fun hexact => ?_⟩) ?_
  · rw [length_of_mapM_eq_ok hscalars, length_scalars]
  · exact forall_of_mapM_eq_ok (fun x hx => hf hexact x (a.elem_scalars x hx)) hscalars
  · rintro scalars ⟨hlength, helem⟩
    refine makes_ofScalars_type (fun hexact hnil => ?_) helem
    have hzero := hpos hexact
    rw [← hlength, hnil] at hzero
    exact Nat.lt_irrefl 0 hzero

theorem makes_zipWithM_type {f : Scalar → Scalar → Outcome Scalar}
    (hpos : exact → 0 < a.size ∧ 0 < b.size)
    (hf : exact → ∀ x y, x.elem = a.elem → y.elem = b.elem → Makes (f x y) fun r => r.elem = e) :
    Makes (a.zipWithM b f) fun r => r.shape = a.shape ∧ (exact → r.elem = e) := by
  unfold zipWithM
  split
  swap
  · exact makes_error _
  refine makes_bind (P := fun scalars => scalars.length = min a.size b.size ∧
    (exact → ∀ s ∈ scalars, s.elem = e)) (fun scalars hscalars => ⟨?_, fun hexact => ?_⟩) ?_
  · rw [length_of_mapM_eq_ok hscalars, List.length_zip, length_scalars, length_scalars]
  · refine forall_of_mapM_eq_ok (fun p hp => ?_) hscalars
    obtain ⟨hx, hy⟩ := List.of_mem_zip hp
    exact hf hexact p.1 p.2 (a.elem_scalars _ hx) (b.elem_scalars _ hy)
  · rintro scalars ⟨hlength, helem⟩
    refine makes_ofScalars_type (fun hexact hnil => ?_) helem
    have hsizes := hpos hexact
    rw [hnil, List.length_nil] at hlength
    omega

theorem makes_flat (a : NDArray) (i : Nat) : Makes (a.flat i) fun s => s ∈ a.scalars := by
  unfold flat
  split
  · next s hs => exact makes_ok (List.mem_of_getElem? hs)
  · exact makes_error _

/-- An array of one scalar, in as many places as another array has. -/
theorem makes_spread {s : Scalar} (hb : b.WellFormed) (hs : s ∈ a.scalars) :
    Makes (ofScalars b.shape (List.replicate b.size s)) fun r =>
      r.shape = b.shape ∧ r.size = b.size ∧ (0 < b.size → r.elem = a.elem) := by
  intro r hr
  have hform : r.WellFormed := makes_ofScalars _ _ r hr
  have htype : r.shape = b.shape ∧ (0 < b.size → r.elem = a.elem) := by
    refine makes_ofScalars_type (fun hpos hnil => ?_) (fun _ x hx => ?_) r hr
    · rw [List.replicate_eq_nil_iff] at hnil
      omega
    · rw [List.eq_of_mem_replicate hx, a.elem_scalars s hs]
  refine ⟨htype.1, ?_, htype.2⟩
  rw [hform, htype.1, hb]

/-- Arrays brought to one shape have the shape that their shapes broadcast to. -/
theorem makes_broadcastPair (ha : a.WellFormed) (hb : b.WellFormed) :
    Makes (a.broadcastPair b) fun p => ArrayType.broadcast a.shape b.shape = .ok p.1.shape ∧
      (0 < a.size → 0 < b.size →
        0 < p.1.size ∧ 0 < p.2.size ∧ p.1.elem = a.elem ∧ p.2.elem = b.elem) := by
  unfold broadcastPair
  split
  · next hshape => exact makes_ok ⟨if_pos (Or.inl hshape), fun ha hb => ⟨ha, hb, rfl, rfl⟩⟩
  split
  · next hzero =>
    refine makes_bind (makes_flat a 0) fun s hs => ?_
    refine makes_bind (makes_spread hb hs) fun r hr => makes_ok ⟨?_, fun _ hpos => ?_⟩
    · rw [List.isEmpty_iff.mp hzero, Value.nil_broadcast, hr.1]
    · exact ⟨hr.2.1 ▸ hpos, hpos, hr.2.2 hpos, rfl⟩
  split
  · next hzero =>
    refine makes_bind (makes_flat b 0) fun s hs => ?_
    refine makes_bind (makes_spread ha hs) fun r hr => makes_ok ⟨?_, fun hpos _ => ?_⟩
    · rw [List.isEmpty_iff.mp hzero, Value.broadcast_nil]
    · exact ⟨hpos, hr.2.1 ▸ hpos, rfl, hr.2.2 hpos⟩
  · exact makes_error _

theorem zero_notMem_of_pos {shape : List Nat} (h : 0 < shapeSize shape) : 0 ∉ shape := by
  induction shape with
  | nil => simp
  | cons n shape ih =>
    rw [shapeSize_cons] at h
    have hn := Nat.pos_of_mul_pos_right h
    have hshape := Nat.pos_of_mul_pos_left h
    simp [ih hshape, hn.ne]

theorem makes_checkedSize (n : Nat) : Makes (checkedSize n) fun m => m = n ∧ n ≤ wordMax :=
  fun _ h => checkedSize_eq_ok h

/-- There are Kronecker products of two vectors and of two matrices, as long as their lengths are
machine words. -/
theorem makes_kron_shape (a b : NDArray) : Makes (a.kron b) fun r =>
    a.shape.length = b.shape.length ∧ a.shape ≠ [] ∧ a.shape.length ≤ 2 ∧
      (∀ n ∈ List.zipWith (· * ·) a.shape b.shape, n ≤ wordMax) ∧
      r.shape = List.zipWith (· * ·) a.shape b.shape := by
  have hfill : ∀ (shape : List Nat) (scalars : List Scalar),
      Makes (ofScalars shape scalars) fun r => r.shape = shape :=
    fun shape scalars r hr => by rw [(make_eq_ok hr).1]
  unfold kron
  split
  · next n m ha hb =>
    refine makes_bind (makes_checkedSize _) ?_
    rintro count ⟨rfl, hcount⟩
    refine makes_bind (makes_any _) fun scalars _ r hr => ?_
    rw [ha, hb]
    exact ⟨rfl, by simp, by simp, by simpa using hcount, hfill _ _ r hr⟩
  · next r₁ c₁ r₂ c₂ ha hb =>
    refine makes_bind (makes_checkedSize _) ?_
    rintro rows ⟨rfl, hrows⟩
    refine makes_bind (makes_checkedSize _) ?_
    rintro cols ⟨rfl, hcols⟩
    refine makes_bind (makes_any _) fun scalars _ r hr => ?_
    rw [ha, hb]
    exact ⟨rfl, by simp, by simp, by simpa using ⟨hrows, hcols⟩, hfill _ _ r hr⟩
  · exact makes_error _

theorem makes_kron_elem (ha : a.WellFormed) (hb : b.WellFormed) (hapos : 0 < a.size)
    (hbpos : 0 < b.size) : Makes (a.kron b) fun r => r.elem = a.elem.promote b.elem := by
  intro r hr
  obtain ⟨hrank, hne, htwo, hwords, -⟩ := makes_kron_shape a b r hr
  have hsize : 0 < shapeSize (List.zipWith (· * ·) a.shape b.shape) := by
    refine shapeSize_pos (Value.zero_notMem_zipWith ?_ ?_)
    · exact zero_notMem_of_pos (ha ▸ hapos)
    · exact zero_notMem_of_pos (hb ▸ hbpos)
  have hmul : ∀ x ∈ a.scalars, ∀ y ∈ b.scalars, (Scalar.binary .mul x y).Ends
      (fun p => p.elem = a.elem.promote b.elem) fun _ => True := by
    intro x hx y hy
    rw [← a.elem_scalars x hx, ← b.elem_scalars y hy]
    exact (Scalar.ends_binary fun h => by cases h).mono (fun _ h => h) fun _ _ => trivial
  have htype := ((ends_kron ha hb hrank hne htwo hwords hsize hmul).of_ok hr).2
  exact congrArg ArrayType.elem htype

/-- An array refuses the indices outside its leading axis, and no others, if they can be counted
from its end. -/
theorem index_eq_bounds_iff {i j : Int64} {n : Nat} :
    a.index i = Outcome.fault (.bounds j n) ↔ a.shape.head? = some n ∧
      ¬ (a.size = 0 ∧ countsOut i n = true) ∧ position? i n = none ∧ j = i := by
  have hflat : ∀ k, (a.flat k).map Value.scalar ≠ Outcome.fault (.bounds j n) := by
    intro k
    unfold flat
    split <;> exact fun h => by cases h
  have hslice : ∀ offset count (f : Cells → Value),
      (a.cells.slice offset count).map f ≠ Outcome.fault (.bounds j n) := by
    intro offset count f
    unfold Cells.slice
    split <;> exact fun h => by cases h
  unfold index
  cases a.shape with
  | nil => simp [Outcome.typeFault, Outcome.fault]
  | cons length inner =>
    simp only [List.head?_cons, Option.some.injEq]
    by_cases hout : a.size = 0 ∧ countsOut i length = true
    · rw [if_pos hout]
      constructor
      · intro h
        cases h
      · rintro ⟨rfl, hin, -⟩
        exact absurd hout hin
    rw [if_neg hout]
    cases hrow : position? i length with
    | none =>
      simp only [Outcome.fault, Except.error.injEq, Halt.error.injEq, Fault.bounds.injEq]
      constructor
      · rintro ⟨rfl, rfl⟩
        exact ⟨rfl, hout, hrow, rfl⟩
      · rintro ⟨rfl, -, -, rfl⟩
        exact ⟨rfl, rfl⟩
    | some row =>
      constructor
      · intro h
        simp only at h
        split at h
        · exact absurd h (hflat row)
        · exact absurd h (hslice _ _ _)
      · rintro ⟨rfl, -, hnone, -⟩
        rw [hrow] at hnone
        cases hnone

/-- What stands at an index has one axis less and the same elements. -/
theorem makes_index_type (ha : a.WellFormed) (i : Int64) : Makes (a.index i) fun r =>
    ∃ n inner, a.shape = n :: inner ∧ position? i n ≠ none ∧ r.arrayType = .ok ⟨a.elem, inner⟩ := by
  intro r hr
  cases hshape : a.shape with
  | nil =>
    unfold index at hr
    rw [hshape] at hr
    cases hr
  | cons n inner =>
    refine ⟨n, inner, rfl, fun hnone => ?_, ?_⟩
    · unfold index at hr
      rw [hshape] at hr
      simp only [hnone] at hr
      split at hr <;> cases hr
    · have hitem := (ends_index ha hshape).of_ok hr
      split at hitem
      · next hinner =>
        obtain ⟨x, rfl, hx⟩ := hitem
        rw [hinner, ← hx]
        rfl
      · obtain ⟨b, rfl, -, htype⟩ := hitem
        rw [← htype]
        rfl

end NDArray

/-! ## Operations -/

namespace Value

variable {v w : Value} {s t : ArrayType} {e : ElemType} {exact : Prop}

/-- The elements of an array, if the value is one, are not none. -/
def Filled (v : Value) : Prop :=
  ∀ a, v = .array a → 0 < a.size

theorem makes_each {a : NDArray} {f : Scalar → Outcome Scalar} (hpos : exact → 0 < a.size)
    (hf : exact → ∀ x, x.elem = a.elem → Makes (f x) fun r => r.elem = e) :
    Makes (do return Value.array (← a.mapM f)) fun r => r.Matches ⟨e, a.shape⟩ exact :=
  makes_bind (NDArray.makes_mapM_type hpos hf) fun _ hr => makes_ok (matches_array hr.1 hr.2)

theorem makes_pairwise {a b : NDArray} {f : Scalar → Scalar → Outcome Scalar}
    (ha : a.WellFormed) (hb : b.WellFormed) (hpos : exact → 0 < a.size ∧ 0 < b.size)
    (hf : exact → ∀ x y, x.elem = a.elem → y.elem = b.elem → Makes (f x y) fun r => r.elem = e) :
    Makes (a.broadcastPair b >>= fun p => do return Value.array (← p.1.zipWithM p.2 f)) fun r =>
      ∃ shape, ArrayType.broadcast a.shape b.shape = .ok shape ∧ r.Matches ⟨e, shape⟩ exact := by
  refine makes_bind (NDArray.makes_broadcastPair ha hb) ?_
  rintro ⟨a', b'⟩ ⟨hshape, hfull⟩
  have hpair : exact → 0 < a'.size ∧ 0 < b'.size ∧ a'.elem = a.elem ∧ b'.elem = b.elem :=
    fun hexact => hfull (hpos hexact).1 (hpos hexact).2
  refine makes_bind (NDArray.makes_zipWithM_type
    (fun hexact => ⟨(hpair hexact).1, (hpair hexact).2.1⟩) fun hexact x y hx hy => ?_)
    fun r hr => makes_ok ⟨_, hshape, matches_array hr.1 hr.2⟩
  obtain ⟨-, -, ha', hb'⟩ := hpair hexact
  exact hf hexact x y (hx.trans ha') (hy.trans hb')

/-- `g` is the operation `f` on scalars, carried out element by element. -/
structure Elementwise (g : Value → Value → Outcome Value) (f : Scalar → Scalar → Outcome Scalar) :
    Prop where
  scalars (x y : Scalar) : g (.scalar x) (.scalar y) = do return .scalar (← f x y)
  scalarLeft (x : Scalar) (b : NDArray) :
    g (.scalar x) (.array b) = do return .array (← b.mapM fun y => f x y)
  scalarRight (a : NDArray) (y : Scalar) :
    g (.array a) (.scalar y) = do return .array (← a.mapM fun x => f x y)
  arrays (a b : NDArray) :
    g (.array a) (.array b) =
      a.broadcastPair b >>= fun p => do return .array (← p.1.zipWithM p.2 f)

theorem elementwise_binary (op : BinaryOp) : Elementwise (binary op) (Scalar.binary op) where
  scalars _ _ := rfl
  scalarLeft _ _ := rfl
  scalarRight _ _ := rfl
  arrays _ _ := rfl

theorem elementwise_logical {op : LogicalOp} (hop : op ≠ .not) :
    Elementwise (fun v w => logical op [v, w]) fun x y => .ok (Scalar.logical op x y) := by
  cases op with
  | not => exact absurd rfl hop
  | and => exact ⟨fun _ _ => rfl, fun _ _ => rfl, fun _ _ => rfl, fun _ _ => rfl⟩
  | or => exact ⟨fun _ _ => rfl, fun _ _ => rfl, fun _ _ => rfl, fun _ _ => rfl⟩

/-- The result of an operation element by element has the shape that those of the operands broadcast
to, and the element type that the operation has on scalars. -/
theorem Elementwise.makes {g : Value → Value → Outcome Value}
    {f : Scalar → Scalar → Outcome Scalar} (hg : Elementwise g f) (hv : v.Representable s)
    (hw : w.Representable t) (hfull : exact → v.Filled ∧ w.Filled)
    (hf : exact → ∀ x y, x.elem = s.elem → y.elem = t.elem → Makes (f x y) fun r => r.elem = e) :
    Makes (g v w) fun r => ∃ shape, ArrayType.broadcast s.shape t.shape = .ok shape ∧
      r.Matches ⟨e, shape⟩ exact := by
  cases hv with
  | scalar x =>
    cases hw with
    | scalar y =>
      rw [hg.scalars]
      refine makes_bind (P := fun r => exact → r.elem = e)
        (fun r hr hexact => hf hexact x y rfl rfl r hr) fun r hr => ?_
      exact makes_ok ⟨[], rfl, matches_scalar hr⟩
    | @array b _ =>
      rw [hg.scalarLeft]
      intro r hr
      exact ⟨b.shape, nil_broadcast _, makes_each (fun hexact => (hfull hexact).2 b rfl)
        (fun hexact y => hf hexact x y rfl) r hr⟩
  | @array a ha =>
    cases hw with
    | scalar y =>
      rw [hg.scalarRight]
      intro r hr
      exact ⟨a.shape, broadcast_nil _, makes_each (fun hexact => (hfull hexact).1 a rfl)
        (fun hexact x hx => hf hexact x y hx rfl) r hr⟩
    | @array b hb =>
      rw [hg.arrays]
      exact makes_pairwise ha hb (fun hexact => ⟨(hfull hexact).1 a rfl, (hfull hexact).2 b rfl⟩) hf

theorem makes_binary_type {op : BinaryOp} (hv : v.Representable s) (hw : w.Representable t)
    (hfull : exact → v.Filled ∧ w.Filled)
    (hpow : exact → op = .pow → s.elem = .float ∨ t.elem = .float) :
    Makes (binary op v w) fun r => ∃ shape, ArrayType.broadcast s.shape t.shape = .ok shape ∧
      r.Matches ⟨ArrayType.binaryElem op s.elem t.elem, shape⟩ exact := by
  refine (elementwise_binary op).makes hv hw hfull fun hexact x y hx hy r hr => ?_
  rw [← hx, ← hy]
  exact (Scalar.ends_binary (hx ▸ hy ▸ hpow hexact)).of_ok hr

theorem makes_logical_type {op : LogicalOp} (hop : op ≠ .not) (hv : v.Representable s)
    (hw : w.Representable t) (hfull : exact → v.Filled ∧ w.Filled) :
    Makes (logical op [v, w]) fun r => ∃ shape,
      ArrayType.broadcast s.shape t.shape = .ok shape ∧ r.Matches ⟨.bool, shape⟩ exact :=
  (elementwise_logical hop).makes hv hw hfull fun _ x y _ _ =>
    makes_ok (Scalar.elem_logical op x y)

theorem makes_negate_type (hv : v.Representable s) (hfull : exact → v.Filled) :
    Makes v.negate fun r => r.Matches ⟨s.elem.promote s.elem, s.shape⟩ exact := by
  have hneg : ∀ x : Scalar, x.elem = s.elem →
      Makes x.negate fun r => r.elem = s.elem.promote s.elem := by
    intro x hx r hr
    rw [← hx]
    exact (Scalar.ends_negate x).of_ok hr
  cases hv with
  | scalar x =>
    exact makes_bind (hneg x rfl) fun r hr => makes_ok (matches_scalar fun _ => hr)
  | @array a ha => exact makes_each (fun hexact => hfull hexact a rfl) fun _ => hneg

theorem makes_logicalNot_type (hv : v.Representable s) (hfull : exact → v.Filled) :
    Makes (logical .not [v]) fun r => r.Matches ⟨.bool, s.shape⟩ exact := by
  cases hv with
  | scalar x => exact makes_ok (matches_scalar fun _ => rfl)
  | @array a ha => exact makes_each (fun hexact => hfull hexact a rfl) fun _ _ _ => makes_ok rfl

theorem makes_logical_args {l : LogicalOp} {args : List Value} {types : List ArrayType}
    (hargs : List.Forall₂ Representable args types) (hfull : exact → ∀ v ∈ args, v.Filled) :
    Makes (logical l args) fun r => ∃ type, (Op.logical l).resultType types = .ok type ∧
      r.Matches type exact := by
  obtain _ | @⟨v, s, _, _, hv, _ | @⟨w, t, _, _, hw, _ | ⟨_, _⟩⟩⟩ := hargs
  · cases l <;> exact makes_error _
  · cases l with
    | not =>
      intro r hr
      exact ⟨_, rfl, makes_logicalNot_type hv (fun hexact => hfull hexact v (by simp)) r hr⟩
    | and => cases hv <;> exact makes_error _
    | or => cases hv <;> exact makes_error _
  · by_cases hl : l = .not
    · subst hl
      cases hv <;> exact makes_error _
    · intro r hr
      obtain ⟨shape, hshape, hmatch⟩ := makes_logical_type hl hv hw
        (fun hexact => ⟨hfull hexact v (by simp), hfull hexact w (by simp)⟩) r hr
      refine ⟨_, ?_, hmatch⟩
      simp only [Op.resultType, hshape]
      rfl
  · cases l <;> cases hv <;> cases hw <;> exact makes_error _

theorem makes_index_type (hv : v.Representable s) (hw : w.Representable t) :
    Makes (v.index w) fun r => ∃ n inner k, s.shape = n :: inner ∧ t.isScalar = true ∧
      t.elem ≠ .float ∧ w.toInt? = some k ∧ NDArray.position? k n ≠ Option.none ∧
      r.Matches ⟨s.elem, inner⟩ exact := by
  cases hv with
  | scalar x => exact makes_error _
  | @array a ha =>
    cases hw with
    | array hb => exact makes_error _
    | scalar y =>
      cases hy : y.toInt? with
      | none =>
        have hindex : (Value.scalar y).toIndex = .error (.type (.notAnInteger y.typeName)) := by
          simp [toIndex, Value.toInt?, hy, typeName]
        unfold index
        rw [hindex]
        exact makes_error _
      | some k =>
        have hindex : (Value.scalar y).toIndex = .ok k := by
          simp [toIndex, Value.toInt?, hy]
        unfold index
        rw [hindex]
        show Makes (a.index k) _
        intro r hr
        obtain ⟨n, inner, hshape, hinside, htype⟩ := NDArray.makes_index_type ha k r hr
        exact ⟨n, inner, k, hshape, rfl, Scalar.elem_ne_float hy, hy, hinside,
          ⟨a.elem, htype, fun _ => rfl⟩⟩

theorem makes_convert_type (elem : ElemType) (hv : v.Representable s) :
    Makes (v.convert elem) fun r => r.Matches ⟨elem, s.shape⟩ exact := by
  cases hv with
  | scalar x =>
    obtain ⟨r, hr, helem⟩ := convertOne_scalar elem x
    unfold convert
    simp only [hr]
    exact makes_ok (matches_scalar fun _ => helem)
  | @array a ha =>
    refine makes_bind (makes_any _) fun scalars _ => makes_bind (P := fun b => b =
      ⟨a.shape, Cells.ofScalars elem scalars⟩) (fun b hb => (NDArray.make_eq_ok hb).1) ?_
    rintro b rfl
    exact makes_ok (matches_array rfl fun _ => Cells.elem_ofScalars elem scalars)

theorem makes_kron_type {a b : NDArray} (ha : a.WellFormed) (hb : b.WellFormed)
    (hpos : exact → 0 < a.size ∧ 0 < b.size) :
    Makes (do return Value.array (← a.kron b)) fun r =>
      a.shape.length = b.shape.length ∧ a.shape ≠ [] ∧ a.shape.length ≤ 2 ∧
      (∀ n ∈ List.zipWith (· * ·) a.shape b.shape, n ≤ wordMax) ∧
      r.Matches ⟨a.elem.promote b.elem, List.zipWith (· * ·) a.shape b.shape⟩ exact := by
  refine makes_bind (P := fun p => a.kron b = .ok p) (fun p hp => hp) fun p hp => ?_
  obtain ⟨hrank, hne, htwo, hwords, hshape⟩ := NDArray.makes_kron_shape a b p hp
  refine makes_ok ⟨hrank, hne, htwo, hwords, matches_array hshape fun hexact => ?_⟩
  exact NDArray.makes_kron_elem ha hb (hpos hexact).1 (hpos hexact).2 p hp

end Value

/-- The types of the operands show the element type of the result: no operand is empty, and none but
a float has a power. -/
def Op.Exact (op : Op) (args : List Value) (types : List ArrayType) : Prop :=
  (∀ v ∈ args, v.Filled) ∧ (op = .binary .pow → ∃ type ∈ types, type.elem = .float)

/-- The result type of an operation, where the operation has a value. -/
theorem Op.makes_apply_type (op : Op) {args : List Value} {types : List ArrayType}
    (hargs : List.Forall₂ Value.Representable args types) :
    Makes (op.apply args) fun v => ∃ type, op.resultType types = .ok type ∧
      v.Matches type (op.Exact args types) := by
  have hpair : ∀ {v w : Value}, op.Exact [v, w] types → v.Filled ∧ w.Filled :=
    fun h => ⟨h.1 _ (by simp), h.1 _ (by simp)⟩
  unfold apply
  split
  · next b v w =>
    obtain _ | ⟨hv, _ | ⟨hw, _ | _⟩⟩ := hargs
    intro r hr
    obtain ⟨shape, hshape, hmatch⟩ := Value.makes_binary_type hv hw hpair
      (fun hexact hpow => by simpa using hexact.2 (congrArg Op.binary hpow)) r hr
    refine ⟨_, ?_, hmatch⟩
    simp only [resultType, hshape]
    rfl
  · next x =>
    obtain _ | ⟨hv, _ | _⟩ := hargs
    intro r hr
    exact ⟨_, rfl, Value.makes_negate_type hv (fun hexact => hexact.1 x (by simp)) r hr⟩
  · exact Value.makes_logical_args hargs And.left
  · next v w =>
    obtain _ | ⟨hv, _ | ⟨hw, _ | _⟩⟩ := hargs
    intro r hr
    obtain ⟨n, inner, k, hshape, hscalar, helem, -, -, hmatch⟩ :=
      Value.makes_index_type hv hw r hr
    refine ⟨_, ?_, hmatch⟩
    simp [resultType, hshape, hscalar, helem]
  · next a b =>
    obtain _ | ⟨hv, _ | ⟨hw, _ | _⟩⟩ := hargs
    cases hv with
    | array ha =>
      cases hw with
      | array hb =>
        intro r hr
        obtain ⟨hrank, hne, htwo, hwords, hmatch⟩ := Value.makes_kron_type ha hb
          (fun hexact => ⟨(hpair hexact).1 a rfl, (hpair hexact).2 b rfl⟩) r hr
        refine ⟨_, ?_, hmatch⟩
        have hranks : ¬ (a.shape.length ≠ b.shape.length ∨ a.shape = [] ∨ 2 < a.shape.length) := by
          simp only [not_or, not_not, Nat.not_lt]
          exact ⟨hrank, hne, htwo⟩
        refine (if_neg hranks).trans ?_
        show List.mapM checkedSize (List.zipWith (· * ·) a.shape b.shape) >>= _ = _
        rw [NDArray.mapM_checkedSize hwords]
        rfl
  · exact makes_error _
  · next elem x =>
    obtain _ | ⟨hv, _ | _⟩ := hargs
    intro r hr
    exact ⟨_, rfl, Value.makes_convert_type elem hv r hr⟩
  · exact makes_error _

/-! ## The tracer -/

/-- A value stands for a host value if it is that value, or a placeholder of its type. -/
def Value.StandsFor (w v : Value) : Prop :=
  w = v ∨ ∃ id type, v.arrayType = .ok type ∧ w = .traced id type

theorem Value.StandsFor.arrayType_eq {v w : Value} {type : ArrayType} (h : w.StandsFor v)
    (hv : v.arrayType = .ok type) : w.arrayType = .ok type := by
  rcases h with rfl | ⟨id, type', hv', rfl⟩
  · exact hv
  · rw [hv] at hv'
    exact hv'.symm ▸ rfl

namespace Tracer

theorem operandsOf_of_arrayTypes {vs : List Value} {types : List ArrayType}
    (h : List.Forall₂ (fun v type => v.arrayType = .ok type) vs types) :
    ∃ operands, operandsOf vs = .ok (operands, types) := by
  induction h with
  | nil => exact ⟨[], rfl⟩
  | @cons v type vs types hv _ ih =>
    obtain ⟨operands, hrest⟩ := ih
    have hone : ∃ operand, operandOf v = .ok (operand, type) := by
      cases v with
      | scalar s =>
        cases hv
        exact ⟨_, rfl⟩
      | array a =>
        cases hv
        exact ⟨_, rfl⟩
      | traced id type' =>
        cases hv
        exact ⟨_, rfl⟩
      | _ => cases hv
    obtain ⟨operand, hone⟩ := hone
    refine ⟨operand :: operands, ?_⟩
    simp only [operandsOf, hone, hrest]
    rfl

/-- What stands for operands with types are operands of the same types. -/
theorem operandsOf_standing {args placed : List Value} {types : List ArrayType}
    (hargs : List.Forall₂ Value.Representable args types)
    (hplaced : List.Forall₂ Value.StandsFor placed args) :
    ∃ operands, operandsOf placed = .ok (operands, types) := by
  refine operandsOf_of_arrayTypes ?_
  induction hplaced generalizing types with
  | nil =>
    cases hargs
    exact .nil
  | cons hw _ ih =>
    cases hargs with
    | cons hv hrest => exact .cons (hw.arrayType_eq hv.arrayType_eq) (ih hrest)

theorem leading?_type (a : NDArray) : a.type.leading? = a.shape.head? :=
  rfl

theorem position?_eq_none_iff {i : Int64} {n : Nat} (hn : n < 0x8000000000000000) :
    NDArray.position? i n = none ↔ (n : Int) ≤ i.toInt ∨ i.toInt < -(n : Int) := by
  unfold NDArray.position?
  rw [NDArray.signedLength_of_lt hn]
  simp only [ite_eq_right_iff, reduceCtorEq, imp_false]
  split <;> omega

/-- The check of a known index on an axis. -/
theorem outsideAxis_cons {type : ArrayType} {length : Nat} {v w : Value} {i : Int64}
    (hlength : type.leading? = some length) (hw : w.toInt? = some i) (types : List ArrayType)
    (vs : List Value) :
    outsideAxis (type :: types) (v :: w :: vs) =
      if NDArray.signedLength length ≤ i.toInt ∨ i.toInt < -NDArray.signedLength length then
        some (i, length) else none := by
  simp [outsideAxis, hlength, hw]

/-- On an axis of a length with 63 bits, the check finds the indices without a position. -/
theorem outsideAxis_eq_position? {type : ArrayType} {length : Nat} {v w : Value} {i : Int64}
    (hlength : type.leading? = some length) (hfits : length < 0x8000000000000000)
    (hw : w.toInt? = some i) (types : List ArrayType) (vs : List Value) :
    outsideAxis (type :: types) (v :: w :: vs) =
      if NDArray.position? i length = none then some (i, length) else none := by
  simp only [outsideAxis_cons hlength hw, NDArray.signedLength_of_lt hfits,
    position?_eq_none_iff hfits]

/-- An index that is not known is not refused. -/
theorem outsideAxis_of_unknown {type : ArrayType} {v w : Value} (hw : w.toInt? = none)
    (types : List ArrayType) (vs : List Value) :
    outsideAxis (type :: types) (v :: w :: vs) = none := by
  simp [outsideAxis, hw]

/-- A known index is refused just where the array itself would refuse it. -/
theorem outsideAxis_iff_index {a : NDArray} (hfits : a.length < 0x8000000000000000) {v w : Value}
    {i : Int64} (hw : w.toInt? = some i) (types : List ArrayType) (vs : List Value) (j : Int64)
    (n : Nat) :
    outsideAxis (a.type :: types) (v :: w :: vs) = some (j, n) ↔
      a.index i = Outcome.fault (.bounds j n) := by
  rw [NDArray.index_eq_bounds_iff, ← leading?_type]
  cases hlength : a.type.leading? with
  | none => simp [outsideAxis, hlength]
  | some length =>
    have haxis : a.length = length := by
      rw [NDArray.length, List.headD_eq_head?_getD, ← leading?_type, hlength, Option.getD_some]
    rw [outsideAxis_eq_position? hlength (haxis ▸ hfits) hw]
    simp only [Option.ite_none_right_eq_some, Option.some.injEq, Prod.mk.injEq]
    constructor
    · rintro ⟨hnone, rfl, rfl⟩
      refine ⟨rfl, fun hout => ?_, hnone, rfl⟩
      rw [NDArray.countsOut_of_lt (haxis ▸ hfits)] at hout
      exact Bool.false_ne_true hout.2
    · rintro ⟨rfl, -, hnone, rfl⟩
      exact ⟨hnone, rfl, rfl⟩

theorem eq_of_standing {args placed : List Value}
    (hplaced : List.Forall₂ Value.StandsFor placed args)
    (hhost : placed.any Value.isTraced = false) : placed = args := by
  induction hplaced with
  | nil => rfl
  | cons hw _ ih =>
    rw [List.any_cons, Bool.or_eq_false_iff] at hhost
    rcases hw with rfl | ⟨id, type, -, rfl⟩
    · rw [ih hhost.2]
    · cases hhost.1

/-- An index that the host accepts passes the check of the known indices. -/
theorem outsideAxis_of_standing {args placed : List Value} {types : List ArrayType} {v : Value}
    (hargs : List.Forall₂ Value.Representable args types)
    (hfits : ∀ type ∈ types, type.shape.headD 0 < 0x8000000000000000)
    (hplaced : List.Forall₂ Value.StandsFor placed args) (h : Op.index.apply args = .ok v) :
    outsideAxis types placed = none := by
  -- there are two operands, or there would be no value
  obtain _ | @⟨base, s, _, _, hbase, _ | @⟨i, t, _, _, hi, _ | ⟨_, _⟩⟩⟩ := hargs
  · cases h
  · cases h
  · obtain _ | @⟨base', _, _, _, _, _ | @⟨i', _, _, _, hi', _ | _⟩⟩ := hplaced
    obtain ⟨n, inner, k, hshape, -, -, hk, hinside, -⟩ :=
      @Value.makes_index_type _ _ _ _ True hbase hi v h
    rcases hi' with rfl | ⟨id, type, -, rfl⟩
    · have hlength : s.leading? = some n := by rw [ArrayType.leading?, hshape, List.head?_cons]
      have hn : n < 0x8000000000000000 := by simpa [hshape] using hfits s (by simp)
      rw [outsideAxis_eq_position? hlength hn hk, if_neg hinside]
    · exact outsideAxis_of_unknown rfl [t] []
  · cases h

/-- A tracer accepts with placeholders what the host accepts without them. -/
theorem apply_standing {op : Op} {args placed : List Value} {types : List ArrayType} {v : Value}
    {type : ArrayType} (hargs : List.Forall₂ Value.Representable args types)
    (hfits : op = .index → ∀ type ∈ types, type.shape.headD 0 < 0x8000000000000000)
    (hplaced : List.Forall₂ Value.StandsFor placed args) (h : op.apply args = .ok v)
    (htype : op.resultType types = .ok type) (t : Tracer) :
    (Tracer.apply op placed t).1 =
      .ok (if placed.any Value.isTraced then .traced t.nextValue type else v) := by
  obtain ⟨operands, hoperands⟩ := operandsOf_standing hargs hplaced
  have hinside : (if op = .index then outsideAxis types placed else none) = none := by
    split
    · next hop => exact outsideAxis_of_standing hargs (hfits hop) hplaced (hop ▸ h)
    · rfl
  by_cases htraced : placed.any Value.isTraced = true
  · rw [if_pos htraced]
    simp only [Tracer.apply, htraced, if_true, hoperands, hinside, htype]
    rfl
  · rw [if_neg htraced]
    rw [Bool.not_eq_true] at htraced
    rw [← eq_of_standing hplaced htraced] at h
    simp [Tracer.apply, htraced, h]

/-- With a placeholder for the array, a tracer refuses a known index by its check, and not later. -/
theorem apply_index_eq_bounds_iff (type : ArrayType) (id : Nat) (s : Scalar) (t : Tracer)
    (j : Int64) (n : Nat) :
    (Tracer.apply .index [.traced id type, .scalar s] t).1 = Outcome.fault (.bounds j n) ↔
      outsideAxis [type, .scalar s.elem] [.traced id type, .scalar s] = some (j, n) := by
  have hoperands : operandsOf [.traced id type, .scalar s] =
      .ok ([.var id, .const (.scalar s)], [type, .scalar s.elem]) := rfl
  simp only [Tracer.apply, List.any_cons, Value.isTraced, Bool.true_or, if_true, hoperands]
  cases hcheck : outsideAxis [type, .scalar s.elem] [.traced id type, .scalar s] with
  | some found =>
    obtain ⟨j', n'⟩ := found
    simp [Outcome.fault]
  | none =>
    have hother : Op.index.resultType [type, .scalar s.elem] ≠ Outcome.fault (.bounds j n) := by
      unfold Op.resultType
      simp only
      split
      · exact fun h => by cases h
      · split <;> exact fun h => by cases h
    cases htype : Op.index.resultType [type, .scalar s.elem] with
    | ok type => simp [Outcome.fault]
    | error f =>
      rw [htype] at hother
      simpa [Outcome.fault] using hother

/-- On a longer axis the check refuses an index that has a position. -/
theorem exists_refused_inside {n : Nat} (hn : 0x8000000000000000 ≤ n) :
    ∃ i : Int64, NDArray.signedLength n ≤ i.toInt ∧ NDArray.position? i n ≠ none := by
  have hbound : NDArray.signedLength n < 0x8000000000000000 := (Int64.ofNat n).toInt_lt
  have htoInt : (Int64.ofInt (max 0 (NDArray.signedLength n))).toInt =
      max 0 (NDArray.signedLength n) :=
    Int64.toInt_ofInt_of_le (by omega) (by omega)
  refine ⟨Int64.ofInt (max 0 (NDArray.signedLength n)), ?_, ?_⟩
  · rw [htoInt]
    exact Int.le_max_right _ _
  · unfold NDArray.position?
    simp only [htoInt, ne_eq, ite_eq_right_iff, reduceCtorEq, imp_false, not_not]
    split <;> omega

/-- The check of a known index is that of the array itself, just as long as the length of the axis
has 63 bits. -/
theorem index_check_exact_iff (a : NDArray) :
    (∀ (id : Nat) (s : Scalar) (i : Int64) (t : Tracer) (j : Int64) (n : Nat), s.toInt? = some i →
      ((Tracer.apply .index [.traced id a.type, .scalar s] t).1 = Outcome.fault (.bounds j n) ↔
        a.index i = Outcome.fault (.bounds j n))) ↔ a.length < 0x8000000000000000 := by
  constructor
  · intro hexact
    by_contra hlong
    obtain ⟨i, hcheck, hinside⟩ := exists_refused_inside (Nat.not_lt.mp hlong)
    have hlength : a.type.leading? = some a.length := by
      rw [leading?_type, NDArray.length]
      cases hshape : a.shape with
      | nil => simp [NDArray.length, hshape] at hlong
      | cons n inner => rfl
    have hrefused : outsideAxis [a.type, .scalar .int] [.traced 0 a.type, .int i] =
        some (i, a.length) := by
      rw [outsideAxis_cons hlength rfl, if_pos (Or.inl hcheck)]
    have hbounds := (hexact 0 (.int i) i (.start false) i a.length rfl).mp
      ((apply_index_eq_bounds_iff _ _ _ _ _ _).mpr hrefused)
    exact hinside (NDArray.index_eq_bounds_iff.mp hbounds).2.2.1
  · intro hfits id s i t j n hs
    rw [apply_index_eq_bounds_iff]
    exact outsideAxis_iff_index hfits (w := .scalar s) hs _ _ j n

end Tracer

/-- The types of operands foretell the type of a result. Where an operation on host values has a
value, the types of the values have a result type, and it is the type of that value unless an array
is empty or an integer has an integer power. So a tracer refuses with placeholders nothing that the
host accepts without them, if the axes to be indexed have lengths of 63 bits; and just on such an
axis its check of a known index is that of the array. -/
theorem Op.resultType_foretells_apply (op : Op) {args : List Value} {types : List ArrayType}
    (hargs : List.Forall₂ Value.Representable args types) :
    (∀ v, op.apply args = .ok v → ∃ type, op.resultType types = .ok type ∧
      ((∀ a, Value.array a ∈ args → 0 < a.size) →
        ¬ (op = .binary .pow ∧ ∀ t ∈ types, t.elem ≠ .float) → v.arrayType = .ok type) ∧
      ((op = .index → ∀ t ∈ types, t.shape.headD 0 < 0x8000000000000000) →
        ∀ (placed : List Value) (t : Tracer), List.Forall₂ Value.StandsFor placed args →
          (Tracer.apply op placed t).1 =
            .ok (if placed.any Value.isTraced then .traced t.nextValue type else v))) ∧
    ∀ a : NDArray,
      (∀ (id : Nat) (s : Scalar) (i : Int64) (t : Tracer) (j : Int64) (n : Nat),
        s.toInt? = some i →
          ((Tracer.apply .index [.traced id a.type, .scalar s] t).1 = Outcome.fault (.bounds j n) ↔
            a.index i = Outcome.fault (.bounds j n))) ↔ a.length < 0x8000000000000000 := by
  refine ⟨fun v hv => ?_, Tracer.index_check_exact_iff⟩
  obtain ⟨type, htype, elem, hshape, helem⟩ := op.makes_apply_type hargs v hv
  refine ⟨type, htype, fun hfull hpow => ?_, fun hfits placed t hplaced =>
    Tracer.apply_standing hargs hfits hplaced hv htype t⟩
  have hexact : op.Exact args types := by
    refine ⟨fun w hw a ha => hfull a (ha ▸ hw), fun hop => ?_⟩
    by_contra hnone
    exact hpow ⟨hop, fun t ht hfloat => hnone ⟨t, ht, hfloat⟩⟩
  rw [hshape, helem hexact]

/-- The quotients of an array without axes by an array of truth values. -/
theorem Op.resultType_foretells_apply_zeroDim :
    ∃ type, (Op.binary .floorDiv).resultType [⟨.int, []⟩, ⟨.bool, [2, 1]⟩] = .ok type ∧
      (Value.array ⟨[2, 1], .ints [7, 7]⟩).arrayType = .ok type ∧
      (Tracer.apply (.binary .floorDiv)
        [.array ⟨[], .ints [7]⟩, .traced 0 ⟨.bool, [2, 1]⟩] (.start true)).1 =
          .ok (.traced 0 type) := by
  have hargs : List.Forall₂ Value.Representable
      [.array ⟨[], .ints [7]⟩, .array ⟨[2, 1], .bools [true, true]⟩]
      [⟨.int, []⟩, ⟨.bool, [2, 1]⟩] :=
    .cons (.array rfl) (.cons (.array rfl) .nil)
  obtain ⟨type, htype, hexact, hplaced⟩ :=
    (Op.resultType_foretells_apply (.binary .floorDiv) hargs).1 (.array ⟨[2, 1], .ints [7, 7]⟩) rfl
  refine ⟨type, htype, hexact (by simp [NDArray.size, Cells.size]) (by simp), ?_⟩
  exact hplaced (by simp) _ (.start true) (.cons (.inl rfl) (.cons (.inr ⟨0, _, rfl, rfl⟩) .nil))

/-- An axis can be too long for its length to have 63 bits, if another one has length zero. Such an
array has a row at index 0, and with a placeholder for it that index is refused. -/
theorem Op.index_refused_on_long_axis :
    Op.index.apply [.array ⟨[0x8000000000000000, 0], .floats []⟩, .int 0] =
        .ok (.array ⟨[0], .floats []⟩) ∧
      (Tracer.apply .index [.traced 0 ⟨.float, [0x8000000000000000, 0]⟩, .int 0] (.start true)).1 =
        Outcome.fault (.bounds 0 0x8000000000000000) :=
  ⟨rfl, rfl⟩

end StagedFlow
