import StagedFlow.Proofs.RectangularNests

/-!
Arrays that can be built, and access to their elements. However a value comes about by the
operations on arrays, its arrays have as many elements as their shapes have room for, and their
places can be counted in a machine word. So every position that an operation computes is there: in a
sub-array, in the factors of a Kronecker product, in an array without axes that is spread over
another, in a truth value and in a text. Main definitions: `Value.Built`, `NDArray.Counted`,
`NDArray.Accessible`, `NDArray.JointlyAccessible`. Main results: `Value.Built.formed`,
`NDArray.accessible`, `NDArray.jointlyAccessible`, `NDArray.accesses_of_built`.
-/
set_option autoImplicit false

namespace StagedFlow

/-! ## Values that can be built -/

/-- The values that come about by building arrays and by operations on arrays, in any composition.
-/
inductive Value.Built : Value → Prop
  | scalar (s : Scalar) : Built (.scalar s)
  | none : Built .none
  | str (s : String) : Built (.str s)
  | traced (id : Nat) (type : ArrayType) : Built (.traced id type)
  | list {items : List Value} (h : ∀ v ∈ items, Built v) : Built (.list items)
  | tuple {items : List Value} (h : ∀ v ∈ items, Built v) : Built (.tuple items)
  | dict {entries : List (Value × Value)} (hkeys : ∀ e ∈ entries, Built e.1)
    (hvalues : ∀ e ∈ entries, Built e.2) : Built (.dict entries)
  | range {start stop step : Value} (hstart : Built start) (hstop : Built stop)
    (hstep : Built step) : Built (.range start stop step)
  | enumerate {inner : Value} (start : Int64) (h : Built inner) : Built (.enumerate inner start)
  | item {v item : Value} {items : List Value} (h : Built v)
    (hv : v = .list items ∨ v = .tuple items) (hitem : item ∈ items) : Built item
  | make {shape : List Nat} {cells : Cells} {a : NDArray} (h : NDArray.make shape cells = .ok a) :
    Built (.array a)
  | ofInts (xs : List Int64) : Built (.array (.ofInts xs))
  | ofFloats (xs : List Float) : Built (.array (.ofFloats xs))
  | ofValues {shape : List Nat} {values : List Value} {a : NDArray}
    (h : NDArray.ofValues shape values = .ok a) : Built (.array a)
  | index {a : NDArray} {i : Int64} {v : Value} (ha : Built (.array a)) (h : a.index i = .ok v) :
    Built v
  | rows {a : NDArray} {items : List Value} (ha : Built (.array a)) (h : a.rows = .ok items) :
    Built (.list items)
  | mapM {a b : NDArray} {f : Scalar → Outcome Scalar} (ha : Built (.array a))
    (h : a.mapM f = .ok b) : Built (.array b)
  | zipWithM {a b c : NDArray} {f : Scalar → Scalar → Outcome Scalar} (ha : Built (.array a))
    (hb : Built (.array b)) (h : a.zipWithM b f = .ok c) : Built (.array c)
  | kron {a b c : NDArray} (ha : Built (.array a)) (hb : Built (.array b))
    (h : a.kron b = .ok c) : Built (.array c)
  | convert {v w : Value} (elem : ElemType) (hv : Built v) (h : v.convert elem = .ok w) : Built w
  | toArray {v : Value} {a : NDArray} (hv : Built v) (h : v.toArray? = .ok a) : Built (.array a)
  | binary {v w r : Value} (op : BinaryOp) (hv : Built v) (hw : Built w)
    (h : Value.binary op v w = .ok r) : Built r
  | negate {v r : Value} (hv : Built v) (h : v.negate = .ok r) : Built r
  | logical {args : List Value} {r : Value} (op : LogicalOp) (hargs : ∀ v ∈ args, Built v)
    (h : Value.logical op args = .ok r) : Built r

/-- A well-formed array whose places were counted: one without elements may have no axes so long
that their product leaves the machine words. -/
structure NDArray.Counted (a : NDArray) : Prop where
  filled : a.WellFormed
  fits : a.size ≠ 0 ∨ shapeFits a.shape = true

namespace NDArray

theorem counted_make {shape : List Nat} {cells : Cells} {a : NDArray}
    (h : make shape cells = .ok a) : a.Counted := by
  unfold make at h
  split at h
  · next hroom =>
    cases h
    exact ⟨hroom.1.symm, hroom.2⟩
  · split at h <;> cases h

/-- An array of one axis has its places counted. -/
theorem counted_axis (cells : Cells) : Counted ⟨[cells.size], cells⟩ where
  filled := (Nat.mul_one _).symm
  fits := by
    by_cases h : cells.size = 0
    · exact .inr (by rw [h]; rfl)
    · exact .inl h

/-- There is a row only where the leading axis has a place, so that the product of the other
lengths is not larger than that of all. -/
theorem counted_row {a b : NDArray} {i : Int64} (ha : a.Counted)
    (h : a.index i = .ok (.array b)) : b.Counted := by
  obtain ⟨s, hs⟩ | ⟨n, inner, cells, hshape, hrow, hb, hsize⟩ := makes_index_row a i _ h
  · cases hs
  cases hb
  refine ⟨hsize, ?_⟩
  have hn : 0 < n := by
    refine Nat.pos_of_ne_zero fun hzero => hrow ?_
    unfold position?
    exact if_neg (by rw [hzero]; omega)
  obtain hsome | hfits := ha.fits
  · refine .inl fun hnone => hsome ?_
    rw [ha.filled, hshape, shapeSize_cons, ← hsize]
    exact Nat.mul_eq_zero.mpr (.inr hnone)
  · rw [hshape] at hfits
    exact .inr (shapeFits_of_cons hn hfits)

instance : Inherited Counted where
  make := counted_make
  row := counted_row

theorem makes_ofValues (shape : List Nat) (values : List Value) :
    Makes (ofValues shape values) Counted :=
  makes_bind (makes_any _) fun _ _ => makes_ofScalars _ _

end NDArray

/-- The arrays in a value that was built have their places counted. -/
theorem Value.Built.formed {v : Value} (h : v.Built) : v.FormedBy NDArray.Counted := by
  induction h with
  | scalar s => exact .scalar s
  | none => exact .none
  | str s => exact .str s
  | traced id type => exact .traced id type
  | list _ ih => exact .list ih
  | tuple _ ih => exact .tuple ih
  | dict _ _ ihkeys ihvalues => exact .dict ihkeys ihvalues
  | range _ _ _ ihstart ihstop ihstep => exact .range ihstart ihstop ihstep
  | enumerate start _ ih => exact .enumerate start ih
  | item _ hv hitem ih => exact formed_items hv ih _ hitem
  | make h => exact .array (NDArray.counted_make h)
  | ofInts xs => exact .array (NDArray.counted_axis (.ints xs))
  | ofFloats xs => exact .array (NDArray.counted_axis (.floats xs))
  | ofValues h => exact .array (NDArray.makes_ofValues _ _ _ h)
  | index _ h ih => cases ih with | array ha => exact NDArray.makes_index ha _ _ h
  | rows _ h ih => cases ih with | array ha => exact .list (NDArray.makes_rows ha _ h)
  | mapM _ h _ => exact .array (NDArray.makes_mapM _ _ _ h)
  | zipWithM _ _ h _ _ => exact .array (NDArray.makes_zipWithM _ _ _ _ h)
  | kron _ _ h _ _ => exact .array (NDArray.makes_kron _ _ _ h)
  | convert elem _ h _ => exact makes_convert elem _ _ h
  | toArray _ h ih => exact .array (inherits_toArray? ih h)
  | binary op _ _ h ihv ihw => exact makes_binary op ihv ihw _ h
  | negate _ h _ => exact makes_negate _ _ h
  | logical op _ h _ => exact makes_logical op _ _ h

/-! ## Access to elements -/

namespace NDArray

/-- The elements of an array are where they are looked for: there are as many as the shape has room
for, and no index, no truth value and no text needs one that is not there. -/
structure Accessible (a : NDArray) : Prop where
  filled : a.size = shapeSize a.shape
  index : ∀ i, a.index i ≠ Outcome.crash .outOfRange
  truthy : a.size = 1 → ∃ s, a.flat 0 = .ok s ∧ (Value.array a).truthy = .ok s.truthy
  text : ∃ text, a.axisText? a.shape 0 = some text

/-- The elements of two arrays are where a binary operation looks for them: arrays are brought to
one shape unless their shapes forbid it, and both factors of an entry in a product of matrices
exist. -/
structure JointlyAccessible (a b : NDArray) : Prop where
  broadcast : (∃ p, a.broadcastPair b = .ok p ∧ p.1.shape = p.2.shape ∧ p.1.size = p.2.size) ∨
    a.broadcastPair b = Outcome.shapeFault (.broadcast a.shape b.shape)
  kron : ∀ r₁ c₁ r₂ c₂, a.shape = [r₁, c₁] → b.shape = [r₂, c₂] →
    ∀ i < r₁ * r₂, ∀ j < c₁ * c₂,
      (∃ x, scalarAt a.scalars (i / r₂ * c₁ + j / c₂) = .ok x) ∧
        ∃ y, scalarAt b.scalars (i % r₂ * c₂ + j % c₂) = .ok y

section Access

variable {a b : NDArray}

theorem index_ne_crash (ha : a.WellFormed) (i : Int64) : a.index i ≠ Outcome.crash .outOfRange := by
  rcases hshape : a.shape with _ | ⟨n, inner⟩
  · unfold NDArray.index
    rw [hshape]
    exact fun h => by cases h
  · intro h
    obtain ⟨-, -, hover⟩ | ⟨-, hbounds⟩ := (ends_index ha hshape).of_error h
    · cases hover
    · cases hbounds

theorem exists_flat_zero (h : 0 < a.size) : ∃ s rest, a.flat 0 = .ok s ∧ a.scalars = s :: rest := by
  obtain ⟨s, rest, hs⟩ := List.exists_cons_of_length_pos (length_scalars a ▸ h)
  refine ⟨s, rest, ?_, hs⟩
  unfold flat
  rw [hs]
  rfl

theorem truthy_of_size_one (h : a.size = 1) :
    ∃ s, a.flat 0 = .ok s ∧ (Value.array a).truthy = .ok s.truthy := by
  obtain ⟨s, rest, hflat, hs⟩ := exists_flat_zero (h ▸ Nat.one_pos)
  have hrest : rest = [] := by
    rw [← length_scalars, hs, List.length_cons] at h
    exact List.length_eq_zero_iff.mp (Nat.succ.inj h)
  refine ⟨s, hflat, ?_⟩
  unfold Value.truthy
  simp only [hs, hrest]

theorem exists_mapM_eq_some {α β : Type} {f : α → Option β} {xs : List α}
    (h : ∀ x ∈ xs, ∃ y, f x = some y) : ∃ ys, xs.mapM f = some ys := by
  induction xs with
  | nil => exact ⟨[], rfl⟩
  | cons x xs ih =>
    obtain ⟨y, hy⟩ := h x (by simp)
    obtain ⟨ys, hys⟩ := ih fun z hz => h z (by simp [hz])
    exact ⟨y :: ys, by rw [List.mapM_cons, hy, hys]; rfl⟩

/-- A part of an array that lies inside it has a text. -/
theorem exists_axisText? (a : NDArray) (shape : List Nat) {offset : Nat}
    (h : offset + shapeSize shape ≤ a.size) : ∃ text, a.axisText? shape offset = some text := by
  induction shape generalizing offset with
  | nil =>
    have hlt : offset < a.scalars.length := length_scalars a ▸ h
    exact ⟨_, by rw [axisText?, List.getElem?_eq_getElem hlt]; rfl⟩
  | cons n inner ih =>
    have hitems : ∀ k ∈ List.range n,
        ∃ text, a.axisText? inner (offset + k * shapeSize inner) = some text := by
      intro k hk
      refine ih ?_
      have hrows : (k + 1) * shapeSize inner ≤ n * shapeSize inner :=
        Nat.mul_le_mul_right _ (List.mem_range.mp hk)
      rw [Nat.succ_mul] at hrows
      rw [shapeSize_cons] at h
      omega
    obtain ⟨items, hitems⟩ := exists_mapM_eq_some hitems
    exact ⟨_, by rw [axisText?, hitems]; rfl⟩

theorem accessible (ha : a.WellFormed) : a.Accessible where
  filled := ha
  index := index_ne_crash ha
  truthy := truthy_of_size_one
  text := exists_axisText? a a.shape (Nat.le_of_eq ((Nat.zero_add _).trans ha.symm))

/-- One scalar in all places of an array. -/
theorem ofScalars_replicate (hb : b.Counted) (s : Scalar) :
    ∃ c, ofScalars b.shape (List.replicate b.size s) = .ok c ∧ c.shape = b.shape ∧
      c.size = b.size := by
  have hroom : shapeSize b.shape = (List.replicate b.size s).length := by
    rw [List.length_replicate, hb.filled]
  have hfits : List.replicate b.size s ≠ [] ∨ shapeFits b.shape = true :=
    hb.fits.imp_left fun hsome => by simpa using hsome
  refine ⟨_, (ofScalars_eq hroom).trans (if_pos hfits), rfl, ?_⟩
  exact (Cells.size_ofScalars_widestElem _).trans (List.length_replicate ..)

theorem broadcastPair_cases (ha : a.Counted) (hb : b.Counted) :
    (∃ p, a.broadcastPair b = .ok p ∧ p.1.shape = p.2.shape ∧ p.1.size = p.2.size) ∨
      a.broadcastPair b = Outcome.shapeFault (.broadcast a.shape b.shape) := by
  have hzero : ∀ {c : NDArray}, c.WellFormed → c.isZeroDim = true → ∃ s, c.flat 0 = .ok s := by
    intro c hc hdim
    have hpos : 0 < c.size := by
      rw [hc, List.isEmpty_iff.mp hdim]
      exact Nat.one_pos
    obtain ⟨s, -, hs, -⟩ := exists_flat_zero hpos
    exact ⟨s, hs⟩
  unfold broadcastPair
  split
  · next hshape =>
    exact .inl ⟨(a, b), rfl, hshape, by rw [ha.filled, hb.filled, hshape]⟩
  split
  · next hdim =>
    obtain ⟨s, hs⟩ := hzero ha.filled hdim
    obtain ⟨c, hc, hshape, hsize⟩ := ofScalars_replicate hb s
    refine .inl ⟨(c, b), ?_, hshape, hsize⟩
    rw [hs]
    show (ofScalars b.shape (List.replicate b.size s) >>= _) = _
    rw [hc]
    rfl
  split
  · next hdim =>
    obtain ⟨s, hs⟩ := hzero hb.filled hdim
    obtain ⟨c, hc, hshape, hsize⟩ := ofScalars_replicate ha s
    refine .inl ⟨(a, c), ?_, hshape.symm, hsize.symm⟩
    rw [hs]
    show (ofScalars a.shape (List.replicate a.size s) >>= _) = _
    rw [hc]
    rfl
  · exact .inr rfl

theorem jointlyAccessible (ha : a.Counted) (hb : b.Counted) : a.JointlyAccessible b where
  broadcast := broadcastPair_cases ha hb
  kron r₁ c₁ r₂ c₂ hsa hsb i hi j hj := by
    have hat : ∀ {c : NDArray} {r d k : Nat}, c.WellFormed → c.shape = [r, d] → k < r * d →
        ∃ x, scalarAt c.scalars k = .ok x := by
      intro c r d k hc hshape hk
      have hlt : k < c.scalars.length := by
        rw [length_scalars, hc, hshape]
        simpa [shapeSize] using hk
      exact ⟨_, scalarAt_of_lt hlt⟩
    obtain ⟨hx, hy⟩ := kron_places_lt hi hj
    exact ⟨hat ha.filled hsa hx, hat hb.filled hsb hy⟩

/-- However arrays were built, their elements are where they are looked for; and scalars that are
stored in the widest element type among them are all stored. -/
theorem accesses_of_built (ha : (Value.array a).Built) (hb : (Value.array b).Built)
    (scalars : List Scalar) :
    a.Accessible ∧ a.JointlyAccessible b ∧
      (Cells.ofScalars (widestElem scalars) scalars).scalars =
        scalars.map (Scalar.widened (widestElem scalars)) := by
  cases ha.formed with
  | array ha =>
    cases hb.formed with
    | array hb =>
      exact ⟨accessible ha.filled, jointlyAccessible ha hb,
        Cells.scalars_ofScalars (ElemType.holds_widestElem scalars)⟩

/-- The last row of a matrix, and the negative of an array without axes. -/
theorem accesses_of_built_row :
    let row : NDArray := ⟨[2], .ints [3, 4]⟩
    let point : NDArray := ⟨[], .ints [-5]⟩
    (Value.array row).Built ∧ (Value.array point).Built ∧ row.Accessible ∧
      row.JointlyAccessible point ∧
      (Cells.ofScalars .int [.bool true, .int 2]).scalars =
        [.bool true, .int 2].map (Scalar.widened .int) := by
  have hmatrix : (Value.array ⟨[2, 2], .ints [1, 2, 3, 4]⟩).Built :=
    .make (rfl : make [2, 2] (.ints [1, 2, 3, 4]) = .ok _)
  have hpoint : (Value.array ⟨[], .ints [5]⟩).Built := .make (rfl : make [] (.ints [5]) = .ok _)
  have hrow : (Value.array ⟨[2], .ints [3, 4]⟩).Built := .index (i := -1) hmatrix rfl
  have hnegative : (Value.array ⟨[], .ints [-5]⟩).Built := .negate hpoint rfl
  exact ⟨hrow, hnegative, accesses_of_built hrow hnegative [.bool true, .int 2]⟩

end Access

end NDArray

end StagedFlow
