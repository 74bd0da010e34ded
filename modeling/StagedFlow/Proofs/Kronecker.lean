import Mathlib.Data.List.GetD
import StagedFlow.Proofs.UniformItems

/-!
Kronecker products of integers and booleans. Such a product is a table of products at places that
come from one another by division; a vector is a matrix of one row. Dividing in two steps is
dividing once, so the product is associative, with the shape and the element type of the result, as
long as the lengths of the axes are machine words.
Main definitions: `table`, `kronTable`, `NDArray.wholes`, `NDArray.kronTwo`. Main results:
`kronTable_assoc`, `NDArray.kron_eq_kronTwo`, `NDArray.kron_assoc`.
-/
set_option autoImplicit false

namespace StagedFlow

/-! ## Tables -/

/-- The numbers of a matrix with `r` rows and `c` columns, row by row. -/
def table (r c : Nat) (f : Nat → Nat → Int64) : List Int64 :=
  (List.range (r * c)).map fun k => f (k / c) (k % c)

/-- The row and the column of a place, from its position in the list of rows. -/
theorem place_div_mod {c j : Nat} (i : Nat) (hj : j < c) :
    (i * c + j) / c = i ∧ (i * c + j) % c = j := by
  have hc : 0 < c := Nat.zero_lt_of_lt hj
  rw [Nat.mul_comm, Nat.mul_add_div hc, Nat.mul_add_mod, Nat.div_eq_of_lt hj, Nat.mod_eq_of_lt hj]
  exact ⟨Nat.add_zero i, rfl⟩

section Table

variable {r c : Nat} {f g : Nat → Nat → Int64}

@[simp] theorem length_table : (table r c f).length = r * c := by
  simp [table]

theorem table_congr (h : ∀ i < r, ∀ j < c, f i j = g i j) : table r c f = table r c g := by
  refine List.map_congr_left fun k hk => ?_
  have hlt : k < r * c := List.mem_range.mp hk
  have hc : 0 < c := Nat.pos_of_mul_pos_left (Nat.zero_lt_of_lt hlt)
  exact h _ (Nat.div_lt_of_lt_mul (Nat.mul_comm r c ▸ hlt)) _ (Nat.mod_lt k hc)

theorem getD_table {i j : Nat} (hi : i < r) (hj : j < c) :
    (table r c f).getD (i * c + j) 0 = f i j := by
  have hlt : i * c + j < (table r c f).length := by
    rw [length_table]
    exact NDArray.place_lt hi hj
  rw [List.getD_eq_getElem _ 0 hlt]
  simp [table, place_div_mod i hj]

end Table

/-- The places of a matrix, row by row, are the positions in its list of elements. -/
theorem product_range (r c : Nat) :
    (List.range r).product (List.range c) =
      (List.range (r * c)).map fun k => (k / c, k % c) := by
  induction r with
  | zero => simp [List.product]
  | succ r ih =>
    have hlast : (List.range c).map (Prod.mk r) =
        (List.range c).map fun j => ((r * c + j) / c, (r * c + j) % c) := by
      refine List.map_congr_left fun j hj => ?_
      obtain ⟨hrow, hcolumn⟩ := place_div_mod r (List.mem_range.mp hj)
      rw [hrow, hcolumn]
    have hrows : (List.range (r + 1)).product (List.range c) =
        (List.range r).product (List.range c) ++ (List.range c).map (Prod.mk r) := by
      simp [List.product, List.range_succ]
    rw [hrows, ih, hlast, Nat.succ_mul, List.range_add, List.map_append, List.map_map]
    rfl

/-- The pairs of two lists by their positions. -/
theorem product_eq_map_range {α : Type} (xs ys : List α) (d : α) :
    xs.product ys = (List.range (xs.length * ys.length)).map fun k =>
      (xs.getD (k / ys.length) d, ys.getD (k % ys.length) d) := by
  have hlist : ∀ zs : List α, zs = (List.range zs.length).map fun k => zs.getD k d := by
    intro zs
    refine List.ext_getElem (by simp) fun k hk _ => ?_
    rw [List.getElem_map, List.getElem_range, List.getD_eq_getElem _ d hk]
  have hpairs : ∀ ms ns : List Nat,
      (ms.map fun k => xs.getD k d).product (ns.map fun k => ys.getD k d) =
        (ms.product ns).map fun p => (xs.getD p.1 d, ys.getD p.2 d) := by
    intro ms ns
    simp [List.product, List.flatMap_map, List.map_flatMap, Function.comp_def]
  calc xs.product ys
    _ = ((List.range xs.length).product (List.range ys.length)).map
        fun p => (xs.getD p.1 d, ys.getD p.2 d) := by
      rw [← hpairs, ← hlist xs, ← hlist ys]
    _ = _ := by
      rw [product_range, List.map_map]
      rfl

/-! ## Products of tables -/

/-- The Kronecker product of an `r₁` by `c₁` matrix and an `r₂` by `c₂` matrix, modulo 64 bits. -/
def kronTable (r₁ c₁ r₂ c₂ : Nat) (xs ys : List Int64) : List Int64 :=
  table (r₁ * r₂) (c₁ * c₂) fun i j =>
    xs.getD (i / r₂ * c₁ + j / c₂) 0 * ys.getD (i % r₂ * c₂ + j % c₂) 0

theorem kronTable_assoc (r₁ c₁ r₂ c₂ r₃ c₃ : Nat) (xs ys zs : List Int64) :
    kronTable (r₁ * r₂) (c₁ * c₂) r₃ c₃ (kronTable r₁ c₁ r₂ c₂ xs ys) zs =
      kronTable r₁ c₁ (r₂ * r₃) (c₂ * c₃) xs (kronTable r₂ c₂ r₃ c₃ ys zs) := by
  -- the quotient and the remainder of a place by one factor, inside those by the product of two
  have hquotient : ∀ i m n : Nat, i / n / m = i / (m * n) := by
    intro i m n
    rw [Nat.div_div_eq_div_mul, Nat.mul_comm]
  have hmiddle : ∀ i m n : Nat, i % (m * n) / n = i / n % m := by
    intro i m n
    rw [Nat.mul_comm, Nat.mod_mul_right_div_self]
  have hupper : ∀ {i l m n : Nat}, i < l * m * n → i / n < l * m := by
    intro i l m n h
    exact Nat.div_lt_of_lt_mul (Nat.mul_comm (l * m) n ▸ h)
  have hlower : ∀ {i l m n : Nat}, i < l * m * n → i % (m * n) < m * n := by
    intro i l m n h
    rw [Nat.mul_assoc] at h
    exact Nat.mod_lt i (Nat.pos_of_mul_pos_left (Nat.zero_lt_of_lt h))
  unfold kronTable
  rw [← Nat.mul_assoc r₁, ← Nat.mul_assoc c₁]
  refine table_congr fun i hi j hj => ?_
  rw [getD_table (hupper hi) (hupper hj), getD_table (hlower hi) (hlower hj), hquotient, hquotient,
    hmiddle, hmiddle, Nat.mod_mul_left_mod, Nat.mod_mul_left_mod, Int64.mul_assoc]

/-- A vector is a matrix of one row. -/
theorem kronTable_vectors (n m : Nat) (xs ys : List Int64) :
    kronTable 1 n 1 m xs ys =
      (List.range (n * m)).map fun k => xs.getD (k / m) 0 * ys.getD (k % m) 0 := by
  unfold kronTable table
  rw [Nat.one_mul]
  refine List.map_congr_left fun k hk => ?_
  simp only [Nat.div_eq_of_lt (List.mem_range.mp hk), Nat.mod_eq_of_lt (List.mem_range.mp hk),
    Nat.div_one, Nat.mod_one, Nat.zero_mul, Nat.zero_add]

@[simp] theorem length_kronTable (r₁ c₁ r₂ c₂ : Nat) (xs ys : List Int64) :
    (kronTable r₁ c₁ r₂ c₂ xs ys).length = r₁ * r₂ * (c₁ * c₂) :=
  length_table

/-! ## Arrays of integers and booleans -/

theorem Outcome.mapM_eq_map {α β : Type} {f : α → Outcome β} {g : α → β} {xs : List α}
    (h : ∀ x ∈ xs, f x = .ok (g x)) : xs.mapM f = .ok (xs.map g) := by
  induction xs with
  | nil => rfl
  | cons x xs ih =>
    rw [List.mapM_cons, h x (by simp), ih fun y hy => h y (by simp [hy])]
    rfl

/-- The integer that a scalar stands for. -/
def Scalar.whole (s : Scalar) : Int64 :=
  s.toInt?.getD 0

theorem Scalar.binary_mul_whole {s t : Scalar} (hs : s.elem ≠ .float) (ht : t.elem ≠ .float) :
    Scalar.binary .mul s t = .ok (.int (s.whole * t.whole)) := by
  cases s with
  | float x => exact absurd rfl hs
  | _ =>
    cases t with
    | float y => exact absurd rfl ht
    | _ => rfl

/-- Integers as elements. Where there are none, the element type is that of floats. -/
def Cells.ofWholes : List Int64 → Cells
  | [] => .floats []
  | ns => .ints ns

namespace NDArray

/-- The elements as integers. -/
def wholes (a : NDArray) : List Int64 :=
  a.scalars.map Scalar.whole

/-- No element is a float. -/
def IsWhole (a : NDArray) : Prop :=
  ∀ s ∈ a.scalars, s.elem ≠ .float

theorem isWhole_of_elem {a : NDArray} (h : a.elem ≠ .float) : a.IsWhole := by
  intro s hs
  rwa [a.elem_scalars s hs]

section OfWholes

variable (shape : List Nat) (ns : List Int64)

theorem wholes_ofWholes : wholes ⟨shape, .ofWholes ns⟩ = ns := by
  cases ns with
  | nil => rfl
  | cons n ns =>
    show ((n :: ns).map Scalar.int).map Scalar.whole = n :: ns
    rw [List.map_map]
    exact List.map_id _

theorem isWhole_ofWholes : IsWhole ⟨shape, .ofWholes ns⟩ := by
  cases ns with
  | nil => exact fun s hs => absurd hs List.not_mem_nil
  | cons n ns => exact isWhole_of_elem fun h => by cases h

theorem size_ofWholes : size ⟨shape, .ofWholes ns⟩ = ns.length := by
  cases ns <;> rfl

theorem elem_ofWholes : elem ⟨shape, .ofWholes ns⟩ = if ns.length = 0 then .float else .int := by
  cases ns <;> rfl

variable {shape ns}

theorem ofScalars_ints (h : shapeSize shape = ns.length)
    (hfits : ns ≠ [] ∨ shapeFits shape = true) :
    ofScalars shape (ns.map .int) = .ok ⟨shape, .ofWholes ns⟩ := by
  have hcells : Cells.ofScalars (widestElem (ns.map .int)) (ns.map .int) = .ofWholes ns := by
    cases ns with
    | nil => rfl
    | cons n ns =>
      have hwidest : widestElem ((n :: ns).map .int) = .int := by
        refine widestElem_eq (by simp) fun s hs => ?_
        obtain ⟨m, -, rfl⟩ := List.mem_map.mp hs
        rfl
      rw [hwidest]
      show Cells.ints _ = Cells.ints _
      simp [List.filterMap_map, Function.comp_def, Scalar.toInt?]
  rw [ofScalars_eq (by rw [h, List.length_map]), if_pos (by simpa using hfits), hcells]

end OfWholes

/-! ## Products of arrays -/

section Product

variable {a b : NDArray}

theorem getD_wholes (a : NDArray) (k : Nat) :
    a.wholes.getD k 0 = (a.scalars.getD k (.int 0)).whole :=
  List.getD_map a.scalars (.int 0) Scalar.whole

theorem kron_vectors {n m : Nat} (ha : a.WellFormed) (hb : b.WellFormed) (hwa : a.IsWhole)
    (hwb : b.IsWhole) (hn : a.shape = [n]) (hm : b.shape = [m]) (hfits : n * m ≤ wordMax) :
    a.kron b = .ok ⟨[n * m], .ofWholes (kronTable 1 n 1 m a.wholes b.wholes)⟩ := by
  have hsa : a.scalars.length = n := by rw [length_scalars, ha, hn]; simp [shapeSize]
  have hsb : b.scalars.length = m := by rw [length_scalars, hb, hm]; simp [shapeSize]
  have hproducts : kronVector a.scalars b.scalars =
      .ok ((kronTable 1 n 1 m a.wholes b.wholes).map .int) := by
    have hpairs : (a.scalars.product b.scalars).mapM (fun p => Scalar.binary .mul p.1 p.2) =
        .ok ((a.scalars.product b.scalars).map fun p => .int (p.1.whole * p.2.whole)) := by
      refine Outcome.mapM_eq_map fun p hp => ?_
      obtain ⟨hs, ht⟩ := List.mem_product.mp hp
      exact Scalar.binary_mul_whole (hwa _ hs) (hwb _ ht)
    refine hpairs.trans (congrArg _ ?_)
    rw [product_eq_map_range _ _ (Scalar.int 0), hsa, hsb, kronTable_vectors, List.map_map,
      List.map_map]
    refine List.map_congr_left fun k _ => ?_
    simp only [Function.comp_apply, getD_wholes]
  unfold kron
  rw [hn, hm]
  simp only
  rw [checkedSize_of_le hfits, hproducts]
  show ofScalars [n * m] _ = _
  exact ofScalars_ints (by simp [shapeSize]) (.inr (by simpa [shapeFits, productFits] using hfits))

theorem scalarAt_eq {xs : List Scalar} {k : Nat} (h : k < xs.length) (d : Scalar) :
    scalarAt xs k = .ok (xs.getD k d) ∧ xs.getD k d ∈ xs := by
  rw [List.getD_eq_getElem _ d h]
  exact ⟨scalarAt_of_lt h, List.getElem_mem h⟩

theorem kron_matrices {r₁ c₁ r₂ c₂ : Nat} (ha : a.WellFormed) (hb : b.WellFormed)
    (hwa : a.IsWhole) (hwb : b.IsWhole) (hsa : a.shape = [r₁, c₁]) (hsb : b.shape = [r₂, c₂])
    (hrows : r₁ * r₂ ≤ wordMax) (hcolumns : c₁ * c₂ ≤ wordMax) :
    a.kron b =
      .ok ⟨[r₁ * r₂, c₁ * c₂], .ofWholes (kronTable r₁ c₁ r₂ c₂ a.wholes b.wholes)⟩ := by
  have hla : a.scalars.length = r₁ * c₁ := by rw [length_scalars, ha, hsa]; simp [shapeSize]
  have hlb : b.scalars.length = r₂ * c₂ := by rw [length_scalars, hb, hsb]; simp [shapeSize]
  have hentry : ∀ i < r₁ * r₂, ∀ j < c₁ * c₂, kronEntry a.scalars b.scalars c₁ r₂ c₂ i j =
      .ok (.int (a.wholes.getD (i / r₂ * c₁ + j / c₂) 0 *
        b.wholes.getD (i % r₂ * c₂ + j % c₂) 0)) := by
    intro i hi j hj
    obtain ⟨hx, hy⟩ := kron_places_lt hi hj
    obtain ⟨hxat, hxmem⟩ := scalarAt_eq (hla ▸ hx) (.int 0)
    obtain ⟨hyat, hymem⟩ := scalarAt_eq (hlb ▸ hy) (.int 0)
    rw [getD_wholes, getD_wholes]
    unfold kronEntry
    rw [hxat, hyat]
    exact Scalar.binary_mul_whole (hwa _ hxmem) (hwb _ hymem)
  have hentries : ((List.range (r₁ * r₂)).product (List.range (c₁ * c₂))).mapM
        (fun p => kronEntry a.scalars b.scalars c₁ r₂ c₂ p.1 p.2) =
      .ok (((List.range (r₁ * r₂)).product (List.range (c₁ * c₂))).map fun p =>
        .int (a.wholes.getD (p.1 / r₂ * c₁ + p.2 / c₂) 0 *
          b.wholes.getD (p.1 % r₂ * c₂ + p.2 % c₂) 0)) := by
    refine Outcome.mapM_eq_map fun p hp => ?_
    obtain ⟨hi, hj⟩ := List.mem_product.mp hp
    exact hentry p.1 (List.mem_range.mp hi) p.2 (List.mem_range.mp hj)
  have htable : (((List.range (r₁ * r₂)).product (List.range (c₁ * c₂))).map fun p =>
        Scalar.int (a.wholes.getD (p.1 / r₂ * c₁ + p.2 / c₂) 0 *
          b.wholes.getD (p.1 % r₂ * c₂ + p.2 % c₂) 0)) =
      (kronTable r₁ c₁ r₂ c₂ a.wholes b.wholes).map .int := by
    unfold kronTable table
    rw [product_range, List.map_map, List.map_map]
    rfl
  unfold kron
  rw [hsa, hsb]
  simp only
  rw [checkedSize_of_le hrows, checkedSize_of_le hcolumns]
  show (((List.range (r₁ * r₂)).product (List.range (c₁ * c₂))).mapM
    (fun p => kronEntry a.scalars b.scalars c₁ r₂ c₂ p.1 p.2) >>= _) = _
  rw [hentries, htable]
  show ofScalars [r₁ * r₂, c₁ * c₂] _ = _
  refine ofScalars_ints (by simp [shapeSize]) ?_
  by_cases hnone : kronTable r₁ c₁ r₂ c₂ a.wholes b.wholes = []
  · -- without places the number of them is zero
    have hzero : r₁ * r₂ * (c₁ * c₂) = 0 := by
      have hlength := congrArg List.length hnone
      simpa [kronTable] using hlength
    exact .inr (by simp [shapeFits, productFits, hrows, hzero])
  · exact .inl hnone

end Product

/-- The number of rows of a matrix; a vector is a matrix of one row. -/
def tableRows : List Nat → Nat
  | [r, _] => r
  | _ => 1

/-- The number of columns of a matrix, or the length of a vector. -/
def tableColumns : List Nat → Nat
  | [_, c] => c
  | shape => shape.headD 0

/-- All lengths are machine words. -/
def Words (shape : List Nat) : Prop :=
  ∀ n ∈ shape, n ≤ wordMax

instance (shape : List Nat) : Decidable (Words shape) :=
  inferInstanceAs (Decidable (∀ n ∈ shape, n ≤ wordMax))

/-- Arrays of integers and booleans with so many axes. -/
structure Integral (rank : Nat) (a : NDArray) : Prop where
  axes : a.shape.length = rank
  formed : a.WellFormed
  whole : a.IsWhole

/-- The product of two arrays of integers, where it is begun. -/
def kronTwo (a b : NDArray) : NDArray :=
  ⟨List.zipWith (· * ·) a.shape b.shape, .ofWholes
    (kronTable (tableRows a.shape) (tableColumns a.shape) (tableRows b.shape) (tableColumns b.shape)
      a.wholes b.wholes)⟩

section Assoc

variable {a b c : NDArray} {rank : Nat}

/-- Two lists of the lengths of one or two axes. -/
theorem axes_cases {s t : List Nat} (hrank : rank = 1 ∨ rank = 2) (hs : s.length = rank)
    (ht : t.length = rank) :
    (∃ n m, s = [n] ∧ t = [m]) ∨ ∃ r₁ c₁ r₂ c₂, s = [r₁, c₁] ∧ t = [r₂, c₂] := by
  rcases hrank with rfl | rfl
  · obtain ⟨n, rfl⟩ := List.length_eq_one_iff.mp hs
    obtain ⟨m, rfl⟩ := List.length_eq_one_iff.mp ht
    exact .inl ⟨n, m, rfl, rfl⟩
  · obtain ⟨r₁, c₁, rfl⟩ := List.length_eq_two.mp hs
    obtain ⟨r₂, c₂, rfl⟩ := List.length_eq_two.mp ht
    exact .inr ⟨r₁, c₁, r₂, c₂, rfl, rfl⟩

/-- The product of two vectors or two matrices of integers and booleans, which is not begun if a
length is no machine word. -/
theorem kron_eq_kronTwo (hrank : rank = 1 ∨ rank = 2) (ha : a.Integral rank)
    (hb : b.Integral rank) :
    a.kron b = if Words (kronTwo a b).shape then .ok (kronTwo a b) else .crash .overflow := by
  rw [kronTwo]
  rcases axes_cases hrank ha.axes hb.axes with ⟨n, m, hsa, hsb⟩ | ⟨r₁, c₁, r₂, c₂, hsa, hsb⟩
  · by_cases hfits : n * m ≤ wordMax
    · rw [kron_vectors ha.formed hb.formed ha.whole hb.whole hsa hsb hfits, hsa, hsb,
        if_pos (by simpa [Words] using hfits)]
      rfl
    · rw [kron, hsa, hsb, if_neg (by simpa [Words] using hfits)]
      simp only
      rw [checkedSize_of_lt (Nat.not_le.mp hfits)]
      rfl
  · by_cases hrows : r₁ * r₂ ≤ wordMax
    · by_cases hcolumns : c₁ * c₂ ≤ wordMax
      · rw [kron_matrices ha.formed hb.formed ha.whole hb.whole hsa hsb hrows hcolumns, hsa, hsb,
          if_pos (by simp [Words, hrows, hcolumns])]
        rfl
      · rw [kron, hsa, hsb, if_neg (by simp [Words, hcolumns])]
        simp only
        rw [checkedSize_of_le hrows, checkedSize_of_lt (Nat.not_le.mp hcolumns)]
        rfl
    · rw [kron, hsa, hsb, if_neg (by simp [Words, hrows])]
      simp only
      rw [checkedSize_of_lt (Nat.not_le.mp hrows)]
      rfl

theorem counts_zipWith {s t : List Nat} (hrank : rank = 1 ∨ rank = 2) (hs : s.length = rank)
    (ht : t.length = rank) :
    tableRows (List.zipWith (· * ·) s t) = tableRows s * tableRows t ∧
      tableColumns (List.zipWith (· * ·) s t) = tableColumns s * tableColumns t := by
  rcases axes_cases hrank hs ht with ⟨n, m, rfl, rfl⟩ | ⟨r₁, c₁, r₂, c₂, rfl, rfl⟩
  · exact ⟨rfl, rfl⟩
  · exact ⟨rfl, rfl⟩

/-- A product is again an array of integers with so many axes. -/
theorem integral_kronTwo (hrank : rank = 1 ∨ rank = 2) (ha : a.Integral rank)
    (hb : b.Integral rank) (hwords : Words (kronTwo a b).shape) : (kronTwo a b).Integral rank where
  axes := by rw [kronTwo, List.length_zipWith, ha.axes, hb.axes, Nat.min_self]
  formed := by
    have hkron := kron_eq_kronTwo hrank ha hb
    rw [if_pos hwords] at hkron
    exact makes_kron a b _ hkron
  whole := isWhole_ofWholes _ _

theorem kronTwo_assoc (hrank : rank = 1 ∨ rank = 2) (ha : a.Integral rank) (hb : b.Integral rank)
    (hc : c.Integral rank) : kronTwo (kronTwo a b) c = kronTwo a (kronTwo b c) := by
  have hshape : List.zipWith (· * ·) (List.zipWith (· * ·) a.shape b.shape) c.shape =
      List.zipWith (· * ·) a.shape (List.zipWith (· * ·) b.shape c.shape) :=
    List.ext_getElem (by simp [Nat.min_assoc]) fun _ _ _ => by simp [Nat.mul_assoc]
  obtain ⟨hrows, hcolumns⟩ := counts_zipWith hrank ha.axes hb.axes
  obtain ⟨hrows', hcolumns'⟩ := counts_zipWith hrank hb.axes hc.axes
  simp only [kronTwo, wholes_ofWholes, hrows, hcolumns, hrows', hcolumns', hshape, kronTable_assoc]

theorem kron_kron_left (hrank : rank = 1 ∨ rank = 2) (ha : a.Integral rank) (hb : b.Integral rank)
    (hc : c.Integral rank) :
    (a.kron b >>= fun ab => ab.kron c) =
      if Words (kronTwo a b).shape ∧ Words (kronTwo (kronTwo a b) c).shape then
        .ok (kronTwo (kronTwo a b) c)
      else .crash .overflow := by
  rw [kron_eq_kronTwo hrank ha hb]
  by_cases hwords : Words (kronTwo a b).shape
  · rw [if_pos hwords]
    refine (kron_eq_kronTwo hrank (integral_kronTwo hrank ha hb hwords) hc).trans ?_
    simp only [hwords, true_and]
  · rw [if_neg hwords, if_neg fun hboth => hwords hboth.1]
    rfl

theorem kron_kron_right (hrank : rank = 1 ∨ rank = 2) (ha : a.Integral rank) (hb : b.Integral rank)
    (hc : c.Integral rank) :
    (b.kron c >>= fun bc => a.kron bc) =
      if Words (kronTwo b c).shape ∧ Words (kronTwo a (kronTwo b c)).shape then
        .ok (kronTwo a (kronTwo b c))
      else .crash .overflow := by
  rw [kron_eq_kronTwo hrank hb hc]
  by_cases hwords : Words (kronTwo b c).shape
  · rw [if_pos hwords]
    refine (kron_eq_kronTwo hrank ha (integral_kronTwo hrank hb hc hwords)).trans ?_
    simp only [hwords, true_and]
  · rw [if_neg hwords, if_neg fun hboth => hwords hboth.1]
    rfl

/-- A factor without axes of length zero makes no length shorter. -/
theorem words_of_zipWith {s t : List Nat} (hlength : s.length = t.length) (hpos : 0 ∉ t)
    (h : Words (List.zipWith (· * ·) s t)) : Words s := by
  induction s generalizing t with
  | nil => exact fun n hn => absurd hn List.not_mem_nil
  | cons n s ih =>
    cases t with
    | nil => cases hlength
    | cons m t =>
      rw [Words, List.zipWith_cons_cons, List.forall_mem_cons] at h
      rw [List.mem_cons, not_or] at hpos
      have hn : n ≤ n * m := Nat.le_mul_of_pos_right n (Nat.pos_of_ne_zero (Ne.symm hpos.1))
      exact List.forall_mem_cons.mpr
        ⟨Nat.le_trans hn h.1, ih (Nat.succ.inj hlength) hpos.2 h.2⟩

/-- Without axes of length zero in the outer factors, the lengths of the products of two are words
if those of the product of three are. -/
theorem words_of_kronTwo (ha : a.Integral rank) (hb : b.Integral rank) (hc : c.Integral rank)
    (hapos : 0 ∉ a.shape) (hcpos : 0 ∉ c.shape)
    (hassoc : kronTwo (kronTwo a b) c = kronTwo a (kronTwo b c))
    (h : Words (kronTwo a (kronTwo b c)).shape) :
    Words (kronTwo a b).shape ∧ Words (kronTwo b c).shape := by
  have hlength : ∀ {s t : List Nat}, s.length = rank → t.length = rank →
      (List.zipWith (· * ·) s t).length = rank := by
    intro s t hs ht
    rw [List.length_zipWith, hs, ht, Nat.min_self]
  constructor
  · rw [← hassoc] at h
    exact words_of_zipWith ((hlength ha.axes hb.axes).trans hc.axes.symm) hcpos h
  · refine words_of_zipWith ((hlength hb.axes hc.axes).trans ha.axes.symm) hapos ?_
    rw [kronTwo, List.zipWith_comm_of_comm Nat.mul_comm] at h
    exact h

/-- The product of vectors, or of matrices, of integers and booleans does not depend on the order in
which two products are taken, if the lengths on the way are machine words. Its elements are
integers, unless it has none. A product with too great a length crashes, which depends on the order
only where an outer factor has an axis of length zero. -/
theorem kron_assoc (hrank : rank = 1 ∨ rank = 2) (har : a.shape.length = rank)
    (hbr : b.shape.length = rank) (hcr : c.shape.length = rank) (ha : a.WellFormed)
    (hb : b.WellFormed) (hc : c.WellFormed) (hae : a.elem ≠ .float) (hbe : b.elem ≠ .float)
    (hce : c.elem ≠ .float) :
    (∃ abc : NDArray,
      abc.shape = List.zipWith (· * ·) a.shape (List.zipWith (· * ·) b.shape c.shape) ∧
      abc.elem = (if abc.size = 0 then .float else .int) ∧
      (a.kron b >>= fun ab => ab.kron c) =
        (if Words (List.zipWith (· * ·) a.shape b.shape) ∧ Words abc.shape then .ok abc
          else .crash .overflow) ∧
      (b.kron c >>= fun bc => a.kron bc) =
        (if Words (List.zipWith (· * ·) b.shape c.shape) ∧ Words abc.shape then .ok abc
          else .crash .overflow)) ∧
    (0 ∉ a.shape → 0 ∉ c.shape →
      (a.kron b >>= fun ab => ab.kron c) = (b.kron c >>= fun bc => a.kron bc)) := by
  have hia : a.Integral rank := ⟨har, ha, isWhole_of_elem hae⟩
  have hib : b.Integral rank := ⟨hbr, hb, isWhole_of_elem hbe⟩
  have hic : c.Integral rank := ⟨hcr, hc, isWhole_of_elem hce⟩
  have hassoc := kronTwo_assoc hrank hia hib hic
  have hleft := kron_kron_left hrank hia hib hic
  have hright := kron_kron_right hrank hia hib hic
  rw [hassoc] at hleft
  refine ⟨⟨kronTwo a (kronTwo b c), rfl, ?_, hleft, hright⟩, fun hapos hcpos => ?_⟩
  · rw [kronTwo, elem_ofWholes, size_ofWholes]
  · rw [hleft, hright]
    by_cases hwords : Words (kronTwo a (kronTwo b c)).shape
    · obtain ⟨hab, hbc⟩ := words_of_kronTwo hia hib hic hapos hcpos hassoc hwords
      rw [if_pos ⟨hab, hwords⟩, if_pos ⟨hbc, hwords⟩]
    · rw [if_neg fun hboth => hwords hboth.2, if_neg fun hboth => hwords hboth.2]

/-- A row of booleans, a column and a row of integers, where a product exceeds 64 bits. -/
theorem kron_assoc_wrapping :
    let a : NDArray := ⟨[1, 2], .bools [true, false]⟩
    let b : NDArray := ⟨[2, 1], .ints [0x4000000000000000, -1]⟩
    let c : NDArray := ⟨[1, 2], .ints [2, 5]⟩
    (a.WellFormed ∧ b.WellFormed ∧ c.WellFormed) ∧
      (a.elem ≠ .float ∧ b.elem ≠ .float ∧ c.elem ≠ .float) ∧
      ∃ abc : NDArray, abc.shape = [2, 4] ∧
        (a.kron b >>= fun ab => ab.kron c) = .ok abc ∧
        (b.kron c >>= fun bc => a.kron bc) = .ok abc := by
  intro a b c
  obtain ⟨abc, hshape, -, hleft, hright⟩ := (kron_assoc (a := a) (b := b) (c := c) (.inr rfl) rfl
    rfl rfl rfl rfl rfl (by decide) (by decide) (by decide)).1
  refine ⟨⟨rfl, rfl, rfl⟩, ⟨by decide, by decide, by decide⟩, abc, hshape, ?_, ?_⟩
  · rw [hleft, hshape]
    exact if_pos (by decide)
  · rw [hright, hshape]
    exact if_pos (by decide)

/-- Long arrays without elements: their product is not begun, though taking it in the other order
leaves nothing to multiply. -/
theorem kron_order_matters :
    let a : NDArray := ⟨[0x10000000000, 0], .ints []⟩
    let c : NDArray := ⟨[0, 0], .ints []⟩
    (a.WellFormed ∧ c.WellFormed) ∧ (a.kron a >>= fun aa => aa.kron c) = .crash .overflow ∧
      (a.kron c >>= fun ac => a.kron ac) = .ok ⟨[0, 0], .floats []⟩ :=
  ⟨⟨rfl, rfl⟩, rfl, rfl⟩

end Assoc

end NDArray

end StagedFlow
