import Mathlib.Data.List.Basic
import Mathlib.Data.List.ProdSigma
import StagedFlow.Op.Concrete
import StagedFlow.Proofs.Contract

/-!
What operations on arrays come to. An array with as many elements as its shape has room for stays
one through every operation; the result has the expected shape and element type, and the operation
stops only where one on elements does, or at an index outside the array. Main definition:
`Outcome.Ends`. Main results: `NDArray.ends_mapM`, `NDArray.ends_zipWithM`, `NDArray.ends_kron`,
`NDArray.ends_index`.
-/
set_option autoImplicit false

namespace StagedFlow

/-! ## Outcomes -/

namespace Outcome

variable {α β γ : Type}

/-- The outcome is a value with the property `Q`, or a halt with the property `E`. -/
def Ends (x : Outcome α) (Q : α → Prop) (E : Halt Fault → Prop) : Prop :=
  match x with
  | .ok a => Q a
  | .error h => E h

namespace Ends

variable {x : Outcome α} {Q Q' : α → Prop} {E E' : Halt Fault → Prop}

theorem of_ok {a : α} (h : x.Ends Q E) (hx : x = .ok a) : Q a := by
  subst hx
  exact h

theorem of_error {e : Halt Fault} (h : x.Ends Q E) (hx : x = .error e) : E e := by
  subst hx
  exact h

theorem of_eq_ok {a : α} (hx : x = .ok a) (h : Q a) : x.Ends Q E := by
  subst hx
  exact h

theorem with_eq (h : x.Ends Q E) :
    x.Ends (fun a => x = .ok a ∧ Q a) (fun e => x = .error e ∧ E e) := by
  cases x with
  | ok a => exact ⟨rfl, h⟩
  | error e => exact ⟨rfl, h⟩

theorem mono (h : x.Ends Q E) (hQ : ∀ a, Q a → Q' a) (hE : ∀ e, E e → E' e) : x.Ends Q' E' := by
  cases x with
  | ok a => exact hQ a h
  | error e => exact hE e h

theorem bind {f : α → Outcome β} {R : β → Prop} (h : x.Ends (fun a => (f a).Ends R E) E) :
    Ends (x >>= f) R E := by
  cases x with
  | ok a => exact h
  | error e => exact h

theorem pure {a : α} (h : Q a) : Ends (Pure.pure a) Q E := h

theorem map {f : α → β} {R : β → Prop} (h : x.Ends (fun a => R (f a)) E) :
    Ends (Except.map f x) R E := by
  cases x with
  | ok a => exact h
  | error e => exact h

theorem mapM {f : γ → Outcome α} {P : α → Prop} (items : List γ)
    (h : ∀ c ∈ items, (f c).Ends P E) :
    (items.mapM f).Ends (fun as => as.length = items.length ∧ ∀ a ∈ as, P a) E := by
  induction items with
  | nil => exact pure ⟨rfl, by simp⟩
  | cons c rest ih =>
    rw [List.mapM_cons]
    refine bind ((h c (by simp)).mono (fun a ha => ?_) fun _ he => he)
    refine bind ((ih fun c' hc' => h c' (by simp [hc'])).mono (fun as has => ?_) fun _ he => he)
    refine pure ⟨congrArg Nat.succ has.1, fun b hb => ?_⟩
    rcases List.mem_cons.mp hb with rfl | hb
    · exact ha
    · exact has.2 b hb

end Ends

end Outcome

/-! ## Elements and shapes -/

theorem shapeSize_cons (n : Nat) (shape : List Nat) :
    shapeSize (n :: shape) = n * shapeSize shape :=
  rfl

theorem productFits_mono {m n : Nat} (hle : m ≤ n) {shape : List Nat}
    (h : productFits n shape = true) : productFits m shape = true := by
  induction shape generalizing m n with
  | nil => rfl
  | cons length rest ih =>
    rw [productFits, Bool.and_eq_true, decide_eq_true_eq] at h ⊢
    have hstep : m * length ≤ n * length := Nat.mul_le_mul_right length hle
    exact ⟨Nat.le_trans hstep h.1, ih hstep h.2⟩

/-- Where the places of items can be counted in all, so can those of one item. -/
theorem shapeFits_of_cons {n : Nat} {inner : List Nat} (hn : 0 < n)
    (h : shapeFits (n :: inner) = true) : shapeFits inner = true := by
  rw [shapeFits, productFits, Bool.and_eq_true] at h
  exact productFits_mono (by omega) h.2

theorem shapeSize_pos {shape : List Nat} (h : 0 ∉ shape) : 0 < shapeSize shape := by
  induction shape with
  | nil => exact Nat.one_pos
  | cons n shape ih =>
    rw [List.mem_cons, not_or] at h
    rw [shapeSize_cons]
    exact Nat.mul_pos (Nat.pos_of_ne_zero (Ne.symm h.1)) (ih h.2)

namespace Cells

theorem elem_scalars (c : Cells) : ∀ s ∈ c.scalars, s.elem = c.elem := by
  intro s hs
  cases c <;> (obtain ⟨x, -, rfl⟩ := List.mem_map.mp hs; rfl)

theorem elem_ofScalars (e : ElemType) (scalars : List Scalar) : (ofScalars e scalars).elem = e := by
  cases e <;> rfl

/-- Scalars of one element type are all stored with it. -/
theorem size_ofScalars {e : ElemType} {scalars : List Scalar} (h : ∀ s ∈ scalars, s.elem = e) :
    (ofScalars e scalars).size = scalars.length := by
  cases e with
  | bool =>
    refine List.filterMap_length_eq_length.mpr fun s hs => ?_
    have helem := h s hs
    cases s with
    | bool b => rfl
    | _ => cases helem
  | int =>
    refine List.filterMap_length_eq_length.mpr fun s hs => ?_
    have helem := h s hs
    cases s with
    | int n => rfl
    | _ => cases helem
  | float => exact List.length_map ..

end Cells

namespace NDArray

theorem elem_scalars (a : NDArray) : ∀ s ∈ a.scalars, s.elem = a.elem :=
  a.cells.elem_scalars

@[simp] theorem length_scalars (a : NDArray) : a.scalars.length = a.size :=
  a.cells.length_scalars

/-- Scalars of one element type have it for their widest. -/
theorem widestElem_eq {e : ElemType} {scalars : List Scalar} (hne : scalars ≠ [])
    (h : ∀ s ∈ scalars, s.elem = e) : widestElem scalars = e := by
  have hstay : ∀ l : List Scalar, (∀ s ∈ l, s.elem = e) →
      l.foldl (fun elem s => elem.widest s.elem) e = e := by
    intro l hl
    induction l with
    | nil => rfl
    | cons s l ih =>
      rw [List.foldl_cons, hl s (by simp)]
      have he : e.widest e = e := by cases e <;> rfl
      rw [he]
      exact ih fun s' hs' => hl s' (by simp [hs'])
  cases scalars with
  | nil => exact absurd rfl hne
  | cons s scalars =>
    have he : ElemType.bool.widest s.elem = e := by
      rw [h s (by simp)]
      cases e <;> rfl
    show scalars.foldl _ (ElemType.bool.widest s.elem) = e
    rw [he]
    exact hstay scalars fun s' hs' => h s' (by simp [hs'])

theorem make_eq_ok {shape : List Nat} {cells : Cells} {a : NDArray} (h : make shape cells = .ok a) :
    a = ⟨shape, cells⟩ ∧ a.WellFormed := by
  unfold make at h
  split at h
  · next hsize =>
    cases h
    exact ⟨rfl, hsize.1.symm⟩
  · split at h <;> cases h

theorem make_of_size {shape : List Nat} {cells : Cells} (hsize : shapeSize shape = cells.size)
    (hfits : cells.size ≠ 0 ∨ shapeFits shape = true) :
    make shape cells = .ok ⟨shape, cells⟩ := by
  unfold make
  rw [if_pos ⟨hsize, hfits⟩]

/-- Elements of one type fill a shape that has room for just them. -/
theorem ends_ofScalars {shape : List Nat} {scalars : List Scalar} {e : ElemType}
    {E : Halt Fault → Prop} (hpos : 0 < shapeSize shape) (hlen : scalars.length = shapeSize shape)
    (h : ∀ s ∈ scalars, s.elem = e) :
    (ofScalars shape scalars).Ends (fun a => a.WellFormed ∧ a.type = ⟨e, shape⟩) E := by
  have hne : scalars ≠ [] := by
    rintro rfl
    exact absurd hlen (by simp; omega)
  have hsize : shapeSize shape = (Cells.ofScalars e scalars).size := by
    rw [Cells.size_ofScalars h, hlen]
  have hmake : ofScalars shape scalars = .ok ⟨shape, Cells.ofScalars e scalars⟩ := by
    unfold ofScalars
    rw [widestElem_eq hne h, make_of_size hsize (Or.inl (by omega))]
  rw [hmake]
  refine ⟨hsize.symm, ?_⟩
  unfold type elem
  rw [Cells.elem_ofScalars]

/-! ## Element by element -/

variable {a b : NDArray} {e : ElemType} {E : Halt Fault → Prop}

theorem ends_mapM {f : Scalar → Outcome Scalar} (ha : a.WellFormed) (hpos : 0 < a.size)
    (hf : ∀ s ∈ a.scalars, (f s).Ends (fun r => r.elem = e) E) :
    (a.mapM f).Ends (fun r => r.WellFormed ∧ r.type = ⟨e, a.shape⟩) E := by
  refine .bind ((Outcome.Ends.mapM _ hf).mono (fun scalars h => ?_) fun _ he => he)
  refine ends_ofScalars (ha ▸ hpos) ?_ h.2
  rw [h.1, length_scalars]
  exact ha

theorem ends_zipWithM {f : Scalar → Scalar → Outcome Scalar} (ha : a.WellFormed)
    (hb : b.WellFormed) (hshape : a.shape = b.shape) (hpos : 0 < a.size)
    (hf : ∀ s ∈ a.scalars, ∀ t ∈ b.scalars, (f s t).Ends (fun r => r.elem = e) E) :
    (a.zipWithM b f).Ends (fun r => r.WellFormed ∧ r.type = ⟨e, a.shape⟩) E := by
  have hpairs : ∀ p ∈ a.scalars.zip b.scalars, (f p.1 p.2).Ends (fun r => r.elem = e) E :=
    fun p hp => hf p.1 (List.of_mem_zip hp).1 p.2 (List.of_mem_zip hp).2
  have hsize : b.size = a.size := by
    rw [hb, ha, hshape]
  unfold zipWithM
  rw [if_pos hshape]
  refine .bind ((Outcome.Ends.mapM _ hpairs).mono (fun scalars h => ?_) fun _ he => he)
  refine ends_ofScalars (ha ▸ hpos) ?_ h.2
  rw [h.1, List.length_zip, length_scalars, length_scalars, hsize, Nat.min_self]
  exact ha

/-! ## Kronecker products -/

theorem scalarAt_of_lt {xs : List Scalar} {i : Nat} (h : i < xs.length) :
    scalarAt xs i = .ok xs[i] := by
  unfold scalarAt
  rw [List.getElem?_eq_getElem h]

theorem ends_scalarAt {xs : List Scalar} {i : Nat} (h : i < xs.length) :
    (scalarAt xs i).Ends (fun s => s ∈ xs) E := by
  rw [scalarAt_of_lt h]
  exact List.getElem_mem h

/-- A place in a matrix is one in its list of rows. -/
theorem place_lt {r c i j : Nat} (hi : i < r) (hj : j < c) : i * c + j < r * c := by
  have h : (i + 1) * c ≤ r * c := Nat.mul_le_mul_right c hi
  rw [Nat.succ_mul] at h
  omega

/-- The factors of an entry in the product of two matrices are entries of the matrices. -/
theorem kron_places_lt {r₁ c₁ r₂ c₂ i j : Nat} (hi : i < r₁ * r₂) (hj : j < c₁ * c₂) :
    i / r₂ * c₁ + j / c₂ < r₁ * c₁ ∧ i % r₂ * c₂ + j % c₂ < r₂ * c₂ := by
  have hr₂ : 0 < r₂ := Nat.pos_of_mul_pos_left (Nat.zero_lt_of_lt hi)
  have hc₂ : 0 < c₂ := Nat.pos_of_mul_pos_left (Nat.zero_lt_of_lt hj)
  constructor
  · exact place_lt (Nat.div_lt_of_lt_mul (Nat.mul_comm r₁ r₂ ▸ hi))
      (Nat.div_lt_of_lt_mul (Nat.mul_comm c₁ c₂ ▸ hj))
  · exact place_lt (Nat.mod_lt i hr₂) (Nat.mod_lt j hc₂)

theorem ends_kronVector {xs ys : List Scalar}
    (hmul : ∀ s ∈ xs, ∀ t ∈ ys, (Scalar.binary .mul s t).Ends (fun p => p.elem = e) E) :
    (kronVector xs ys).Ends
      (fun scalars => scalars.length = xs.length * ys.length ∧ ∀ p ∈ scalars, p.elem = e) E := by
  refine (Outcome.Ends.mapM (P := fun p => p.elem = e) _ fun p hp => ?_).mono
    (fun scalars h => ?_) fun _ he => he
  · obtain ⟨hs, ht⟩ := List.mem_product.mp hp
    exact hmul p.1 hs p.2 ht
  · exact ⟨h.1.trans (List.length_product xs ys), h.2⟩

/-- An entry of the product of two matrices multiplies entries that are there. -/
theorem ends_kronEntry {xs ys : List Scalar} {r₁ c₁ r₂ c₂ i j : Nat}
    (hxs : xs.length = r₁ * c₁) (hys : ys.length = r₂ * c₂) (hi : i < r₁ * r₂) (hj : j < c₁ * c₂)
    (hmul : ∀ s ∈ xs, ∀ t ∈ ys, (Scalar.binary .mul s t).Ends (fun p => p.elem = e) E) :
    (kronEntry xs ys c₁ r₂ c₂ i j).Ends (fun p => p.elem = e) E := by
  obtain ⟨hx, hy⟩ := kron_places_lt hi hj
  rw [← hxs] at hx
  rw [← hys] at hy
  refine .bind ((ends_scalarAt hx).mono (fun s hs => ?_) fun _ he => he)
  exact .bind ((ends_scalarAt hy).mono (fun t ht => hmul s hs t ht) fun _ he => he)

theorem checkedSize_of_le {n : Nat} (h : n ≤ wordMax) : checkedSize n = .ok n := by
  unfold checkedSize
  rw [if_pos h]

theorem checkedSize_of_lt {n : Nat} (h : wordMax < n) : checkedSize n = .crash .overflow := by
  unfold checkedSize
  rw [if_neg (Nat.not_le.mpr h)]

theorem checkedSize_eq_ok {n m : Nat} (h : checkedSize n = .ok m) : m = n ∧ n ≤ wordMax := by
  unfold checkedSize at h
  split at h
  · next hle => exact ⟨(Except.ok.inj h).symm, hle⟩
  · cases h

/-- Lengths that all fit are left as they are. -/
theorem mapM_checkedSize_eq_ok {ns ms : List Nat} (h : ns.mapM checkedSize = .ok ms) :
    ms = ns ∧ ∀ n ∈ ns, n ≤ wordMax := by
  induction ns generalizing ms with
  | nil =>
    cases h
    simp
  | cons n ns ih =>
    rw [List.mapM_cons] at h
    obtain ⟨m, hm, h₁⟩ := Outcome.bind_eq_ok h
    obtain ⟨rest, hrest, h₂⟩ := Outcome.bind_eq_ok h₁
    obtain ⟨rfl, hle⟩ := checkedSize_eq_ok hm
    obtain ⟨rfl, hall⟩ := ih hrest
    cases h₂
    exact ⟨rfl, List.forall_mem_cons.mpr ⟨hle, hall⟩⟩

theorem mapM_checkedSize {ns : List Nat} (h : ∀ n ∈ ns, n ≤ wordMax) :
    ns.mapM checkedSize = .ok ns := by
  induction ns with
  | nil => rfl
  | cons n ns ih =>
    rw [List.forall_mem_cons] at h
    rw [List.mapM_cons, checkedSize_of_le h.1, ih h.2]
    rfl

theorem ends_checkedSize {n : Nat} (h : n ≤ wordMax) : (checkedSize n).Ends (fun m => m = n) E := by
  rw [checkedSize_of_le h]
  rfl

theorem ends_kron (ha : a.WellFormed) (hb : b.WellFormed)
    (hrank : a.shape.length = b.shape.length) (hne : a.shape ≠ []) (htwo : a.shape.length ≤ 2)
    (hfits : ∀ n ∈ List.zipWith (· * ·) a.shape b.shape, n ≤ wordMax)
    (hpos : 0 < shapeSize (List.zipWith (· * ·) a.shape b.shape))
    (hmul : ∀ s ∈ a.scalars, ∀ t ∈ b.scalars,
      (Scalar.binary .mul s t).Ends (fun p => p.elem = e) E) :
    (a.kron b).Ends
      (fun p => p.WellFormed ∧ p.type = ⟨e, List.zipWith (· * ·) a.shape b.shape⟩) E := by
  have hsa : a.scalars.length = shapeSize a.shape := (length_scalars a).trans ha
  have hsb : b.scalars.length = shapeSize b.shape := (length_scalars b).trans hb
  unfold kron
  split
  · next n m ha' hb' =>
    rw [ha', hb'] at hpos hfits ⊢
    rw [ha'] at hsa
    rw [hb'] at hsb
    refine .bind ((ends_checkedSize (hfits _ (by simp))).mono (fun count hcount => ?_)
      fun _ he => he)
    subst hcount
    refine .bind ((ends_kronVector hmul).mono (fun scalars h => ?_) fun _ he => he)
    refine ends_ofScalars hpos ?_ h.2
    rw [h.1, hsa, hsb]
    simp [shapeSize]
  · next r₁ c₁ r₂ c₂ ha' hb' =>
    rw [ha', hb'] at hpos hfits ⊢
    rw [ha'] at hsa
    rw [hb'] at hsb
    refine .bind ((ends_checkedSize (hfits _ (by simp))).mono (fun rows hrows => ?_) fun _ he => he)
    refine .bind ((ends_checkedSize (hfits _ (by simp))).mono (fun cols hcols => ?_) fun _ he => he)
    subst hrows hcols
    have hxs : a.scalars.length = r₁ * c₁ := by simpa [shapeSize] using hsa
    have hys : b.scalars.length = r₂ * c₂ := by simpa [shapeSize] using hsb
    refine .bind ((Outcome.Ends.mapM (P := fun p => p.elem = e) _ fun p hp => ?_).mono
      (fun scalars h => ?_) fun _ he => he)
    · obtain ⟨hi, hj⟩ := List.mem_product.mp hp
      exact ends_kronEntry hxs hys (List.mem_range.mp hi) (List.mem_range.mp hj) hmul
    · refine ends_ofScalars hpos ?_ h.2
      have hplaces := List.length_product (List.range (r₁ * r₂)) (List.range (c₁ * c₂))
      rw [List.length_range, List.length_range] at hplaces
      refine (h.1.trans hplaces).trans ?_
      simp [shapeSize]
  · next hvectors hmatrices =>
    -- of one or two axes there are only vectors and matrices
    rcases ha' : a.shape with _ | ⟨r₁, _ | ⟨c₁, _ | ⟨d, rest⟩⟩⟩
    · exact absurd ha' hne
    · rw [ha'] at hrank
      obtain ⟨m, hm⟩ := List.length_eq_one_iff.mp hrank.symm
      exact absurd hm (hvectors r₁ m ha')
    · rw [ha'] at hrank
      obtain ⟨r₂, c₂, hm⟩ := List.length_eq_two.mp hrank.symm
      exact absurd hm (hmatrices r₁ c₁ r₂ c₂ ha')
    · rw [ha'] at htwo
      exact absurd htwo (by simp)

/-! ## Indexing -/

theorem signedLength_of_lt {n : Nat} (h : n < 0x8000000000000000) : signedLength n = n :=
  Int64.toInt_ofNat_of_lt h

/-- On an axis whose length has 63 bits an index can be counted from the end. -/
theorem countsOut_of_lt {n : Nat} (hn : n < 0x8000000000000000) (i : Int64) :
    countsOut i n = false := by
  have hi := i.le_toInt
  unfold countsOut
  rw [signedLength_of_lt hn, decide_eq_false_iff_not]
  omega

theorem position?_lt {i : Int64} {n row : Nat} (h : position? i n = some row) : row < n := by
  unfold position? at h
  simp only [Option.ite_none_right_eq_some, Option.some.injEq] at h
  omega

theorem ends_slice {c : Cells} {offset count : Nat} (h : offset + count ≤ c.size) :
    (c.slice offset count).Ends (fun d => d.size = count ∧ d.elem = c.elem) E := by
  have hlength : ∀ {α : Type} (xs : List α), offset + count ≤ xs.length →
      ((xs.drop offset).take count).length = count := by
    intro α xs hxs
    rw [List.length_take, List.length_drop]
    omega
  unfold Cells.slice
  rw [if_pos h]
  cases c with
  | bools xs => exact ⟨hlength xs h, rfl⟩
  | ints xs => exact ⟨hlength xs h, rfl⟩
  | floats xs => exact ⟨hlength xs h, rfl⟩

theorem ends_flat {i : Nat} (h : i < a.size) : (a.flat i).Ends (fun s => s.elem = a.elem) E := by
  rw [← length_scalars] at h
  unfold flat
  rw [List.getElem?_eq_getElem h]
  exact a.elem_scalars _ (List.getElem_mem h)

/-- What stands at an index is a scalar or an array of one axis less; the only thing that can be
wrong is the index, and without elements its count from the end. -/
theorem ends_index {i : Int64} {n : Nat} {inner : List Nat} (ha : a.WellFormed)
    (hshape : a.shape = n :: inner) :
    (a.index i).Ends
      (fun v => if inner = [] then ∃ s, v = .scalar s ∧ s.elem = a.elem
        else ∃ b : NDArray, v = .array b ∧ b.WellFormed ∧ b.type = ⟨a.elem, inner⟩)
      (fun h => (a.size = 0 ∧ countsOut i n = true ∧ h = .crash .overflow) ∨
        position? i n = none ∧ h = .error (.bounds i n)) := by
  have hsize : a.size = n * shapeSize inner := by
    rw [ha, hshape, shapeSize_cons]
  unfold index
  rw [hshape]
  simp only
  split
  · next hout => exact Or.inl ⟨hout.1, hout.2, rfl⟩
  rcases hrow : position? i n with _ | row
  · exact Or.inr ⟨rfl, rfl⟩
  have hlt : row < n := position?_lt hrow
  cases inner with
  | nil =>
    refine .map (Outcome.Ends.mono (ends_flat ?_) (fun s hs => ?_) fun _ he => he)
    · rw [hsize, shapeSize, List.foldr_nil, Nat.mul_one]
      exact hlt
    · rw [if_pos rfl]
      exact ⟨s, rfl, hs⟩
  | cons m inner =>
    have hroom : row * shapeSize (m :: inner) + shapeSize (m :: inner) ≤ a.cells.size := by
      have h : (row + 1) * shapeSize (m :: inner) ≤ n * shapeSize (m :: inner) :=
        Nat.mul_le_mul_right _ hlt
      rw [Nat.succ_mul] at h
      exact Nat.le_trans h (Nat.le_of_eq hsize.symm)
    refine .map ((ends_slice hroom).mono (fun cells hcells => ?_) fun _ he => he)
    rw [if_neg (List.cons_ne_nil m inner)]
    refine ⟨⟨m :: inner, cells⟩, rfl, hcells.1, ?_⟩
    unfold type elem
    rw [hcells.2]

end NDArray

end StagedFlow
