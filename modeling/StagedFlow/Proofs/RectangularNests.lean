import StagedFlow.Proofs.UniformItems

/-!
Arrays written as nests of lists and tuples. A nest makes an array exactly if it is rectangular and
all its leaves are numbers or arrays; the array has the shape of the nest and its numbers in the
order in which they are written, in the widest element type among them. The rows of an array make
that array again. Main definition: `Value.HasShape`. Main results: `Value.hasShape_of_toArray?`,
`Value.toArray?_of_hasShape`, `NDArray.rows_leaves`, `Value.toArray?_exact`.
-/
set_option autoImplicit false

namespace StagedFlow

open NDArray

namespace Value

/-! ## Shapes of nests -/

/-- The shape of a rectangular nest of numbers: a number has no axes, an array has its own, and all
items of a list or a tuple have one shape. -/
inductive HasShape : Value → List Nat → Prop
  | scalar (s : Scalar) : HasShape (.scalar s) []
  | array (a : NDArray) : HasShape (.array a) a.shape
  | empty {v : Value} (hv : v = .list [] ∨ v = .tuple []) : HasShape v [0]
  | sequence {v : Value} {items : List Value} {inner : List Nat}
    (hv : v = .list items ∨ v = .tuple items) (hne : items ≠ [])
    (h : ∀ item ∈ items, HasShape item inner) : HasShape v (items.length :: inner)

/-- A nest has no two shapes. -/
theorem HasShape.extents_eq {v : Value} {shape : List Nat} (h : v.HasShape shape) :
    v.extents = shape := by
  induction h with
  | scalar s => simp [extents]
  | array a => rw [extents]
  | empty hv =>
    rw [extents_items hv]
    rfl
  | @sequence v items inner hv hne _ ih =>
    obtain ⟨item, rest, rfl⟩ := List.exists_cons_of_ne_nil hne
    rw [extents_items hv, innerExtents, ih item (by simp)]

/-! ## Nests that make an array are rectangular -/

theorem hasShape_of_gathered {v : Value} {items : List Value} {inner : Option (List Nat)}
    {flat : List Scalar} (hv : v = list items ∨ v = tuple items)
    (hgathered : Gathered items Option.none inner flat)
    (hitems : ∀ item ∈ items, item.HasShape item.extents) : v.HasShape v.extents := by
  rw [extents_items hv]
  cases items with
  | nil => exact .empty hv
  | cons first rest =>
    rw [innerExtents]
    refine .sequence hv (by simp) fun item hitem => ?_
    have hsame := (hgathered.extents first (by simp)).symm.trans (hgathered.extents item hitem)
    rw [Option.some.inj hsame]
    exact hitems item hitem

mutual

theorem hasShape_of_toArray? (v : Value) {a : NDArray} (h : v.toArray? = .ok a) :
    v.HasShape v.extents := by
  cases v with
  | array b =>
    rw [extents]
    exact .array b
  | list items =>
    rw [toArray?] at h
    obtain ⟨⟨inner, flat⟩, hgather, -⟩ := Outcome.bind_eq_ok h
    exact hasShape_of_gathered (.inl rfl) (written_gather? items hgather)
      (hasShape_of_gather? items hgather)
  | tuple items =>
    rw [toArray?] at h
    obtain ⟨⟨inner, flat⟩, hgather, -⟩ := Outcome.bind_eq_ok h
    exact hasShape_of_gathered (.inr rfl) (written_gather? items hgather)
      (hasShape_of_gather? items hgather)
  | _ => simp [toArray?, Search.missing] at h
termination_by structural v

theorem hasShape_of_gather? (items : List Value) {inner inner' : Option (List Nat)}
    {flat : List Scalar} (h : gather? items inner = .ok (inner', flat)) :
    ∀ item ∈ items, item.HasShape item.extents := by
  cases items with
  | nil => exact fun item hitem => absurd hitem List.not_mem_nil
  | cons first rest =>
    obtain ⟨shape, part, flat', hrest, -, -, hfirst⟩ := gather?_cons h
    refine List.forall_mem_cons.mpr ⟨?_, hasShape_of_gather? rest hrest⟩
    rcases hfirst with ⟨s, rfl, -, -⟩ | ⟨a, ha, -, -⟩
    · simpa only [extents] using HasShape.scalar s
    · exact hasShape_of_toArray? first ha
termination_by structural items

end

/-! ## Rectangular nests make an array -/

theorem HasShape.length_leaves {v : Value} {shape : List Nat} (h : v.HasShape shape)
    (hform : v.Formed) : v.leaves.length = shapeSize shape := by
  induction h with
  | scalar s =>
    rw [leaves]
    rfl
  | array a =>
    cases hform with
    | array ha => rw [leaves, NDArray.length_scalars, ha]
  | empty hv =>
    rw [leaves_items hv]
    rfl
  | @sequence v items inner hv hne _ ih =>
    rw [leaves_items hv, shapeSize_cons]
    exact length_leavesIn fun item hitem => ih item hitem (formed_items hv hform item hitem)

/-- An item of a nest, as the numbers of the nest are gathered: a number, or an array of the shape
that the items have. -/
def Fits (inner : List Nat) (item : Value) : Prop :=
  (∃ s, item = scalar s ∧ inner = []) ∨
    ∃ a, item.toArray? = .ok a ∧ a.shape = inner ∧ a.WellFormed

/-- An item without numbers whose places cannot be counted. -/
structure Stuck (inner : List Nat) (item : Value) : Prop where
  crash : item.toArray? = .error (.crash .overflow)
  empty : shapeSize inner = 0
  uncounted : shapeFits inner = false

theorem gather?_cons_nest {v : Value} (hv : ∀ s, v ≠ scalar s) (rest : List Value)
    (start : Option (List Nat)) :
    gather? (v :: rest) start = v.toArray? >>= fun sub =>
      if start.getD sub.shape = sub.shape then
        gather? rest (some sub.shape) >>= fun r => .ok (r.1, sub.scalars ++ r.2)
      else .missing := by
  rw [gather?]
  · rfl
  · exact hv

theorem ne_scalar_of_toArray? {v : Value} (h : v.toArray? ≠ .missing) (s : Scalar) :
    v ≠ scalar s := by
  rintro rfl
  exact h (by simp [toArray?])

section Gathering

variable {inner : List Nat} {item : Value} {rest items : List Value} {start : Option (List Nat)}

theorem gather?_cons_of_fits {last : Option (List Nat)} {flat : List Scalar}
    (hitem : item.Fits inner) (hstart : start.getD inner = inner)
    (hrest : gather? rest (some inner) = .ok (last, flat)) :
    ∃ part, gather? (item :: rest) start = .ok (last, part ++ flat) ∧
      part.length = shapeSize inner := by
  rcases hitem with ⟨s, rfl, rfl⟩ | ⟨a, ha, rfl, hform⟩
  · refine ⟨[s], ?_, rfl⟩
    rw [gather?, if_pos hstart, hrest]
    rfl
  · refine ⟨a.scalars, ?_, by rw [NDArray.length_scalars, hform]⟩
    rw [gather?_cons_nest (ne_scalar_of_toArray? (by simp [ha, Search.missing])), ha]
    show (if start.getD a.shape = a.shape then _ else _) = _
    rw [if_pos hstart, hrest]
    rfl

theorem gather?_of_fits (h : ∀ item ∈ items, item.Fits inner) (start : Option (List Nat))
    (hstart : start.getD inner = inner) :
    ∃ flat, gather? items start = .ok (if items.isEmpty then start else some inner, flat) ∧
      flat.length = items.length * shapeSize inner := by
  induction items generalizing start with
  | nil => exact ⟨[], by rw [gather?]; rfl, by simp⟩
  | cons item rest ih =>
    obtain ⟨flat, hrest, hlength⟩ := ih (fun w hw => h w (by simp [hw])) (some inner) rfl
    rw [ite_self] at hrest
    obtain ⟨part, hgather, hpart⟩ := gather?_cons_of_fits (h item (by simp)) hstart hrest
    refine ⟨part ++ flat, hgather, ?_⟩
    rw [List.length_append, hpart, hlength, List.length_cons, Nat.succ_mul, Nat.add_comm]

theorem gather?_cons_of_crash (hitem : item.Fits inner) (hstart : start.getD inner = inner)
    (hrest : gather? rest (some inner) = .error (.crash .overflow)) :
    gather? (item :: rest) start = .error (.crash .overflow) := by
  rcases hitem with ⟨s, rfl, rfl⟩ | ⟨a, ha, rfl, -⟩
  · rw [gather?, if_pos hstart, hrest]
    rfl
  · rw [gather?_cons_nest (ne_scalar_of_toArray? (by simp [ha, Search.missing])), ha]
    show (if start.getD a.shape = a.shape then _ else _) = _
    rw [if_pos hstart, hrest]
    rfl

/-- Items are gathered up to the first that is stuck. -/
theorem gather?_of_stuck (h : ∀ item ∈ items, item.Fits inner ∨ item.Stuck inner)
    (hstuck : ∃ item ∈ items, ¬ item.Fits inner) (start : Option (List Nat))
    (hstart : start.getD inner = inner) :
    gather? items start = .error (.crash .overflow) := by
  induction items generalizing start with
  | nil =>
    obtain ⟨item, hitem, -⟩ := hstuck
    cases hitem
  | cons first rest ih =>
    by_cases hfirst : first.Fits inner
    · have hlater : ∃ item ∈ rest, ¬ item.Fits inner := by
        obtain ⟨item, hitem, hnot⟩ := hstuck
        refine ⟨item, (List.mem_cons.mp hitem).resolve_left ?_, hnot⟩
        rintro rfl
        exact hnot hfirst
      exact gather?_cons_of_crash hfirst hstart
        (ih (fun w hw => h w (by simp [hw])) hlater (some inner) rfl)
    · have hcrash := (h first (by simp)).resolve_left hfirst
      rw [gather?_cons_nest (ne_scalar_of_toArray? (by simp [hcrash.crash, Search.missing])),
        hcrash.crash]
      rfl

end Gathering

/-- A rectangular nest is an item that fits, unless it is stuck. -/
theorem fits_or_stuck {v : Value} {shape : List Nat} (h : v.HasShape shape) (hform : v.Formed) :
    v.Fits shape ∨ v.Stuck shape := by
  induction h with
  | scalar s => exact .inl (.inl ⟨s, rfl, rfl⟩)
  | array a =>
    cases hform with
    | array ha => exact .inl (.inr ⟨a, by rw [toArray?], rfl, ha⟩)
  | empty hv =>
    refine .inl (.inr ⟨⟨[0], .floats []⟩, ?_, rfl, rfl⟩)
    rw [toArray?_sequence hv, gather?]
    rfl
  | @sequence v items inner hv hne _ ih =>
    have hitems : ∀ item ∈ items, item.Fits inner ∨ item.Stuck inner :=
      fun item hitem => ih item hitem (formed_items hv hform item hitem)
    by_cases hall : ∀ item ∈ items, item.Fits inner
    · obtain ⟨flat, hgather, hlength⟩ := gather?_of_fits hall Option.none rfl
      have hsize : shapeSize (items.length :: inner) = flat.length := by
        rw [shapeSize_cons, hlength]
      have harray : v.toArray? = .ofOutcome (NDArray.ofScalars (items.length :: inner) flat) := by
        rw [toArray?_sequence hv, hgather, List.isEmpty_eq_false_iff.mpr hne]
        rfl
      rw [ofScalars_eq hsize] at harray
      split at harray
      · exact .inl (.inr ⟨_, harray, rfl, inherits_toArray? hform harray⟩)
      · next hnone =>
        rw [not_or, not_not, Bool.not_eq_true] at hnone
        refine .inr ⟨harray, ?_, hnone.2⟩
        rw [hsize, hnone.1]
        rfl
    · -- an item that does not fit is stuck, and stops the whole nest
      have hstuck : ∃ item ∈ items, ¬ item.Fits inner := by simpa using hall
      obtain ⟨item, hitem, hnot⟩ := hstuck
      have hcrash := (hitems item hitem).resolve_left hnot
      refine .inr ⟨?_, ?_, ?_⟩
      · rw [toArray?_sequence hv, gather?_of_stuck hitems ⟨item, hitem, hnot⟩ Option.none rfl]
        rfl
      · rw [shapeSize_cons, hcrash.empty, Nat.mul_zero]
      · by_contra hfits
        rw [Bool.not_eq_false] at hfits
        have hinner := shapeFits_of_cons (List.length_pos_of_mem hitem) hfits
        rw [hcrash.uncounted] at hinner
        cases hinner

/-! ## Nests that make no array -/

/-- Somewhere in a nest there is a list or a tuple without numbers whose places cannot be
counted. -/
inductive Overlong : Value → Prop
  | here {v : Value} {items : List Value} {shape : List Nat}
    (hv : v = .list items ∨ v = .tuple items) (hshape : v.HasShape shape) (hempty : v.leaves = [])
    (huncounted : shapeFits shape = false) : Overlong v
  | inside {v : Value} {items : List Value} {item : Value}
    (hv : v = .list items ∨ v = .tuple items) (hmem : item ∈ items) (h : Overlong item) : Overlong v

/-- Numbers that were gathered make an array, unless there are none of them. -/
theorem overlong_of_gathered {v : Value} {items : List Value} {inner : Option (List Nat)}
    {flat : List Scalar} {e : Halt Unit} (hv : v = list items ∨ v = tuple items)
    (hform : v.Formed) (hgather : gather? items Option.none = .ok (inner, flat))
    (h : Search.ofOutcome (NDArray.ofScalars (items.length :: inner.getD []) flat) = .error e) :
    e = .crash .overflow ∧ v.Overlong := by
  have hgathered := written_gather? items hgather
  have hshape := hasShape_of_gathered hv hgathered (hasShape_of_gather? items hgather)
  have hlength : flat.length = v.leaves.length := by
    rw [leaves_items hv, hgathered.stored.length_eq]
  have hsize : shapeSize v.extents = flat.length := by
    rw [hlength, hshape.length_leaves hform]
  rw [hgathered.inner_eq hgather, ← extents_items hv, ofScalars_eq hsize] at h
  split at h
  · cases h
  · next hnone =>
    rw [not_or, not_not, Bool.not_eq_true] at hnone
    rw [hnone.1] at hlength
    cases h
    exact ⟨rfl, .here hv hshape (List.length_eq_zero_iff.mp hlength.symm) hnone.2⟩

mutual

theorem toArray?_eq_error (v : Value) (hform : v.Formed) {e : Halt Unit}
    (h : v.toArray? = .error e) : e = .error () ∨ e = .crash .overflow ∧ v.Overlong := by
  cases v with
  | array b => simp [toArray?] at h
  | list items =>
    rw [toArray?_sequence (.inl rfl)] at h
    rcases hgather : gather? items Option.none with e' | ⟨inner, flat⟩
    · rw [hgather] at h
      cases h
      have hitems := gather?_eq_error items (formed_items (.inl rfl) hform) hgather
      exact hitems.imp_right fun ⟨he, item, hmem, hlong⟩ => ⟨he, .inside (.inl rfl) hmem hlong⟩
    · rw [hgather] at h
      exact .inr (overlong_of_gathered (.inl rfl) hform hgather h)
  | tuple items =>
    rw [toArray?_sequence (.inr rfl)] at h
    rcases hgather : gather? items Option.none with e' | ⟨inner, flat⟩
    · rw [hgather] at h
      cases h
      have hitems := gather?_eq_error items (formed_items (.inr rfl) hform) hgather
      exact hitems.imp_right fun ⟨he, item, hmem, hlong⟩ => ⟨he, .inside (.inr rfl) hmem hlong⟩
    · rw [hgather] at h
      exact .inr (overlong_of_gathered (.inr rfl) hform hgather h)
  | _ =>
    simp only [toArray?, Search.missing, Except.error.injEq] at h
    exact .inl h.symm
termination_by structural v

theorem gather?_eq_error (items : List Value) (hform : ∀ item ∈ items, item.Formed)
    {start : Option (List Nat)} {e : Halt Unit} (h : gather? items start = .error e) :
    e = .error () ∨ e = .crash .overflow ∧ ∃ item ∈ items, item.Overlong := by
  cases items with
  | nil => simp [gather?] at h
  | cons first rest =>
    have hlater : ∀ {start e}, gather? rest start = .error e →
        e = .error () ∨ e = .crash .overflow ∧ ∃ item ∈ first :: rest, item.Overlong := by
      intro start e hrest
      have hitems := gather?_eq_error rest (fun w hw => hform w (by simp [hw])) hrest
      exact hitems.imp_right fun ⟨he, item, hmem, hlong⟩ => ⟨he, item, by simp [hmem], hlong⟩
    by_cases hfirst : ∃ s, first = scalar s
    · obtain ⟨s, rfl⟩ := hfirst
      rw [gather?] at h
      split at h
      · rcases hrest : gather? rest (some []) with e' | ⟨inner, flat⟩
        · rw [hrest] at h
          cases h
          exact hlater hrest
        · rw [hrest] at h
          cases h
      · cases h
        exact .inl rfl
    · rw [gather?_cons_nest (not_exists.mp hfirst)] at h
      rcases harray : first.toArray? with e' | a
      · rw [harray] at h
        cases h
        have hitem := toArray?_eq_error first (hform first (by simp)) harray
        exact hitem.imp_right fun ⟨he, hlong⟩ => ⟨he, first, by simp, hlong⟩
      · rw [harray] at h
        change (if start.getD a.shape = a.shape then _ else _) = _ at h
        split at h
        · rcases hrest : gather? rest (some a.shape) with e' | ⟨inner, flat⟩
          · rw [hrest] at h
            cases h
            exact hlater hrest
          · rw [hrest] at h
            cases h
        · cases h
          exact .inl rfl
termination_by structural items

end

/-! ## Rows -/

end Value

namespace NDArray

variable {a : NDArray} {n : Nat} {inner : List Nat}

/-- What stands at a position of the leading axis: a nest of the inner shape with the numbers from
that position on. -/
theorem index_leaves (ha : a.WellFormed) (hshape : a.shape = n :: inner) {i : Int64} {k : Nat}
    (hk : position? i n = some k) {v : Value} (h : a.index i = .ok v) :
    v.HasShape inner ∧
      v.leaves = (a.scalars.drop (k * shapeSize inner)).take (shapeSize inner) := by
  have hlt : k < n := position?_lt hk
  have hsize : a.size = n * shapeSize inner := by rw [ha, hshape, shapeSize_cons]
  unfold index at h
  rw [hshape] at h
  simp only [hk] at h
  split at h
  · cases h
  cases inner with
  | nil =>
    have hlength : k < a.scalars.length := by
      rw [length_scalars, hsize, shapeSize, List.foldr_nil, Nat.mul_one]
      exact hlt
    simp only [List.isEmpty_nil, if_true, flat, List.getElem?_eq_getElem hlength] at h
    cases h
    refine ⟨.scalar _, ?_⟩
    rw [Value.leaves, shapeSize, List.foldr_nil, Nat.mul_one, List.drop_eq_getElem_cons hlength]
    rfl
  | cons m inner =>
    have hroom : k * shapeSize (m :: inner) + shapeSize (m :: inner) ≤ a.size := by
      rw [← Nat.succ_mul, hsize]
      exact Nat.mul_le_mul_right _ hlt
    obtain ⟨cells, hslice, -, hscalars⟩ := Cells.slice_spec hroom
    simp only [List.isEmpty_cons, Bool.false_eq_true, if_false, hslice] at h
    cases h
    refine ⟨.array _, ?_⟩
    rw [Value.leaves]
    exact hscalars

/-- Pieces of one length, one after the other. -/
theorem flatMap_pieces {α : Type} (xs : List α) (m n : Nat) :
    ((List.range n).flatMap fun k => (xs.drop (k * m)).take m) = xs.take (n * m) := by
  induction n with
  | zero => simp
  | succ n ih =>
    rw [List.range_succ, List.flatMap_append, ih, Nat.succ_mul, List.take_add]
    simp

/-- The rows of an array are nests of one shape, and together have the numbers of the array. -/
theorem rows_leaves (ha : a.WellFormed) (hshape : a.shape = n :: inner)
    (hroom : n ≤ Value.maxCollected) :
    ∃ items, a.rows = .ok items ∧ items.length = n ∧
      (∀ item ∈ items, item.HasShape inner ∧ item.Formed) ∧
      Value.leavesIn items = a.scalars := by
  have hlength : a.length = n := by simp [length, hshape]
  have hn : n < 0x8000000000000000 := Nat.lt_of_le_of_lt hroom (by decide)
  obtain ⟨items, hrows, hcount, hat⟩ := rows_spec ha (by simp [hshape]) (hlength ▸ hroom)
  rw [hlength] at hcount
  have hrow : ∀ (k : Nat) (item : Value), items[k]? = some item → item.HasShape inner ∧
      item.leaves = (a.scalars.drop (k * shapeSize inner)).take (shapeSize inner) := by
    intro k item hitem
    have hlt : k < n := hcount ▸ (List.getElem?_eq_some_iff.mp hitem).1
    exact index_leaves ha hshape (position?_ofNat hlt hn) (hat k item hitem)
  refine ⟨items, hrows, hcount, fun item hitem => ?_, ?_⟩
  · obtain ⟨k, hk⟩ := List.mem_iff_getElem?.mp hitem
    exact ⟨(hrow k item hk).1, makes_rows ha items hrows item hitem⟩
  · have hpieces : items.map Value.leaves = (List.range n).map fun k =>
        (a.scalars.drop (k * shapeSize inner)).take (shapeSize inner) := by
      refine List.ext_getElem (by simp [hcount]) fun k hk _ => ?_
      rw [List.length_map] at hk
      rw [List.getElem_map, List.getElem_map, List.getElem_range]
      exact (hrow k _ (List.getElem?_eq_getElem hk)).2
    have hsize : a.scalars.length = n * shapeSize inner := by
      rw [length_scalars, ha, hshape, shapeSize_cons]
    rw [Value.leavesIn_eq, List.flatMap_def, hpieces, ← List.flatMap_def, flatMap_pieces, ← hsize,
      List.take_length]

end NDArray

namespace Value

/-! ## Nests and arrays -/

section Sequence

variable {v : Value} {items : List Value}

/-- A rectangular list or tuple makes an array, unless it has no numbers and its places cannot be
counted. -/
theorem toArray?_of_hasShape (hv : v = list items ∨ v = tuple items) (hform : v.Formed)
    {shape : List Nat} (h : v.HasShape shape) :
    v.toArray? = if v.leaves ≠ [] ∨ shapeFits shape = true then
      .ok ⟨shape, Cells.ofScalars (widestElem v.leaves) v.leaves⟩
    else .error (.crash .overflow) := by
  have hlength := h.length_leaves hform
  rcases fits_or_stuck h hform with (⟨s, rfl, -⟩ | ⟨a, ha, -, -⟩) | hstuck
  · rcases hv with hv | hv
    · cases hv
    · cases hv
  · obtain ⟨-, hcounted, rfl⟩ := toArray?_items hv ha
    rw [← extents_items hv, ← leaves_items hv, h.extents_eq] at ha hcounted
    rw [ha, if_pos hcounted]
  · rw [hstuck.empty, List.length_eq_zero_iff] at hlength
    rw [hstuck.crash, if_neg]
    simp [hlength, hstuck.uncounted]

/-- The array that a list or a tuple makes. -/
theorem elements_of_toArray? (hv : v = list items ∨ v = tuple items) {a : NDArray}
    (h : v.toArray? = .ok a) :
    v.HasShape a.shape ∧ a.elem = widestElem v.leaves ∧
      a.scalars = v.leaves.map (Scalar.widened (widestElem v.leaves)) := by
  have hshape := hasShape_of_toArray? v h
  obtain ⟨-, -, rfl⟩ := toArray?_items hv h
  rw [extents_items hv] at hshape
  rw [leaves_items hv]
  exact ⟨hshape, Cells.elem_ofScalars .., Cells.scalars_ofScalars (ElemType.holds_widestElem _)⟩

theorem toArray?_of_irregular (hform : v.Formed) (h : ∀ shape, ¬ v.HasShape shape) :
    v.toArray? = .missing ∨ v.toArray? = .error (.crash .overflow) ∧ v.Overlong := by
  rcases harray : v.toArray? with e | a
  · rcases toArray?_eq_error v hform harray with rfl | ⟨rfl, hlong⟩
    · exact .inl rfl
    · exact .inr ⟨rfl, hlong⟩
  · exact absurd (hasShape_of_toArray? v harray) (h v.extents)

end Sequence

/-- The rows of an array make the array. -/
theorem toArray?_rows {a : NDArray} (ha : a.WellFormed) (haxes : a.shape ≠ []) (hpos : 0 < a.size)
    (hroom : a.length ≤ maxCollected) :
    ∃ rows, a.rows = .ok rows ∧ (list rows).toArray? = .ok a := by
  obtain ⟨n, inner, hshape⟩ := List.exists_cons_of_ne_nil haxes
  have hlength : a.length = n := by simp [NDArray.length, hshape]
  obtain ⟨rows, hrows, hcount, hitems, hleaves⟩ := rows_leaves ha hshape (hlength ▸ hroom)
  have hne : rows ≠ [] := by
    rintro rfl
    rw [ha, hshape, ← hcount] at hpos
    simp [shapeSize] at hpos
  have hnest : (list rows).HasShape a.shape := by
    rw [hshape, ← hcount]
    exact .sequence (.inl rfl) hne fun item hitem => (hitems item hitem).1
  have hform : (list rows).Formed := .list fun item hitem => (hitems item hitem).2
  have hscalars : a.scalars ≠ [] := List.ne_nil_of_length_pos (by rwa [NDArray.length_scalars])
  have hall : (list rows).leaves = a.scalars := by rw [leaves, hleaves]
  refine ⟨rows, hrows, ?_⟩
  rw [toArray?_of_hasShape (.inl rfl) hform hnest, hall, if_pos (.inl hscalars),
    widestElem_eq hscalars a.elem_scalars]
  exact congrArg (fun cells => Except.ok (NDArray.mk a.shape cells)) a.cells.ofScalars_scalars

/-- A list or a tuple makes an array exactly if it is a rectangular nest of numbers and arrays and
its places can be counted in a machine word, for which one number is enough. The array has the shape
of the nest, and its elements are the numbers as they are written, in the widest element type among
them. A rectangular nest whose places cannot be counted crashes, and another nest makes no array, or
crashes on one such nest in it. The rows of an array that has elements make the array itself, if
they can be listed. -/
theorem toArray?_exact :
    (∀ (v : Value) (items : List Value), v = list items ∨ v = tuple items → v.Formed →
      (∀ shape, v.HasShape shape → v.toArray? =
        if v.leaves ≠ [] ∨ shapeFits shape = true then
          .ok ⟨shape, Cells.ofScalars (widestElem v.leaves) v.leaves⟩
        else .error (.crash .overflow)) ∧
      ((∀ shape, ¬ v.HasShape shape) →
        v.toArray? = .missing ∨ v.toArray? = .error (.crash .overflow) ∧ v.Overlong) ∧
      ∀ a, v.toArray? = .ok a → v.HasShape a.shape ∧ a.elem = widestElem v.leaves ∧
        a.scalars = v.leaves.map (Scalar.widened (widestElem v.leaves))) ∧
    ∀ a : NDArray, a.WellFormed → a.shape ≠ [] → 0 < a.size → a.length < 0x8000000000000000 →
      (a.length ≤ maxCollected → ∃ rows, a.rows = .ok rows ∧ (list rows).toArray? = .ok a) ∧
      (maxCollected < a.length → a.rows = .crash .capacity) := by
  refine ⟨fun v items hv hform => ⟨fun shape => toArray?_of_hasShape hv hform,
    toArray?_of_irregular hform, fun a => elements_of_toArray? hv⟩, ?_⟩
  intro a ha haxes hpos hn
  refine ⟨toArray?_rows ha haxes hpos, fun hlong => if_pos ?_⟩
  rwa [NDArray.rowCount_of_lt hn]

/-- A tuple of a list and an array, and a matrix and its rows. -/
theorem toArray?_exact_pairs :
    (tuple pairItems).Formed ∧
      (tuple pairItems).toArray? = .ok ⟨[2, 2], .ints [1, 2, 3, 4]⟩ ∧
      NDArray.WellFormed ⟨[2, 1], .bools [true, false]⟩ ∧
      ∃ rows, NDArray.rows ⟨[2, 1], .bools [true, false]⟩ = .ok rows ∧
        (list rows).toArray? = .ok ⟨[2, 1], .bools [true, false]⟩ := by
  have hshape : (tuple pairItems).HasShape [2, 2] := by
    refine .sequence (.inr rfl) (by simp [pairItems]) fun item hitem => ?_
    rcases List.mem_pair.mp hitem with rfl | rfl
    · refine .sequence (.inl rfl) (by simp) fun number hnumber => ?_
      rcases List.mem_pair.mp hnumber with rfl | rfl
      · exact .scalar _
      · exact .scalar _
    · exact .array _
  exact ⟨formed_pairItems,
    (toArray?_exact.1 _ pairItems (.inr rfl) formed_pairItems).1 [2, 2] hshape, rfl,
    (toArray?_exact.2 ⟨[2, 1], .bools [true, false]⟩ rfl (by decide) (by decide) (by decide)).1
      (by decide)⟩

/-- A list of two arrays without elements that are too long together: it is a rectangular nest, and
no array can be made of it. -/
theorem overlong_pair_crashes :
    ∃ row : NDArray, row.WellFormed ∧ (list [array row, array row]).HasShape (2 :: row.shape) ∧
      (list [array row, array row]).toArray? = .error (.crash .overflow) := by
  refine ⟨⟨[0x8000000000000000, 0], .floats []⟩, rfl, ?_, rfl⟩
  refine .sequence (.inl rfl) (by simp) fun item hitem => ?_
  rcases List.mem_pair.mp hitem with rfl | rfl
  · exact .array _
  · exact .array _

end Value

end StagedFlow
