import StagedFlow.Proofs.Formed
import StagedFlow.Proofs.LoopSources

/-!
Loops over lists and tuples that make up an array. The graph iterates the array and not the items:
the element at an index is the item at that position in array form, with its numbers in the widest
element type of the whole sequence. It is the item itself where the item is a number of that type or
an array of that type with axes, and nowhere else. Main definitions: `Value.leaves`,
`Value.extents`, `Value.entry`. Main results: `Value.written_toArray?`, `Value.index_gathered`,
`Value.entry_eq_self_iff`, `Value.uniform_elements`.
-/
set_option autoImplicit false

namespace StagedFlow

open Tracer

/-! ## Wider element types -/

namespace ElemType

theorem widest_self (e : ElemType) : e.widest e = e := by
  cases e <;> rfl

theorem bool_widest (e : ElemType) : bool.widest e = e := by
  cases e <;> rfl

theorem widest_assoc (a b c : ElemType) : (a.widest b).widest c = a.widest (b.widest c) := by
  cases a <;> cases b <;> cases c <;> rfl

end ElemType

namespace Scalar

/-- A scalar as one of another element type. -/
def widened (e : ElemType) (s : Scalar) : Scalar :=
  match e with
  | .bool => .bool (s.toBool?.getD false)
  | .int => .int (s.toInt?.getD 0)
  | .float => .float s.toFloat

theorem elem_widened (e : ElemType) (s : Scalar) : (s.widened e).elem = e := by
  cases e <;> rfl

theorem widened_elem (s : Scalar) : s.widened s.elem = s := by
  cases s <;> rfl

theorem widened_eq_self_iff {e : ElemType} {s : Scalar} : s.widened e = s ↔ s.elem = e := by
  constructor
  · intro h
    rw [← h, elem_widened]
  · rintro rfl
    exact s.widened_elem

/-- Widening in two steps is widening in one. -/
theorem widened_widened {e e' : ElemType} {s : Scalar} (hs : e'.widest s.elem = e')
    (he : e.widest e' = e) : (s.widened e').widened e = s.widened e := by
  cases s <;> cases e' <;> cases e <;>
    first | rfl | simp [elem, ElemType.widest] at hs he

end Scalar

/-- No scalar in the list is wider than the element type. -/
def ElemType.Holds (e : ElemType) (scalars : List Scalar) : Prop :=
  ∀ s ∈ scalars, e.widest s.elem = e

namespace NDArray

/-- The widest element type among scalars and a given one. -/
def widestFrom (e : ElemType) (scalars : List Scalar) : ElemType :=
  scalars.foldl (fun elem s => elem.widest s.elem) e

theorem widestFrom_eq (e : ElemType) (scalars : List Scalar) :
    widestFrom e scalars = e.widest (widestFrom .bool scalars) := by
  induction scalars generalizing e with
  | nil => cases e <;> rfl
  | cons s scalars ih =>
    show widestFrom (e.widest s.elem) scalars =
      e.widest (widestFrom (ElemType.bool.widest s.elem) scalars)
    rw [ih, ElemType.bool_widest, ih s.elem, ElemType.widest_assoc]

theorem widestFrom_cons (s : Scalar) (scalars : List Scalar) :
    widestFrom .bool (s :: scalars) = s.elem.widest (widestFrom .bool scalars) := by
  rw [← widestFrom_eq]
  exact congrArg (widestFrom · scalars) (ElemType.bool_widest s.elem)

theorem widestFrom_append (xs ys : List Scalar) :
    widestFrom .bool (xs ++ ys) = (widestFrom .bool xs).widest (widestFrom .bool ys) := by
  rw [← widestFrom_eq]
  exact List.foldl_append

theorem widestElem_of_ne_nil {scalars : List Scalar} (h : scalars ≠ []) :
    widestElem scalars = widestFrom .bool scalars := by
  cases scalars with
  | nil => exact absurd rfl h
  | cons s scalars => rfl

end NDArray

open NDArray

theorem ElemType.holds_iff {e : ElemType} {scalars : List Scalar} :
    e.Holds scalars ↔ e.widest (widestFrom .bool scalars) = e := by
  have hjoin : ∀ a b : ElemType, e.widest (a.widest b) = e ↔ e.widest a = e ∧ e.widest b = e := by
    intro a b
    cases e <;> cases a <;> cases b <;> decide
  induction scalars with
  | nil => cases e <;> simp [Holds, widestFrom, widest]
  | cons s scalars ih =>
    rw [widestFrom_cons, hjoin]
    exact List.forall_mem_cons.trans (and_congr_right fun _ => ih)

theorem ElemType.holds_widestElem (scalars : List Scalar) :
    (widestElem scalars).Holds scalars := by
  cases scalars with
  | nil => exact fun s hs => by cases hs
  | cons s scalars => rw [holds_iff, widestElem_of_ne_nil (by simp), widest_self]

namespace Cells

/-- Elements of one type are known by their scalars. -/
theorem eq_of_scalars {c d : Cells} (helem : c.elem = d.elem) (h : c.scalars = d.scalars) :
    c = d := by
  cases c <;> cases d <;> simp_all [elem, scalars, List.map_inj_right]

theorem slice_spec {c : Cells} {offset count : Nat} (h : offset + count ≤ c.size) :
    ∃ d, c.slice offset count = .ok d ∧ d.elem = c.elem ∧
      d.scalars = (c.scalars.drop offset).take count := by
  unfold slice
  rw [if_pos h]
  cases c <;> exact ⟨_, rfl, rfl, by simp [scalars, List.map_take, List.map_drop]⟩

variable {e : ElemType} {scalars : List Scalar}

theorem scalars_ofScalars (h : e.Holds scalars) :
    (ofScalars e scalars).scalars = scalars.map (Scalar.widened e) := by
  induction scalars with
  | nil => cases e <;> rfl
  | cons s scalars ih =>
    have hs := h s (by simp)
    have hrest := ih fun s' hs' => h s' (by simp [hs'])
    cases e <;> cases s <;> first | exact congrArg (_ :: ·) hrest | cases hs

/-- A piece of stored scalars stores that piece of the scalars. -/
theorem slice_ofScalars {offset count : Nat} (h : e.Holds scalars)
    (hroom : offset + count ≤ scalars.length) :
    (ofScalars e scalars).slice offset count =
      .ok (ofScalars e ((scalars.drop offset).take count)) := by
  have hsize : offset + count ≤ (ofScalars e scalars).size := by
    rw [← length_scalars, scalars_ofScalars h, List.length_map]
    exact hroom
  have hpiece : e.Holds ((scalars.drop offset).take count) :=
    fun s hs => h s (List.mem_of_mem_drop (List.mem_of_mem_take hs))
  obtain ⟨d, hslice, helem, hscalars⟩ := slice_spec hsize
  rw [hslice]
  refine congrArg _ (eq_of_scalars ?_ ?_)
  · rw [helem, elem_ofScalars, elem_ofScalars]
  · rw [hscalars, scalars_ofScalars h, scalars_ofScalars hpiece, List.map_take, List.map_drop]

theorem ofScalars_scalars (c : Cells) : ofScalars c.elem c.scalars = c := by
  have hholds : c.elem.Holds c.scalars := by
    intro s hs
    rw [c.elem_scalars s hs, ElemType.widest_self]
  refine eq_of_scalars (elem_ofScalars ..) ?_
  rw [scalars_ofScalars hholds]
  refine (List.map_congr_left fun s hs => ?_).trans (List.map_id _)
  rw [← c.elem_scalars s hs]
  exact s.widened_elem

/-- No scalar is lost where scalars are stored in the widest element type among them. -/
theorem size_ofScalars_widestElem (scalars : List Scalar) :
    (ofScalars (widestElem scalars) scalars).size = scalars.length := by
  rw [← length_scalars, scalars_ofScalars (ElemType.holds_widestElem scalars), List.length_map]

end Cells

/-- Scalars that fill a shape make an array, unless there are none of them and the number of places
cannot be computed. -/
theorem NDArray.ofScalars_eq {shape : List Nat} {scalars : List Scalar}
    (h : shapeSize shape = scalars.length) :
    ofScalars shape scalars = if scalars ≠ [] ∨ shapeFits shape = true then
      .ok ⟨shape, Cells.ofScalars (widestElem scalars) scalars⟩ else .crash .overflow := by
  unfold ofScalars make
  rw [Cells.size_ofScalars_widestElem]
  by_cases hempty : scalars = []
  · by_cases hfits : shapeFits shape = true
    · simp [h, hempty, hfits]
    · simp [h, hempty, hfits]
  · simp [h, hempty]

theorem NDArray.fits_of_ofScalars {shape : List Nat} {scalars : List Scalar} {a : NDArray}
    (h : ofScalars shape scalars = .ok a) : scalars ≠ [] ∨ shapeFits shape = true := by
  have hsize : shapeSize shape = scalars.length := by
    rw [← Cells.size_ofScalars_widestElem scalars]
    obtain ⟨rfl, hform⟩ := make_eq_ok h
    exact hform.symm
  by_contra hnone
  rw [ofScalars_eq hsize, if_neg hnone] at h
  cases h

/-! ## Numbers stored in several steps -/

/-- The same numbers in element types that are wider, but not wider than the widest. -/
structure Promotes (numbers stored : List Scalar) : Prop where
  widest : widestFrom .bool stored = widestFrom .bool numbers
  widened : ∀ e : ElemType, e.Holds stored →
    stored.map (Scalar.widened e) = numbers.map (Scalar.widened e)

namespace Promotes

variable {xs ys zs ws : List Scalar}

theorem refl (xs : List Scalar) : Promotes xs xs :=
  ⟨rfl, fun _ _ => rfl⟩

theorem append (h : Promotes xs ys) (h' : Promotes zs ws) : Promotes (xs ++ zs) (ys ++ ws) where
  widest := by rw [widestFrom_append, widestFrom_append, h.widest, h'.widest]
  widened e he := by
    rw [List.map_append, List.map_append, h.widened e fun s hs => he s (List.mem_append_left ws hs),
      h'.widened e fun s hs => he s (List.mem_append_right ys hs)]

theorem length_eq (h : Promotes xs ys) : ys.length = xs.length := by
  have hfloat := h.widened .float fun _ _ => rfl
  simpa using congrArg List.length hfloat

/-- Scalars stored in their widest element type. -/
theorem ofScalars (xs : List Scalar) :
    Promotes xs (Cells.ofScalars (widestElem xs) xs).scalars := by
  have hholds := ElemType.holds_widestElem xs
  rw [Cells.scalars_ofScalars hholds]
  cases xs with
  | nil => exact refl []
  | cons x xs =>
    have helem : ∀ s ∈ (x :: xs).map (Scalar.widened (widestElem (x :: xs))),
        s.elem = widestElem (x :: xs) := by
      intro s hs
      obtain ⟨s, -, rfl⟩ := List.mem_map.mp hs
      exact s.elem_widened _
    constructor
    · rw [← widestElem_of_ne_nil (by simp), widestElem_eq (by simp) helem,
        widestElem_of_ne_nil (by simp)]
    · intro e he
      have hwider : e.widest (widestElem (x :: xs)) = e := by
        have hfirst := he _ List.mem_cons_self
        rwa [Scalar.elem_widened] at hfirst
      rw [List.map_map]
      exact List.map_congr_left fun s hs => Scalar.widened_widened (hholds s hs) hwider

/-- In the widest element type there is one form, however the numbers came there. -/
theorem ofScalars_eq (h : Promotes xs ys) :
    Cells.ofScalars (widestElem ys) ys = Cells.ofScalars (widestElem xs) xs := by
  have hwidest : widestElem ys = widestElem xs := by
    cases xs with
    | nil => rw [List.length_eq_zero_iff.mp h.length_eq]
    | cons x xs =>
      have hne : ys ≠ [] := List.ne_nil_of_length_eq_add_one h.length_eq
      rw [widestElem_of_ne_nil hne, widestElem_of_ne_nil (by simp), h.widest]
  have hholds := ElemType.holds_widestElem ys
  refine Cells.eq_of_scalars (by rw [Cells.elem_ofScalars, Cells.elem_ofScalars, hwidest]) ?_
  rw [Cells.scalars_ofScalars hholds, Cells.scalars_ofScalars (ElemType.holds_widestElem xs),
    h.widened _ hholds, hwidest]

end Promotes

/-! ## Arrays written as nests of lists and tuples -/

namespace Value

mutual

/-- The numbers in a nest of lists, tuples and arrays, in the order in which they are written. -/
def leaves : Value → List Scalar
  | scalar s => [s]
  | array a => a.scalars
  | list items => leavesIn items
  | tuple items => leavesIn items
  | _ => []

def leavesIn : List Value → List Scalar
  | [] => []
  | v :: rest => v.leaves ++ leavesIn rest

end

mutual

/-- The lengths of a nest, from the outermost list or tuple through the first items. -/
def extents : Value → List Nat
  | array a => a.shape
  | list items => items.length :: innerExtents items
  | tuple items => items.length :: innerExtents items
  | _ => []

def innerExtents : List Value → List Nat
  | [] => []
  | v :: _ => v.extents

end

/-- A value as the entry of an array with the given element type: a scalar if it has no axes, and an
array otherwise. -/
def entry (e : ElemType) (v : Value) : Value :=
  match v.extents, v.leaves with
  | [], [s] => scalar (s.widened e)
  | shape, numbers => array ⟨shape, Cells.ofScalars e numbers⟩

/-- The entries of arrays with the given element type. -/
def isEntry (e : ElemType) : Value → Bool
  | scalar s => s.elem = e
  | array a => a.elem = e && !a.isZeroDim
  | _ => false

theorem gather?_cons {v : Value} {rest : List Value} {inner inner' : Option (List Nat)}
    {flat : List Scalar} (h : gather? (v :: rest) inner = .ok (inner', flat)) :
    ∃ shape part flat', gather? rest (some shape) = .ok (inner', flat') ∧ flat = part ++ flat' ∧
      inner.getD shape = shape ∧
      ((∃ s, v = scalar s ∧ shape = [] ∧ part = [s]) ∨
        ∃ a, v.toArray? = .ok a ∧ shape = a.shape ∧ part = a.scalars) := by
  by_cases hv : ∃ s, v = scalar s
  · obtain ⟨s, rfl⟩ := hv
    rw [gather?] at h
    split at h
    · next hshape =>
      obtain ⟨⟨_, flat'⟩, hrest, h₁⟩ := Outcome.bind_eq_ok h
      cases h₁
      exact ⟨[], [s], flat', hrest, rfl, hshape, .inl ⟨s, rfl, rfl, rfl⟩⟩
    · cases h
  · rw [gather?] at h
    · obtain ⟨a, ha, h₁⟩ := Outcome.bind_eq_ok h
      split at h₁
      · next hshape =>
        obtain ⟨⟨_, flat'⟩, hrest, h₂⟩ := Outcome.bind_eq_ok h₁
        cases h₂
        exact ⟨a.shape, a.scalars, flat', hrest, rfl, hshape, .inr ⟨a, ha, rfl, rfl⟩⟩
      · cases h₁
    · exact not_exists.mp hv

/-- What the numbers gathered from items are: the items have one shape, which is that of the items
before if there are any, and as many numbers as the shape has room for. -/
structure Gathered (items : List Value) (inner inner' : Option (List Nat)) (flat : List Scalar) :
    Prop where
  kept : ∀ shape, inner = some shape → inner' = some shape
  extents : ∀ v ∈ items, inner' = some v.extents
  room : ∀ v ∈ items, v.Formed → v.leaves.length = shapeSize v.extents
  stored : Promotes (leavesIn items) flat

theorem Gathered.nil (inner : Option (List Nat)) : Gathered [] inner inner [] where
  kept _ h := h
  extents v hv := by cases hv
  room v hv := by cases hv
  stored := .refl []

theorem Gathered.cons {v : Value} {rest : List Value} {inner inner' : Option (List Nat)}
    {part flat : List Scalar} (hinner : inner.getD v.extents = v.extents)
    (hpart : Promotes v.leaves part) (hroom : v.Formed → part.length = shapeSize v.extents)
    (hrest : Gathered rest (some v.extents) inner' flat) :
    Gathered (v :: rest) inner inner' (part ++ flat) where
  kept shape hshape := by
    rw [hshape, Option.getD_some] at hinner
    exact hinner ▸ hrest.kept _ rfl
  extents w hw := by
    rcases List.mem_cons.mp hw with rfl | hw
    · exact hrest.kept _ rfl
    · exact hrest.extents w hw
  room w hw hform := by
    rcases List.mem_cons.mp hw with rfl | hw
    · rw [← hpart.length_eq, hroom hform]
    · exact hrest.room w hw hform
  stored := hpart.append hrest.stored

theorem Gathered.inner_eq {items : List Value} {inner : Option (List Nat)} {flat : List Scalar}
    (h : Gathered items Option.none inner flat)
    (hgather : gather? items Option.none = .ok (inner, flat)) :
    inner.getD [] = innerExtents items := by
  cases items with
  | nil =>
    rw [gather?] at hgather
    cases hgather
    rfl
  | cons v rest =>
    rw [h.extents v (by simp), innerExtents]
    rfl

/-- The array of the items of a list or a tuple. -/
theorem Gathered.array_eq {items : List Value} {inner : Option (List Nat)} {flat : List Scalar}
    {a : NDArray} (h : Gathered items Option.none inner flat)
    (hgather : gather? items Option.none = .ok (inner, flat))
    (harray : NDArray.ofScalars (items.length :: inner.getD []) flat = .ok a) :
    a = ⟨items.length :: innerExtents items,
      Cells.ofScalars (widestElem (leavesIn items)) (leavesIn items)⟩ := by
  rw [(NDArray.make_eq_ok harray).1, h.inner_eq hgather, h.stored.ofScalars_eq]

mutual

/-- The array that a nest writes has the lengths of the nest for its shape, and stores its
numbers. -/
theorem written_toArray? (v : Value) {a : NDArray} (h : v.toArray? = .ok a) :
    a.shape = v.extents ∧ Promotes v.leaves a.scalars := by
  cases v with
  | array b =>
    rw [toArray?] at h
    cases h
    rw [extents, leaves]
    exact ⟨rfl, .refl _⟩
  | list items =>
    rw [toArray?] at h
    obtain ⟨⟨inner, flat⟩, hgather, h₁⟩ := Outcome.bind_eq_ok h
    obtain rfl := (written_gather? items hgather).array_eq hgather (Search.ofOutcome_eq_ok h₁)
    rw [extents, leaves]
    exact ⟨rfl, .ofScalars _⟩
  | tuple items =>
    rw [toArray?] at h
    obtain ⟨⟨inner, flat⟩, hgather, h₁⟩ := Outcome.bind_eq_ok h
    obtain rfl := (written_gather? items hgather).array_eq hgather (Search.ofOutcome_eq_ok h₁)
    rw [extents, leaves]
    exact ⟨rfl, .ofScalars _⟩
  | _ => simp [toArray?, Search.missing] at h
termination_by structural v

theorem written_gather? (items : List Value) {inner inner' : Option (List Nat)}
    {flat : List Scalar} (h : gather? items inner = .ok (inner', flat)) :
    Gathered items inner inner' flat := by
  cases items with
  | nil =>
    rw [gather?] at h
    cases h
    exact .nil inner
  | cons v rest =>
    obtain ⟨shape, part, flat', hrest, rfl, hshape, ⟨s, rfl, rfl, rfl⟩ | ⟨a, ha, rfl, rfl⟩⟩ :=
      gather?_cons h
    · exact .cons hshape (.refl [s]) (fun _ => rfl) (written_gather? rest hrest)
    · obtain ⟨hextents, hstored⟩ := written_toArray? v ha
      rw [hextents] at hshape hrest
      refine .cons hshape hstored (fun hform => ?_) (written_gather? rest hrest)
      rw [NDArray.length_scalars, ← hextents]
      exact inherits_toArray? hform ha
termination_by structural items

end

/-! ## Rows -/

theorem leavesIn_eq (items : List Value) : leavesIn items = items.flatMap leaves := by
  induction items with
  | nil => rfl
  | cons v rest ih => rw [leavesIn, ih, List.flatMap_cons]

/-- In a row of pieces of one length, a piece stands at a multiple of that length. -/
theorem take_drop_flatMap {α β : Type} {f : α → List β} {n : Nat} {xs : List α}
    (h : ∀ x ∈ xs, (f x).length = n) {k : Nat} {x : α} (hk : xs[k]? = some x) :
    ((xs.flatMap f).drop (k * n)).take n = f x := by
  induction xs generalizing k with
  | nil => cases hk
  | cons y xs ih =>
    have hy : (f y).length = n := h y (by simp)
    rw [List.flatMap_cons]
    cases k with
    | zero =>
      obtain rfl : y = x := by simpa using hk
      rw [Nat.zero_mul, List.drop_zero, ← hy, List.take_left]
    | succ k =>
      have hoffset : (k + 1) * n = (f y).length + k * n := by rw [hy, Nat.succ_mul, Nat.add_comm]
      rw [hoffset, ← List.drop_drop, List.drop_left]
      exact ih (fun z hz => h z (by simp [hz])) (by simpa using hk)

theorem length_leavesIn {items : List Value} {n : Nat}
    (h : ∀ v ∈ items, v.leaves.length = n) : (leavesIn items).length = items.length * n := by
  induction items with
  | nil => simp [leavesIn]
  | cons v rest ih =>
    have hv := h v (by simp)
    have hrest := ih fun w hw => h w (by simp [hw])
    rw [leavesIn, List.length_append, hv, hrest, List.length_cons, Nat.succ_mul, Nat.add_comm]

theorem entry_of_axes {v : Value} (e : ElemType) (h : v.extents ≠ []) :
    v.entry e = array ⟨v.extents, Cells.ofScalars e v.leaves⟩ := by
  unfold entry
  split
  · next hextents _ => exact absurd hextents h
  · rfl

theorem entry_of_number {v : Value} (e : ElemType) {s : Scalar} (h : v.extents = [])
    (hs : v.leaves = [s]) : v.entry e = scalar (s.widened e) := by
  unfold entry
  rw [h, hs]

/-- The row of a gathered array at a position is the item at that position, as an entry. -/
theorem index_gathered {items : List Value} {inner : Option (List Nat)} {flat : List Scalar}
    (h : Gathered items Option.none inner flat) (hform : ∀ v ∈ items, v.Formed)
    (hn : items.length < 0x8000000000000000) {k : Nat} {item : Value}
    (hk : items[k]? = some item) :
    NDArray.index ⟨items.length :: innerExtents items,
        Cells.ofScalars (widestElem (leavesIn items)) (leavesIn items)⟩ (Int64.ofNat k) =
      .ok (item.entry (widestElem (leavesIn items))) := by
  have hmem : item ∈ items := List.mem_of_getElem? hk
  have hlt : k < items.length := (List.getElem?_eq_some_iff.mp hk).1
  have hextents : ∀ v ∈ items, v.extents = item.extents := by
    intro v hv
    have hsame := (h.extents v hv).symm.trans (h.extents item hmem)
    exact Option.some.inj hsame
  have hinner : innerExtents items = item.extents := by
    obtain ⟨v, rest, rfl⟩ := List.exists_cons_of_ne_nil (List.ne_nil_of_mem hmem)
    rw [innerExtents]
    exact hextents v (by simp)
  have hlength : ∀ v ∈ items, v.leaves.length = shapeSize item.extents := by
    intro v hv
    rw [h.room v hv (hform v hv), hextents v hv]
  have hpiece := leavesIn_eq items ▸ take_drop_flatMap hlength hk
  have hholds := ElemType.holds_widestElem (leavesIn items)
  unfold NDArray.index
  simp only [NDArray.countsOut_of_lt hn, Bool.false_eq_true, and_false, if_false,
    NDArray.position?_ofNat hlt hn, hinner]
  by_cases haxes : item.extents = []
  · -- items without axes have one number each, and the position counts the numbers
    obtain ⟨s, hs⟩ := List.length_eq_one_iff.mp ((hlength item hmem).trans (by rw [haxes]; rfl))
    have hat : (leavesIn items)[k]? = some s := by
      rw [haxes, hs] at hpiece
      have hfirst := congrArg (fun piece => piece[0]?) hpiece
      simpa [shapeSize, List.getElem?_take, List.getElem?_drop] using hfirst
    have hcell : (Cells.ofScalars (widestElem (leavesIn items)) (leavesIn items)).scalars[k]? =
        some (s.widened (widestElem (leavesIn items))) := by
      rw [Cells.scalars_ofScalars hholds, List.getElem?_map, hat]
      rfl
    rw [haxes, entry_of_number _ haxes hs]
    simp [NDArray.flat, NDArray.scalars, hcell, Except.map]
  · have hroom : k * shapeSize item.extents + shapeSize item.extents ≤
        (leavesIn items).length := by
      rw [length_leavesIn hlength, ← Nat.succ_mul]
      exact Nat.mul_le_mul_right _ hlt
    have hpos : item.extents.isEmpty = false := by simpa using haxes
    rw [entry_of_axes _ haxes, hpos, Cells.slice_ofScalars hholds hroom, hpiece]
    rfl

/-! ## Items and elements -/

/-- An item that is an entry already is left as it is, and no other is. -/
theorem entry_eq_self_iff {v : Value} (e : ElemType) (hform : v.Formed) :
    v.entry e = v ↔ v.isEntry e = true := by
  cases hform with
  | scalar s =>
    have hentry : (scalar s).entry e = scalar (s.widened e) := by
      apply entry_of_number <;> simp [extents, leaves]
    rw [hentry, scalar.injEq, Scalar.widened_eq_self_iff]
    simp [isEntry]
  | @array a ha =>
    by_cases haxes : a.shape = []
    · have hone : a.scalars.length = 1 := by
        rw [NDArray.length_scalars, ha, haxes]
        rfl
      obtain ⟨s, hs⟩ := List.length_eq_one_iff.mp hone
      rw [entry_of_number e (by rw [extents, haxes]) (by rw [leaves, hs])]
      simp [isEntry, NDArray.isZeroDim, haxes]
    · have hentry : (array a).entry e = array ⟨a.shape, Cells.ofScalars e a.scalars⟩ := by
        rw [entry_of_axes e (by rwa [extents]), extents, leaves]
      have hzero : a.isZeroDim = false := by simpa [NDArray.isZeroDim] using haxes
      rw [hentry, array.injEq]
      simp only [isEntry, hzero, Bool.not_false, Bool.and_true, decide_eq_true_eq]
      constructor
      · intro hsame
        rw [← hsame]
        exact Cells.elem_ofScalars e a.scalars
      · rintro rfl
        exact congrArg (NDArray.mk a.shape) a.cells.ofScalars_scalars
  | _ =>
    unfold entry isEntry
    split <;> simp

section Sequence

variable {v : Value} {items : List Value}

theorem extents_items (hv : v = list items ∨ v = tuple items) :
    v.extents = items.length :: innerExtents items := by
  rcases hv with rfl | rfl
  · rw [extents]
  · rw [extents]

theorem leaves_items (hv : v = list items ∨ v = tuple items) : v.leaves = leavesIn items := by
  rcases hv with rfl | rfl
  · rw [leaves]
  · rw [leaves]

theorem formed_items {P : NDArray → Prop} (hv : v = list items ∨ v = tuple items)
    (h : v.FormedBy P) : ∀ item ∈ items, item.FormedBy P := by
  rcases hv with rfl | rfl
  · cases h with | list h => exact h
  · cases h with | tuple h => exact h

/-- The array of a list or a tuple is made of what its items have. -/
theorem toArray?_sequence (hv : v = list items ∨ v = tuple items) :
    v.toArray? = gather? items Option.none >>= fun r =>
      .ofOutcome (NDArray.ofScalars (items.length :: r.1.getD []) r.2) := by
  rcases hv with rfl | rfl
  · rw [toArray?]
  · rw [toArray?]

theorem toArray?_items (hv : v = list items ∨ v = tuple items) {a : NDArray}
    (h : v.toArray? = .ok a) :
    (∃ inner flat, Gathered items Option.none inner flat) ∧
      (leavesIn items ≠ [] ∨ shapeFits (items.length :: innerExtents items) = true) ∧
      a = ⟨items.length :: innerExtents items,
        Cells.ofScalars (widestElem (leavesIn items)) (leavesIn items)⟩ := by
  rw [toArray?_sequence hv] at h
  obtain ⟨⟨inner, flat⟩, hgather, harray⟩ := Outcome.bind_eq_ok h
  have hgathered := written_gather? items hgather
  have hmade := Search.ofOutcome_eq_ok harray
  refine ⟨⟨inner, flat, hgathered⟩, ?_, hgathered.array_eq hgather hmade⟩
  have hcounted := NDArray.fits_of_ofScalars hmade
  rwa [hgathered.inner_eq hgather, ne_eq, ← List.length_eq_zero_iff, hgathered.stored.length_eq,
    List.length_eq_zero_iff] at hcounted

theorem exists_toArray?_of_uniform (hv : v = list items ∨ v = tuple items) {target : Target}
    {d : Domain} (h : Domain.classify v target = .ok d) (hkind : d.kind = .uniform) :
    ∃ a, v.toArray? = .ok a := by
  obtain ⟨d', hd', rfl⟩ := Domain.classify_eq_ok h
  have hitems : Domain.ofItems v items.length = .ok d' := by
    rcases hv with rfl | rfl
    · exact hd'
    · exact hd'
  obtain ⟨found, hfound, hd⟩ := Outcome.bind_eq_ok hitems
  obtain ⟨a, ha, rfl⟩ | ⟨-, rfl⟩ := Search.optional_eq_ok hfound
  · exact ⟨a, ha⟩
  · cases hd
    cases hkind

theorem loopRange_of_toArray? (hv : v = list items ∨ v = tuple items) {a : NDArray}
    (h : v.toArray? = .ok a) : v.loopRange = .ok (.upTo items.length, .rows (array a)) := by
  have hitems : itemElements v items.length = .ok (items.length, .rows (array a)) := by
    rw [itemElements, h]
    rfl
  rcases hv with rfl | rfl
  · simp only [loopRange, elements, hitems]
    rfl
  · simp only [loopRange, elements, hitems]
    rfl

/-- The loop in the graph over a list or a tuple that makes up an array: there are as many indices
as items, and at each index the graph finds the item at that position as an entry in the widest
element type of all numbers. The host has the item itself, which is the same value just where the
item is such an entry. -/
theorem uniform_elements (hv : v = list items ∨ v = tuple items) (hform : v.Formed)
    (target : Target) {d : Domain} (hd : Domain.classify v target = .ok d)
    (hkind : d.kind = .uniform) (hn : items.length < 0x8000000000000000) (t : Tracer) :
    ∃ range elements indices,
      v.loopRange = .ok (range, elements) ∧ range.indices = .ok indices ∧
      indices.length = items.length ∧ v.hostItems t = (.ok items, t) ∧
      ∀ (k : Nat) (item : Value), items[k]? = some item → ∃ i, indices[k]? = some i ∧
        elements.element (.int i) t = (.ok (item.entry (widestElem v.leaves)), t) ∧
        (item.entry (widestElem v.leaves) = item ↔
          item.isEntry (widestElem v.leaves) = true) := by
  obtain ⟨a, ha⟩ := exists_toArray?_of_uniform hv hd hkind
  obtain ⟨⟨inner, flat, hgathered⟩, -, rfl⟩ := toArray?_items hv ha
  have hitems := formed_items hv hform
  refine ⟨_, _, (Counting.below items.length).values, loopRange_of_toArray? hv ha,
    (Counting.below items.length).indices_eq (by simp [Counting.below]), ?_, ?_, ?_⟩
  · rw [Counting.length_values, Counting.length_below hn]
  · rcases hv with rfl | rfl
    · rfl
    · rfl
  · intro k item hk
    have hlt : k < items.length := (List.getElem?_eq_some_iff.mp hk).1
    refine ⟨Int64.ofNat k, ?_, ?_, entry_eq_self_iff _ (hitems item (List.mem_of_getElem? hk))⟩
    · rw [Counting.getElem?_values (by rwa [Counting.length_below hn]), Counting.nth_below]
    · rw [leaves_items hv, ← index_gathered hgathered hitems hn hk]
      rfl

end Sequence

/-- A list and an array, both of two numbers. -/
def pairItems : List Value :=
  [list [bool true, int 2], array ⟨[2], .ints [3, 4]⟩]

theorem formed_pairItems : (tuple pairItems).Formed := by
  refine .tuple fun v hv => ?_
  rcases List.mem_pair.mp hv with rfl | rfl
  · exact .list (formed_pair (.scalar _) (.scalar _))
  · exact .array rfl

/-- The list becomes an array of integers, and the array stays what it is. -/
theorem uniform_elements_pairs :
    Domain.classify (tuple pairItems) (.name "pair") =
        .ok (.plain .uniform (.array (some .int)) (some 2) "tuple") ∧
      ∃ range elements indices,
        (tuple pairItems).loopRange = .ok (range, elements) ∧ range.indices = .ok indices ∧
        indices.length = 2 ∧
        (tuple pairItems).hostItems (.start false) = (.ok pairItems, .start false) ∧
        ∀ (k : Nat) (item : Value), pairItems[k]? = some item → ∃ i, indices[k]? = some i ∧
          elements.element (.int i) (.start false) = (.ok (item.entry .int), .start false) ∧
          (item.entry .int = item ↔ item.isEntry .int = true) :=
  ⟨rfl, uniform_elements (.inr rfl) formed_pairItems (.name "pair") rfl rfl (by decide)
    (.start false)⟩

/-- A loop over a list of lists: the host has the lists, and the graph has arrays instead. -/
theorem listed_rows_change :
    ∃ rows elements,
      rows = [list [int 1, int 2], list [int 3, int 4]] ∧
      Domain.classify (list rows) (.name "row") =
        .ok (.plain .uniform (.array (some .int)) (some 2) "list") ∧
      (list rows).loopRange = .ok (.upTo 2, elements) ∧
      (list rows).hostItems (.start false) = (.ok rows, .start false) ∧
      elements.element (.int 0) (.start false) =
        (.ok (array ⟨[2], .ints [1, 2]⟩), .start false) :=
  ⟨_, _, rfl, rfl, rfl, rfl, rfl⟩

end Value

end StagedFlow
