import StagedFlow.Iteration.Domain
import StagedFlow.Proofs.ArrayOps
import StagedFlow.Proofs.StagedBlocks

/-!
Loops over the same elements. What the graph can iterate, it iterates as the host does: there are
as many indices as the host has items, and the element at an index is the item at its position,
although the graph computes it in wrapping arithmetic from the index. Main definitions:
`Tracer.LoopRange.indices`, `Value.LoopSource`. Main results: `Counting.indices_eq`,
`Value.LoopSource.elements_spec`, `Value.loopRange_matches_hostItems`.
-/
set_option autoImplicit false

namespace StagedFlow

open Tracer

/-! ## Indices -/

/-- The indices that a loop in the graph runs through. -/
def Tracer.LoopRange.indices (r : LoopRange) : Outcome (List Int64) := do
  let start ← .ofFault r.start.toIndex
  let stop ← .ofFault r.stop.toIndex
  let step ← .ofFault r.step.toIndex
  if step = 0 then .typeFault .zeroStep
  else countLoop (fun i seen => .ok (seen ++ [i])) stop.toInt step.toInt start.toInt []

namespace Counting

/-- The integers from position `k` on. -/
def valuesFrom (c : Counting) (k : Nat) : List Int64 :=
  (List.range' k (c.length - k)).map c.nth

theorem valuesFrom_zero (c : Counting) : c.valuesFrom 0 = c.values := by
  simp [valuesFrom, values, List.range_eq_range']

theorem valuesFrom_of_lt {c : Counting} {k : Nat} (h : k < c.length) :
    c.valuesFrom k = c.nth k :: c.valuesFrom (k + 1) := by
  have hlen : c.length - k = c.length - (k + 1) + 1 := by omega
  simp [valuesFrom, hlen, List.range'_succ]

theorem valuesFrom_of_ge {c : Counting} {k : Nat} (h : ¬ k < c.length) : c.valuesFrom k = [] := by
  have hlen : c.length - k = 0 := by omega
  simp [valuesFrom, hlen]

/-- A loop in the graph runs its body on the integers of a range, one after the other. The induction
is on the counter, which is at position `k`. -/
theorem countLoop_eq_foldlM {σ : Type} (body : Int64 → σ → Outcome σ) (c : Counting) (k : Nat)
    (i : Int) (s : σ) (hi : i = c.start.toInt + k * c.step.toInt) :
    countLoop body c.stop.toInt c.step.toInt i s =
      (c.valuesFrom k).foldlM (fun s i => body i s) s := by
  fun_induction countLoop body c.stop.toInt c.step.toInt i s generalizing k with
  | case1 i s hin next hnext hfits ih =>
    have hk : k < c.length := (c.lt_length_iff k).mpr (hi ▸ hin)
    have hnth : Int64.ofInt i = c.nth k := by rw [hi, nth]
    rw [ih (k + 1) (by rw [hi, c.toInt_succ k]), valuesFrom_of_lt hk, List.foldlM_cons, ← hnth,
      hnext]
    rfl
  | case2 i s hin next hnext hfits =>
    have hk : k < c.length := (c.lt_length_iff k).mpr (hi ▸ hin)
    have hnth : Int64.ofInt i = c.nth k := by rw [hi, nth]
    -- the counter would leave 64 bits, so this was the last position
    have hlast : ¬ k + 1 < c.length := by
      intro hk'
      rw [hi, c.toInt_succ k] at hfits
      exact hfits (fitsInt64_of_lt_length hk')
    rw [valuesFrom_of_lt hk, valuesFrom_of_ge hlast, List.foldlM_cons, ← hnth, hnext]
    rfl
  | case3 i s hin e hnext =>
    have hk : k < c.length := (c.lt_length_iff k).mpr (hi ▸ hin)
    have hnth : Int64.ofInt i = c.nth k := by rw [hi, nth]
    rw [valuesFrom_of_lt hk, List.foldlM_cons, ← hnth, hnext]
    rfl
  | case4 i s hout =>
    have hk : ¬ k < c.length := fun hk => hout (hi ▸ (c.lt_length_iff k).mp hk)
    rw [valuesFrom_of_ge hk]
    rfl

/-- The loop over the bounds of a range has the integers of the range for its indices. -/
theorem indices_eq (c : Counting) (hstep : c.step ≠ 0) :
    LoopRange.indices ⟨.int c.start, .int c.stop, .int c.step⟩ = .ok c.values := by
  have hcollect : ∀ (xs seen : List Int64),
      xs.foldlM (fun seen i => (.ok (seen ++ [i]) : Outcome (List Int64))) seen =
        .ok (seen ++ xs) := by
    intro xs
    induction xs with
    | nil => simp [pure, Except.pure]
    | cons x xs ih =>
      intro seen
      rw [List.foldlM_cons]
      show xs.foldlM _ (seen ++ [x]) = _
      simp [ih]
  show (if c.step = 0 then _ else _) = _
  rw [if_neg hstep, countLoop_eq_foldlM _ c 0 _ _ (by simp), hcollect, valuesFrom_zero,
    List.nil_append]

theorem getElem?_values {c : Counting} {k : Nat} (h : k < c.length) :
    c.values[k]? = some (c.nth k) := by
  simp [values, h]

theorem length_values (c : Counting) : c.values.length = c.length := by
  simp [values]

/-- The range of the indices below a number. -/
def below (n : Nat) : Counting :=
  ⟨0, Int64.ofNat n, 1⟩

theorem length_below {n : Nat} (h : n < 0x8000000000000000) : (below n).length = n := by
  have hiff : ∀ k, k < (below n).length ↔ k < n := by
    intro k
    rw [lt_length_iff]
    have hstop : (below n).stop.toInt = n := Int64.toInt_ofNat_of_lt h
    have hstart : (below n).start.toInt = 0 := rfl
    have hstep : (below n).step.toInt = 1 := rfl
    rw [hstop, hstart, hstep]
    omega
  have hle := (hiff n).not
  have hge := hiff (below n).length
  omega

theorem nth_below (n k : Nat) : (below n).nth k = Int64.ofNat k := by
  show Int64.ofInt (0 + k * 1) = _
  rw [Int.zero_add, Int.mul_one]
  rfl

end Counting

/-! ## Items and elements -/

/-- Where an operation has a result on every item, the results stand in the places of the items. -/
theorem Outcome.mapM_of_forall_ok {α β : Type} {f : α → Outcome β} (xs : List α)
    (h : ∀ x ∈ xs, ∃ y, f x = .ok y) :
    ∃ ys, xs.mapM f = .ok ys ∧ ys.length = xs.length ∧
      ∀ (k : Nat) (y : β), ys[k]? = some y → ∃ x, xs[k]? = some x ∧ f x = .ok y := by
  induction xs with
  | nil => exact ⟨[], rfl, rfl, by simp⟩
  | cons x xs ih =>
    obtain ⟨y, hy⟩ := h x List.mem_cons_self
    obtain ⟨ys, hys, hlength, hat⟩ := ih fun z hz => h z (List.mem_cons_of_mem x hz)
    refine ⟨y :: ys, ?_, by simp [hlength], fun k z hz => ?_⟩
    · rw [List.mapM_cons, hy, hys]
      rfl
    · cases k with
      | zero =>
        injection hz with hz
        exact ⟨x, rfl, hz ▸ hy⟩
      | succ k => exact hat k z hz

namespace NDArray

theorem position?_ofNat {k n : Nat} (hk : k < n) (hn : n < 0x8000000000000000) :
    position? (Int64.ofNat k) n = some k := by
  have hint : (Int64.ofNat k).toInt = k := Int64.toInt_ofNat_of_lt (Nat.lt_trans hk hn)
  have hnonneg : ¬ (k : Int) < 0 := by omega
  simp [position?, hint, hnonneg, hk]

/-- An array with axes has a row at every position. -/
theorem index_ofNat {a : NDArray} (hform : a.WellFormed) (haxes : a.shape ≠ [])
    (hn : a.length < 0x8000000000000000) {k : Nat} (hk : k < a.length) :
    ∃ v, a.index (Int64.ofNat k) = .ok v := by
  obtain ⟨n, inner, hshape⟩ := List.exists_cons_of_ne_nil haxes
  have hlength : a.length = n := by simp [length, hshape]
  have hspec := ends_index (i := Int64.ofNat k) hform hshape
  cases hindex : a.index (Int64.ofNat k) with
  | ok v => exact ⟨v, rfl⟩
  | error e =>
    obtain ⟨-, hout, -⟩ | ⟨hnone, -⟩ := hspec.of_error hindex
    · rw [countsOut_of_lt (hlength ▸ hn)] at hout
      cases hout
    · rw [position?_ofNat (hlength ▸ hk) (hlength ▸ hn)] at hnone
      cases hnone

theorem rowCount_of_lt {a : NDArray} (hn : a.length < 0x8000000000000000) :
    a.rowCount = a.length := by
  rw [rowCount, signedLength_of_lt hn, Int.toNat_natCast]

theorem rows_spec {a : NDArray} (hform : a.WellFormed) (haxes : a.shape ≠ [])
    (hroom : a.length ≤ Value.maxCollected) :
    ∃ items, a.rows = .ok items ∧ items.length = a.length ∧
      ∀ (k : Nat) (item : Value), items[k]? = some item → a.index (Int64.ofNat k) = .ok item := by
  have hn : a.length < 0x8000000000000000 := Nat.lt_of_le_of_lt hroom (by decide)
  unfold rows
  rw [rowCount_of_lt hn, if_neg (Nat.not_lt.mpr hroom)]
  obtain ⟨items, hitems, hlength, hat⟩ := Outcome.mapM_of_forall_ok (List.range a.length)
    fun k hk => index_ofNat hform haxes hn (List.mem_range.mp hk)
  refine ⟨items, hitems, by rw [hlength, List.length_range], fun k item hitem => ?_⟩
  obtain ⟨k', hk', hindex⟩ := hat k item hitem
  obtain ⟨_, hsame⟩ := List.getElem?_eq_some_iff.mp hk'
  rw [List.getElem_range] at hsame
  rwa [hsame]

end NDArray

namespace Value

/-- What both the host and the graph iterate, with the number of items: a range with a step, an
array with axes, and a numbering of either whose numbers have 64 bits. -/
inductive LoopSource : Value → Nat → Prop
  | range {start stop step : Value} {c : Counting}
      (hbounds : (Value.range start stop step).counting? = some c) (hstep : c.step ≠ 0) :
    LoopSource (.range start stop step) c.length
  | array {a : NDArray} (hform : a.WellFormed) (haxes : a.shape ≠ []) :
    LoopSource (.array a) a.length
  | enumerate {inner : Value} {n : Nat} {first : Int64} (hinner : LoopSource inner n)
      (hnumbers : ∀ k < n, FitsInt64 (first.toInt + k)) :
    LoopSource (.enumerate inner first) n

namespace LoopSource

variable {v : Value} {n : Nat}

theorem convertible (h : v.LoopSource n) :
    ∃ d, Domain.ofValue v = .ok d ∧ d.kind.isConvertible = true ∧ d.length = some n := by
  induction h with
  | range hbounds hstep => simp [Domain.ofValue, Domain.ofRange, hbounds, hstep, Domain.plain,
      DomainKind.isConvertible]
  | array hform haxes =>
    simp [Domain.ofValue, NDArray.isZeroDim, haxes, Domain.plain, DomainKind.isConvertible]
  | enumerate hinner hnumbers ih =>
    obtain ⟨d, hd, hkind, hcount⟩ := ih
    exact ⟨{ d with firstNumber := some _ }, by rw [Domain.ofValue, hd]; rfl, hkind, hcount⟩

end LoopSource

/-- The element of a range, computed from its position with wrapping operations. -/
theorem counted_eq_nth (c : Counting) (k : Nat) :
    c.start + Int64.ofNat k * c.step = c.nth k := by
  unfold Counting.nth
  rw [Int64.ofInt_add, Int64.ofInt_mul, Int64.ofInt_toInt, Int64.ofInt_toInt]
  rfl

/-- The number of an item, computed from its position with wrapping operations. -/
theorem number_eq (first : Int64) (k : Nat) :
    Int64.ofNat k + first = Int64.ofInt (first.toInt + k) := by
  rw [Int64.ofInt_add, Int64.ofInt_toInt, Int64.add_comm]
  rfl

/-- The numbered items of a list that is short enough for its numbers. -/
theorem numbered_spec {first : Int64} {items : List Value}
    (h : ∀ k < items.length, FitsInt64 (first.toInt + k)) :
    ∃ pairs, numbered first items = .ok pairs ∧ pairs.length = items.length ∧
      ∀ (k : Nat) (pair : Value), pairs[k]? = some pair →
        ∃ item, items[k]? = some item ∧ pair = .tuple [.int (Int64.ofNat k + first), item] := by
  have hnumber : ∀ k < items.length,
      checkedInt64 (first.toInt + k) = .ok (Int64.ofNat k + first) := by
    intro k hk
    rw [number_eq]
    exact if_pos (h k hk)
  obtain ⟨pairs, hpairs, hlength, hat⟩ := Outcome.mapM_of_forall_ok items.zipIdx
    (f := fun p => do return Value.tuple [.int (← checkedInt64 (first.toInt + p.2)), p.1])
    fun p hp => ⟨.tuple [.int (Int64.ofNat p.2 + first), p.1], by
      rw [hnumber p.2 (List.snd_lt_of_mem_zipIdx hp)]
      rfl⟩
  refine ⟨pairs, hpairs, by rw [hlength, List.length_zipIdx], fun k pair hpair => ?_⟩
  obtain ⟨⟨item, k'⟩, hp, hmade⟩ := hat k pair hpair
  obtain ⟨hk, hsame⟩ := List.getElem?_eq_some_iff.mp hp
  rw [List.getElem_zipIdx, Prod.mk.injEq, Nat.zero_add] at hsame
  rw [List.length_zipIdx] at hk
  refine ⟨item, List.getElem?_eq_some_iff.mpr ⟨hk, hsame.1⟩, ?_⟩
  simp only [← hsame.2, hnumber k hk] at hmade
  injection hmade with hmade
  exact hmade.symm

/-- How many items of a source can be listed. The room for the integers of a range is set aside
before the first is made, and the list of the rows of an array grows with every row. -/
def capacity : Value → Nat
  | .range .. => maxBytes / itemBytes
  | .enumerate inner _ => inner.capacity
  | _ => maxCollected

theorem items_of_le {c : Counting} (h : c.length ≤ maxBytes / itemBytes) :
    c.items = .ok (c.values.map Value.int) := by
  have hroom : c.length * itemBytes ≤ maxBytes := (Nat.le_div_iff_mul_le (by decide)).mp h
  exact if_neg (Nat.not_lt.mpr hroom)

theorem items_of_lt {c : Counting} (h : maxBytes / itemBytes < c.length) :
    c.items = .crash .capacity := by
  have hroom : maxBytes < c.length * itemBytes := (Nat.div_lt_iff_lt_mul (by decide)).mp h
  exact if_pos hroom

theorem hostItems_range {start stop step : Value} {c : Counting}
    (hbounds : (Value.range start stop step).counting? = some c) (hstep : c.step ≠ 0) :
    (Value.range start stop step).hostItems = Step.ofExcept c.items := by
  simp [hostItems, hbounds, hstep]

theorem hostItems_array {a : NDArray} (haxes : a.shape ≠ []) :
    (Value.array a).hostItems = Step.ofExcept a.rows := by
  simp [hostItems, NDArray.isZeroDim, haxes]

namespace LoopSource

variable {v : Value} {n : Nat}

/-- The elements are the items: for every source, the way from a position to its element leads to
the item that the host has there, and no step of it touches the tracer. -/
theorem elements_spec (h : v.LoopSource n) (t : Tracer) :
    ∃ elements, v.elements = .ok (n, elements) ∧
      (n ≤ v.capacity → ∃ items, v.hostItems t = (.ok items, t) ∧ items.length = n ∧
        ∀ k item, items[k]? = some item →
          elements.element (.int (Int64.ofNat k)) t = (.ok item, t)) := by
  induction h with
  | @range start stop step c hbounds hstep =>
    refine ⟨.counted c.start c.step, by simp [elements, hbounds], fun hroom => ?_⟩
    refine ⟨c.values.map Value.int, ?_, by simp [Counting.length_values], fun k item hitem => ?_⟩
    · rw [hostItems_range hbounds hstep, items_of_le hroom]
      rfl
    · have hk : k < c.length := by
        have hlt := (List.getElem?_eq_some_iff.mp hitem).1
        simpa [Counting.length_values] using hlt
      rw [List.getElem?_map, Counting.getElem?_values hk] at hitem
      injection hitem with hitem
      rw [← hitem, ← counted_eq_nth]
      rfl
  | @array a hform haxes =>
    refine ⟨.rows (.array a), rfl, fun hroom => ?_⟩
    obtain ⟨items, hitems, hlength, hat⟩ := NDArray.rows_spec hform haxes hroom
    refine ⟨items, ?_, hlength, fun k item hitem => ?_⟩
    · rw [hostItems_array haxes, hitems]
      rfl
    · rw [← hat k item hitem]
      rfl
  | @enumerate inner n first hinner hnumbers ih =>
    obtain ⟨elements, helements, hlisted⟩ := ih
    refine ⟨.numbered elements first, by simp [Value.elements, helements, Except.map],
      fun hroom => ?_⟩
    obtain ⟨items, hitems, hlength, hat⟩ := hlisted hroom
    obtain ⟨pairs, hpairs, hcount, hpair⟩ := numbered_spec (hlength ▸ hnumbers)
    refine ⟨pairs, ?_, hcount.trans hlength, fun k pair hk => ?_⟩
    · rw [hostItems, Step.bind_of_ok hitems, hpairs]
      rfl
    · obtain ⟨item, hitem, rfl⟩ := hpair k pair hk
      have hnumber : Tracer.apply (.binary .add) [.int (Int64.ofNat k), .int first] t =
          (.ok (.int (Int64.ofNat k + first)), t) := rfl
      rw [Elements.element, Step.bind_of_ok hnumber, Step.bind_of_ok (hat k item hitem)]
      rfl

/-- A source with more items than can be listed has no list of them. -/
theorem hostItems_of_lt (h : v.LoopSource n) (hn : n < 0x8000000000000000)
    (hlong : v.capacity < n) (t : Tracer) : v.hostItems t = (.error (.crash .capacity), t) := by
  induction h with
  | @range start stop step c hbounds hstep =>
    rw [hostItems_range hbounds hstep, items_of_lt hlong]
    rfl
  | @array a hform haxes =>
    have hrows : a.rows = .crash .capacity := if_pos (by rwa [NDArray.rowCount_of_lt hn])
    rw [hostItems_array haxes, hrows]
    rfl
  | enumerate hinner hnumbers ih => rw [hostItems, Step.bind_of_error (ih hn hlong)]

/-- A source that is no range is counted by the indices below its length. -/
theorem counted_below (h : v.LoopSource n) (hn : n < 0x8000000000000000)
    (hplain : v.counting? = Option.none) (t : Tracer) :
    ∃ range elements indices,
      v.loopRange = .ok (range, elements) ∧ range.indices = .ok indices ∧ indices.length = n ∧
      (n ≤ v.capacity → ∃ items, v.hostItems t = (.ok items, t) ∧ items.length = n ∧
        ∀ k < n, ∃ i item, indices[k]? = some i ∧ items[k]? = some item ∧
          elements.element (.int i) t = (.ok item, t)) := by
  obtain ⟨elements, helements, hlisted⟩ := h.elements_spec t
  have hrange : v.loopRange = .ok (.upTo n, elements) := by
    unfold loopRange
    rw [hplain, helements]
    cases v <;> rfl
  refine ⟨.upTo n, elements, (Counting.below n).values, hrange,
    (Counting.below n).indices_eq (by simp [Counting.below]), ?_, fun hroom => ?_⟩
  · rw [Counting.length_values, Counting.length_below hn]
  obtain ⟨items, hitems, hlength, hat⟩ := hlisted hroom
  refine ⟨items, hitems, hlength, fun k hk => ?_⟩
  have hitem := List.getElem?_eq_getElem (hlength.symm ▸ hk)
  refine ⟨Int64.ofNat k, _, ?_, hitem, hat k _ hitem⟩
  rw [Counting.getElem?_values (by rwa [Counting.length_below hn]), Counting.nth_below]

end LoopSource

/-- Loops on the host and in the graph run over the same elements. The source has a domain that
foretells the number of items, and the loop in the graph has as many indices. If the items can be
listed there are as many of them, and at each index the graph finds the item that the host has at
that position; if they cannot, the host crashes. -/
theorem loopRange_matches_hostItems {v : Value} {n : Nat} (h : v.LoopSource n)
    (hn : n < 0x8000000000000000) (target : Target) (t : Tracer) :
    (∃ d, Domain.classify v target = .ok d ∧ d.kind.isConvertible = true ∧ d.length = some n) ∧
      (∃ range elements indices,
        v.loopRange = .ok (range, elements) ∧ range.indices = .ok indices ∧ indices.length = n ∧
        (n ≤ v.capacity → ∃ items, v.hostItems t = (.ok items, t) ∧ items.length = n ∧
          ∀ k < n, ∃ i item, indices[k]? = some i ∧ items[k]? = some item ∧
            elements.element (.int i) t = (.ok item, t))) ∧
      (v.capacity < n → v.hostItems t = (.error (.crash .capacity), t)) := by
  refine ⟨?_, ?_, fun hlong => h.hostItems_of_lt hn hlong t⟩
  · obtain ⟨d, hd, hkind, hcount⟩ := h.convertible
    exact ⟨d.forTarget target, by rw [Domain.classify, hd]; rfl, hkind, hcount⟩
  cases h with
  | @range start stop step c hbounds hstep =>
    -- a range counts through its own bounds, and its indices are its elements
    refine ⟨⟨.int c.start, .int c.stop, .int c.step⟩, .index, c.values,
      by simp [loopRange, hbounds], c.indices_eq hstep, c.length_values, fun hroom => ?_⟩
    refine ⟨c.values.map Value.int, ?_, by simp [Counting.length_values], fun k hk => ?_⟩
    · rw [hostItems_range hbounds hstep, items_of_le hroom]
      rfl
    · refine ⟨c.nth k, .int (c.nth k), Counting.getElem?_values hk, ?_, rfl⟩
      rw [List.getElem?_map, Counting.getElem?_values hk]
      rfl
  | array hform haxes => exact (LoopSource.array hform haxes).counted_below hn rfl t
  | enumerate hinner hnumbers => exact (hinner.enumerate hnumbers).counted_below hn rfl t

/-- The numbered multiples of a large step from below zero: the product of the last position and the
step does not have 64 bits, and the last element has. -/
theorem loopRange_matches_hostItems_wrapping :
    ∃ range elements indices,
      (Value.enumerate (.range (.int (-9000000000000000000)) (.int 9000000000000000000)
        (.int 6000000000000000000)) 7).loopRange = .ok (range, elements) ∧
      range.indices = .ok indices ∧ indices.length = 3 ∧
      ∃ items, (Value.enumerate (.range (.int (-9000000000000000000)) (.int 9000000000000000000)
        (.int 6000000000000000000)) 7).hostItems (.start false) = (.ok items, .start false) ∧
      items.length = 3 ∧
      ∀ k < 3, ∃ i item, indices[k]? = some i ∧ items[k]? = some item ∧
        elements.element (.int i) (.start false) = (.ok item, .start false) := by
  have hsource : (Value.enumerate (.range (.int (-9000000000000000000)) (.int 9000000000000000000)
      (.int 6000000000000000000)) 7).LoopSource 3 :=
    .enumerate (.range (c := ⟨-9000000000000000000, 9000000000000000000, 6000000000000000000⟩)
      rfl (by decide)) (by decide)
  obtain ⟨range, elements, indices, hrange, hindices, hcount, hlisted⟩ :=
    (loopRange_matches_hostItems hsource (by decide) (.name "item") (.start false)).2.1
  exact ⟨range, elements, indices, hrange, hindices, hcount, hlisted (by decide)⟩

/-- The numbered integers below 2^62 can be counted in 64 bits, and their list is too long for the
memory that a list can have. -/
theorem long_range_unlisted :
    (Value.enumerate (.range (.int 0) (.int 0x4000000000000000) (.int 1)) 0).LoopSource
        0x4000000000000000 ∧
      (Value.enumerate (.range (.int 0) (.int 0x4000000000000000) (.int 1)) 0).hostItems
        (.start false) = (.error (.crash .capacity), .start false) := by
  have hsource : (Value.enumerate (.range (.int 0) (.int 0x4000000000000000) (.int 1)) 0).LoopSource
      0x4000000000000000 := by
    refine .enumerate (.range (c := ⟨0, 0x4000000000000000, 1⟩) rfl (by decide)) fun k hk => ?_
    have hfirst : (0 : Int64).toInt = 0 := rfl
    rw [hfirst]
    constructor <;> omega
  exact ⟨hsource, hsource.hostItems_of_lt (by decide) (by decide) (.start false)⟩

end Value

end StagedFlow
