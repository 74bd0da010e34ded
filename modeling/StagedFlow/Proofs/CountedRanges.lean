import Mathlib.Data.Set.Card
import StagedFlow.Proofs.LoopSources

/-!
Counted ranges. The integers of a range are described without words of 64 bits: those that some
number of steps leads to and that lie before the stop. There are as many of them as the length says,
the values are these integers in order, and a loop of a graph runs its body on the values, although
its counter has 64 bits only. A count of 2 ^ 63 or more does not survive as a word, though. Main
definitions: `Counting.Before`, `Counting.integers`. Main results: `Counting.encard_integers`,
`Counting.map_toInt_values`, `Counting.runNode_forLoop`, `Counting.range_forms_agree`,
`Counting.trip_counts`.
-/
set_option autoImplicit false

namespace StagedFlow.Counting

variable {c : Counting}

/-! ## The integers of a range -/

/-- The integer that `k` steps from the start lead to. -/
def reached (c : Counting) (k : Nat) : Int :=
  c.start.toInt + k * c.step.toInt

/-- An integer lies before the stop, in the direction of the step. -/
def Before (c : Counting) (n : Int) : Prop :=
  (0 < c.step.toInt ∧ n < c.stop.toInt) ∨ (c.step.toInt < 0 ∧ c.stop.toInt < n)

/-- The integers of a range, of any size. -/
def integers (c : Counting) : Set Int :=
  {n | c.Before n ∧ ∃ k : Nat, c.reached k = n}

theorem before_reached_iff (c : Counting) (k : Nat) : c.Before (c.reached k) ↔ k < c.length :=
  (c.lt_length_iff k).symm

theorem integers_eq_image (c : Counting) : c.integers = c.reached '' Set.Iio c.length := by
  ext n
  constructor
  · rintro ⟨hbefore, k, rfl⟩
    exact ⟨k, (c.before_reached_iff k).mp hbefore, rfl⟩
  · rintro ⟨k, hk, rfl⟩
    exact ⟨(c.before_reached_iff k).mpr hk, k, rfl⟩

theorem reached_injective (hstep : c.step ≠ 0) : Function.Injective c.reached := by
  intro j k h
  have hnonzero : c.step.toInt ≠ 0 := fun h => hstep (Int64.toInt_inj.mp h)
  have hscaled : (j : Int) * c.step.toInt = k * c.step.toInt := by
    unfold reached at h
    omega
  exact Int.ofNat.inj (Int.eq_of_mul_eq_mul_right hnonzero hscaled)

/-- The length counts the integers. -/
theorem encard_integers (hstep : c.step ≠ 0) : c.integers.encard = c.length := by
  rw [integers_eq_image, (reached_injective hstep).encard_image, ← Finset.coe_range,
    Set.encard_coe_eq_coe_finsetCard, Finset.card_range]

theorem fitsInt64_of_mem {n : Int} (h : n ∈ c.integers) : FitsInt64 n := by
  rw [integers_eq_image] at h
  obtain ⟨k, hk, rfl⟩ := h
  exact fitsInt64_of_lt_length hk

/-! ## Values -/

/-- At a position of the range nothing is lost when its integer is cut to 64 bits. -/
theorem toInt_nth {k : Nat} (hk : k < c.length) : (c.nth k).toInt = c.reached k := by
  obtain ⟨hlow, hhigh⟩ := fitsInt64_of_lt_length hk
  exact Int64.toInt_ofInt_of_le hlow hhigh

theorem map_toInt_values (c : Counting) :
    c.values.map Int64.toInt = (List.range c.length).map c.reached := by
  rw [values, List.map_map]
  refine List.map_congr_left fun k hk => ?_
  exact toInt_nth (List.mem_range.mp hk)

theorem mem_map_toInt_values {n : Int} : n ∈ c.values.map Int64.toInt ↔ n ∈ c.integers := by
  rw [map_toInt_values, integers_eq_image, List.mem_map]
  simp only [List.mem_range, Set.mem_image, Set.mem_Iio]

/-! ## Loops -/

theorem countLoop_values {σ : Type} (body : Int64 → σ → Outcome σ) (c : Counting) (s : σ) :
    countLoop body c.stop.toInt c.step.toInt c.start.toInt s =
      c.values.foldlM (fun s i => body i s) s := by
  rw [countLoop_eq_foldlM body c 0 _ s (by simp), valuesFrom_zero]

/-- A node of a counted loop runs its body on the values of the range and binds what the last round
left. -/
theorem runNode_forLoop {fuel : Nat} {node : Node} {body : Region} {s : Store}
    {carried : List Value} (hstep : c.step ≠ 0) (hkind : node.kind = .forLoop body)
    (hinputs : s.operands node.inputs =
      .ok (.int c.start :: .int c.stop :: .int c.step :: carried)) :
    runNode (fuel + 1) node s =
      (c.values.foldlM (fun state i => runRegion fuel body (.int i :: state.1) state.2)
        (carried, s)).map fun final => Bindings.insertAll final.2 node.outputs final.1 := by
  rw [← countLoop_values fun i state => runRegion fuel body (.int i :: state.1) state.2, runNode,
    hinputs, hkind]
  show (if c.step = 0 then _ else _) = _
  rw [if_neg hstep]
  rfl

/-- Rounds that keep an invariant under which the body does not fail come to an end. -/
theorem exists_foldlM {σ : Type} {f : σ → Int64 → Outcome σ} {Inv : σ → Prop}
    (hbody : ∀ i state, Inv state → ∃ state', f state i = .ok state' ∧ Inv state')
    (indices : List Int64) {state : σ} (hstate : Inv state) :
    ∃ final, indices.foldlM f state = .ok final := by
  induction indices generalizing state with
  | nil => exact ⟨state, rfl⟩
  | cons i indices ih =>
    obtain ⟨state', hround, hstate'⟩ := hbody i state hstate
    obtain ⟨final, hfinal⟩ := ih hstate'
    refine ⟨final, ?_⟩
    rw [List.foldlM_cons, hround]
    exact hfinal

/-- The three forms of a range agree. Its length is the number of its integers, whatever their size;
its values are those integers in order, each within 64 bits; and a loop runs its body on the values,
one after the other, and ends where the body does not fail. -/
theorem range_forms_agree (c : Counting) (hstep : c.step ≠ 0) :
    c.integers.encard = c.length ∧
      c.values.map Int64.toInt = (List.range c.length).map c.reached ∧
      (∀ n, n ∈ c.values.map Int64.toInt ↔ n ∈ c.integers) ∧
      (∀ n ∈ c.integers, FitsInt64 n) ∧
      (∀ (σ : Type) (body : Int64 → σ → Outcome σ) (s : σ),
        countLoop body c.stop.toInt c.step.toInt c.start.toInt s =
          c.values.foldlM (fun s i => body i s) s) ∧
      ∀ (fuel : Nat) (node : Node) (body : Region) (s : Store) (carried : List Value)
        (Inv : List Value × Store → Prop),
        node.kind = .forLoop body →
        s.operands node.inputs = .ok (.int c.start :: .int c.stop :: .int c.step :: carried) →
        (∀ i state, Inv state →
          ∃ state', runRegion fuel body (.int i :: state.1) state.2 = .ok state' ∧ Inv state') →
        Inv (carried, s) →
        ∃ final,
          c.values.foldlM (fun state i => runRegion fuel body (.int i :: state.1) state.2)
            (carried, s) = .ok final ∧
          runNode (fuel + 1) node s =
            .ok (Bindings.insertAll final.2 node.outputs final.1) := by
  refine ⟨encard_integers hstep, c.map_toInt_values, fun n => mem_map_toInt_values,
    fun n => fitsInt64_of_mem, fun σ body s => countLoop_values body c s, ?_⟩
  intro fuel node body s carried Inv hkind hinputs hbody hinit
  obtain ⟨final, hfinal⟩ := exists_foldlM
    (f := fun state i => runRegion fuel body (.int i :: state.1) state.2) hbody c.values hinit
  refine ⟨final, hfinal, ?_⟩
  rw [runNode_forLoop hstep hkind hinputs, hfinal]
  rfl

/-- From the second largest integer down in steps of the smallest. -/
def downward : Counting :=
  ⟨9223372036854775806, -9223372036854775808, -9223372036854775808⟩

/-- A loop over `downward` whose body hands its index on. -/
def downwardLoop : Node :=
  ⟨0, .forLoop ⟨[1, 2], [], [.var 1]⟩,
    [.const (.int downward.start), .const (.int downward.stop), .const (.int downward.step),
      .const (.int 0)], [3]⟩

/-- One step past the second integer the counter would leave 64 bits; by then the body has run on
both. -/
theorem range_forms_agree_downward :
    downward.integers.encard = 2 ∧
      ∃ final, runNode 3 downwardLoop [] = .ok final ∧
        Bindings.find? final 3 = some (.int (-2)) := by
  obtain ⟨hcount, -, -, -, -, hloop⟩ := range_forms_agree downward (by decide)
  have hround : ∀ (i : Int64) (state : List Value × Store), state.1.length = 1 →
      ∃ state', runRegion 2 ⟨[1, 2], [], [.var 1]⟩ (.int i :: state.1) state.2 = .ok state' ∧
        state'.1.length = 1 := by
    rintro i ⟨carried, s⟩ hone
    obtain ⟨v, rfl⟩ := List.length_eq_one_iff.mp hone
    have hindex : Bindings.find? (Bindings.insertAll s [1, 2] [.int i, v]) 1 = some (.int i) := by
      simp [Bindings.insertAll, Bindings.find?_insert_of_ne]
    refine ⟨([.int i], Bindings.insertAll s [1, 2] [.int i, v]), ?_, rfl⟩
    simp [runRegion, runNodes, Store.operands, Store.operand, hindex, bind, Except.bind, pure,
      Except.pure]
  obtain ⟨final, hfinal, hrun⟩ := hloop 2 downwardLoop _ [] [.int 0]
    (fun state => state.1.length = 1) rfl rfl hround rfl
  refine ⟨hcount, _, hrun, ?_⟩
  obtain rfl : ([.int (-2)], _) = final := Except.ok.inj hfinal
  rfl

/-! ## Counts in words -/

theorem length_lt (c : Counting) : c.length < 2 ^ 64 := by
  have hmax : c.length ≤ maxLength := Nat.min_le_right _ _
  unfold maxLength at hmax
  omega

/-- A count with its 64th bit set comes out negative. -/
theorem toInt_ofNat_of_ge {n : Nat} (hlow : 2 ^ 63 ≤ n) (hhigh : n < 2 ^ 64) :
    (Int64.ofNat n).toInt = n - 2 ^ 64 := by
  have hword : Int64.ofNat n = Int64.ofInt n := rfl
  rw [hword, Int64.toInt_ofInt, Int.bmod_def, Int64.size]
  omega

/-- There is no index below a negative count. -/
theorem values_below_of_ge {n : Nat} (hlow : 2 ^ 63 ≤ n) (hhigh : n < 2 ^ 64) :
    (below n).values = [] := by
  have hnone : ¬ 0 < (below n).length := by
    rw [lt_length_iff]
    have hstop : (below n).stop.toInt = n - 2 ^ 64 := toInt_ofNat_of_ge hlow hhigh
    have hstart : (below n).start.toInt = 0 := rfl
    have hstep : (below n).step.toInt = 1 := rfl
    rw [hstop, hstart, hstep]
    omega
  have hzero : (below n).length = 0 := by omega
  rw [values, hzero]
  rfl

theorem counting?_eq_some {v : Value} (h : v.counting? = some c) :
    ∃ start stop step, v = .range start stop step := by
  cases v with
  | range start stop step => exact ⟨start, stop, step, rfl⟩
  | _ => cases h

/-- Counts in words. Both the length that a program asks for and the loop over the numbered integers
of a range take the number of these integers as a word. Below 2 ^ 63 nothing is lost: the length is
that number, and the loop has as many indices. From there on the length is too small by 2 ^ 64 and
the loop has no index at all. -/
theorem trip_counts {v : Value} (hbounds : v.counting? = some c) (hstep : c.step ≠ 0)
    (first : Int64) (t : Tracer) :
    c.integers.encard = c.length ∧
      ∃ (m : Int64) (elements : Elements) (indices : List Int64),
        Builtin.len.call [v] t = (.ok (.int m), t) ∧
        (Value.enumerate v first).loopRange = .ok (.upTo c.length, elements) ∧
        (Tracer.LoopRange.upTo c.length).indices = .ok indices ∧
        (c.length < 2 ^ 63 → m.toInt = c.length ∧ indices.length = c.length) ∧
        (2 ^ 63 ≤ c.length → m.toInt = c.length - 2 ^ 64 ∧ indices = []) := by
  obtain ⟨start, stop, step, rfl⟩ := counting?_eq_some hbounds
  refine ⟨encard_integers hstep, Int64.ofNat c.length, .numbered (.counted c.start c.step) first,
    (below c.length).values, ?_, ?_, (below c.length).indices_eq (by simp [below]), ?_, ?_⟩
  · have hlength : valueLength (.range start stop step) = .ok c.length := by
      simp only [valueLength, hbounds]
    show Step.ofFault ((valueLength (.range start stop step)).map fun n => _) t = _
    rw [hlength]
    rfl
  · have helements : (Value.range start stop step).elements =
        .ok (c.length, .counted c.start c.step) := by
      simp only [Value.elements, hbounds]
    show (Except.map _ (Value.enumerate (.range start stop step) first).elements) = _
    rw [Value.elements, helements]
    rfl
  · intro hsmall
    rw [length_values, length_below hsmall]
    exact ⟨Int64.toInt_ofNat_of_lt hsmall, rfl⟩
  · intro hlarge
    exact ⟨toInt_ofNat_of_ge hlarge c.length_lt, values_below_of_ge hlarge c.length_lt⟩

/-- Every third integer from the largest down. -/
theorem trip_counts_thirds :
    ∃ (m : Int64) (elements : Elements) (indices : List Int64),
      Builtin.len.call [.range (.int Int64.maxValue) (.int Int64.minValue) (.int (-3))]
        (.start false) = (.ok (.int m), .start false) ∧
      (Value.enumerate (.range (.int Int64.maxValue) (.int Int64.minValue) (.int (-3))) 7).loopRange =
        .ok (.upTo 6148914691236517205, elements) ∧
      (Tracer.LoopRange.upTo 6148914691236517205).indices = .ok indices ∧
      m.toInt = 6148914691236517205 ∧ indices.length = 6148914691236517205 := by
  have hlength : (⟨Int64.maxValue, Int64.minValue, -3⟩ : Counting).length = 6148914691236517205 := by
    decide
  obtain ⟨-, m, elements, indices, hlen, hloop, hindices, hexact, -⟩ := trip_counts
    (c := ⟨Int64.maxValue, Int64.minValue, -3⟩)
    (v := .range (.int Int64.maxValue) (.int Int64.minValue) (.int (-3))) rfl (by decide) 7
    (.start false)
  rw [hlength] at hloop hindices hexact
  obtain ⟨hm, hcount⟩ := hexact (by decide)
  exact ⟨m, elements, indices, hlen, hloop, hindices, hm, hcount⟩

/-- From minus one to the largest integer there are 2 ^ 63 integers. Their number comes out negative,
and the loop over them, numbered, does not run. -/
theorem trip_count_lost :
    (⟨-1, Int64.maxValue, 1⟩ : Counting).integers.encard = (2 ^ 63 : Nat) ∧
      Builtin.len.call [.range (.int (-1)) (.int Int64.maxValue) (.int 1)] (.start false) =
        (.ok (.int Int64.minValue), .start false) ∧
      ∃ elements,
        (Value.enumerate (.range (.int (-1)) (.int Int64.maxValue) (.int 1)) 0).loopRange =
          .ok (.upTo (2 ^ 63), elements) ∧
        (Tracer.LoopRange.upTo (2 ^ 63)).indices = .ok [] := by
  have hlength : (⟨-1, Int64.maxValue, 1⟩ : Counting).length = 2 ^ 63 := by decide
  refine ⟨?_, rfl, .numbered (.counted (-1) 1) 0, rfl, ?_⟩
  · rw [encard_integers (by decide), hlength]
  · have hnone := values_below_of_ge (n := 2 ^ 63) (by decide) (by decide)
    rw [← hnone]
    exact (below (2 ^ 63)).indices_eq (by decide)

end StagedFlow.Counting
