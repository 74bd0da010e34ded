import Mathlib.Tactic.Linarith
import StagedFlow.Graph.Eval
import StagedFlow.Op.Abstract
import StagedFlow.Proofs.ArrayOps
import StagedFlow.Proofs.HostOps

/-!
Operations on values of known types. If the types of the operands have a result type, then the
operation has a value of just that type, or it stops for one of few reasons: a zero divisor, an
index outside its axis, or an integer that leaves 64 bits. Main definitions: `Value.HasType`,
`IntStops`, `Op.Stops`. Main result: `Op.ends_apply`.
-/
set_option autoImplicit false

namespace StagedFlow

/-! ## Integers -/

/-- How a quotient or a remainder of integers stops. -/
inductive IntStops : BinaryOp → Int64 → Int64 → Halt Fault → Prop
  | quotientByZero (a : Int64) : IntStops .floorDiv a 0 (.error .divisionByZero)
  | remainderByZero (a : Int64) : IntStops .mod a 0 (.error .divisionByZero)
  | quotient : IntStops .floorDiv Int64.minValue (-1) (.crash .overflow)
  | remainder : IntStops .mod Int64.minValue (-1) (.crash .overflow)
  | remainderSum {a b : Int64} (h : ¬ FitsInt64 (a.toInt.tmod b.toInt + b.toInt)) :
    IntStops .mod a b (.crash .overflow)

theorem ends_checkedInt64 (n : Int) :
    (checkedInt64 n).Ends (fun m => FitsInt64 n ∧ m.toInt = n)
      (fun h => ¬ FitsInt64 n ∧ h = .crash .overflow) := by
  unfold checkedInt64
  split
  · next h => exact ⟨h, Int64.toInt_ofInt_of_le h.1 h.2⟩
  · next h => exact ⟨h, rfl⟩

theorem fitsInt64_toInt (a : Int64) : FitsInt64 a.toInt :=
  ⟨a.le_toInt, a.toInt_lt⟩

theorem fits_ediv_of_pos {x z : Int} (hx : FitsInt64 x) (hz : 0 < z) : FitsInt64 (x / z) := by
  obtain ⟨hlo, hhi⟩ := hx
  constructor
  · rw [Int.le_ediv_iff_mul_le hz]
    nlinarith
  · rw [Int.ediv_lt_iff_lt_mul hz]
    nlinarith

/-- A quotient by a negative number leaves 64 bits in one case only, and else there is room for one
less. -/
theorem fits_ediv_neg {x z : Int} (hx : FitsInt64 x) (hz : 0 < z) :
    (x = -0x8000000000000000 ∧ z = 1) ∨ (FitsInt64 (x / -z) ∧ FitsInt64 (x / -z - 1)) := by
  have hfits := fits_ediv_of_pos hx hz
  rw [Int.ediv_neg]
  by_cases hz₁ : z = 1
  · by_cases hmin : x = -0x8000000000000000
    · exact Or.inl ⟨hmin, hz₁⟩
    · subst hz₁
      rw [Int.ediv_one]
      unfold FitsInt64 at *
      omega
  · refine Or.inr ?_
    have hhalf : -0x4000000000000000 ≤ x / z := by
      rw [Int.le_ediv_iff_mul_le hz]
      have hz₂ : 2 ≤ z := by omega
      have hlo := hx.1
      nlinarith
    unfold FitsInt64 at *
    omega

/-- The floor of a quotient, from the quotient with a remainder that is not negative. -/
theorem fdiv_eq_ediv_sub (x y : Int) :
    x.fdiv y = x / y - if y < 0 ∧ x % y ≠ 0 then 1 else 0 := by
  have hdvd := Int.dvd_iff_emod_eq_zero (a := y) (b := x)
  rw [Int.fdiv_eq_ediv]
  congr 1
  split <;> split <;> omega

/-- The steps of a quotient stay within 64 bits, except for the smallest integer by minus one. -/
theorem fits_quotient (a : Int64) {b : Int64} (hb : b ≠ 0) :
    (a = Int64.minValue ∧ b = -1) ∨
      (FitsInt64 (a.toInt / b.toInt) ∧ FitsInt64 (a.toInt.fdiv b.toInt)) := by
  have hb₀ : b.toInt ≠ 0 := fun h => hb (Int64.toInt_inj.mp h)
  rcases Int.lt_or_gt_of_ne hb₀ with hneg | hpos
  · have hz : b.toInt = - -b.toInt := by omega
    rcases fits_ediv_neg (fitsInt64_toInt a) (z := -b.toInt) (by omega) with ⟨ha, hb₁⟩ | ⟨hq, hq₁⟩
    · refine Or.inl ⟨Int64.toInt_inj.mp ha, Int64.toInt_inj.mp ?_⟩
      show b.toInt = -1
      omega
    · rw [← hz] at hq hq₁
      refine Or.inr ⟨hq, ?_⟩
      rw [fdiv_eq_ediv_sub]
      split
      · exact hq₁
      · rw [Int.sub_zero]
        exact hq
  · have hq := fits_ediv_of_pos (fitsInt64_toInt a) hpos
    rw [Int.fdiv_eq_ediv_of_nonneg _ hpos.le]
    exact Or.inr ⟨hq, hq⟩

theorem ends_floorQuotient (a b : Int64) :
    (floorQuotient a b).Ends (fun q => q.toInt = a.toInt.fdiv b.toInt) (IntStops .floorDiv a b) := by
  unfold floorQuotient
  split
  · next hb =>
    subst hb
    exact .quotientByZero a
  next hb =>
  have hcases := fits_quotient a hb
  have hneg : b < 0 ↔ b.toInt < 0 := Int64.lt_iff_toInt_lt
  refine .bind ((ends_checkedInt64 _).mono (fun q hq => ?_) fun h hh => ?_)
  · simp only [hq.2, hneg, ← fdiv_eq_ediv_sub]
    refine (ends_checkedInt64 _).mono (fun _ hr => hr.2) fun h hh => ?_
    rcases hcases with ⟨rfl, rfl⟩ | hfits
    · exact absurd hq.1 (by decide)
    · exact absurd hfits.2 hh.1
  · rcases hcases with ⟨rfl, rfl⟩ | hfits
    · rw [hh.2]
      exact .quotient
    · exact absurd hfits.1 hh.1

/-- The remainder that goes with the floor, from that of truncated division. -/
theorem tmod_add_tmod (x : Int) {y : Int} (hy : y ≠ 0) : (x.tmod y + y).tmod y = x.fmod y := by
  have hpos : ∀ x y : Int, 0 < y → (x.tmod y + y).tmod y = x.fmod y := by
    intro x y hy
    have hlow := Int.lt_tmod_of_pos x hy
    rw [Int.tmod_eq_emod_of_nonneg (by omega), Int.fmod_eq_emod_of_nonneg x hy.le,
      Int.add_emod_right, Int.tmod_def, Int.sub_mul_emod_self_left]
  rcases Int.lt_or_gt_of_ne hy with hneg | hy
  · have hflip := hpos (-x) (-y) (by omega)
    rw [Int.neg_fmod_neg, Int.neg_tmod, Int.tmod_neg, Int.tmod_neg, ← Int.neg_add,
      Int.neg_tmod] at hflip
    exact Int.neg_inj.mp hflip
  · exact hpos x y hy

/-- A remainder is zero or has the sign of the divisor, and it is smaller. -/
theorem fmod_bounds (x : Int) {y : Int} (hy : y ≠ 0) :
    (x.fmod y = 0 ∨ (x.fmod y).sign = y.sign) ∧ (x.fmod y).natAbs < y.natAbs := by
  have hpos : ∀ x y : Int, 0 < y → 0 ≤ x.fmod y ∧ x.fmod y < y := by
    intro x y hy
    rw [Int.fmod_eq_emod_of_nonneg x hy.le]
    exact ⟨Int.emod_nonneg x hy.ne', Int.emod_lt_of_pos x hy⟩
  rcases Int.lt_or_gt_of_ne hy with hneg | hy
  · have hflip := hpos (-x) (-y) (by omega)
    rw [Int.neg_fmod_neg] at hflip
    refine ⟨?_, by omega⟩
    rcases Int.lt_or_eq_of_le (show x.fmod y ≤ 0 by omega) with hlt | hzero
    · exact Or.inr (by rw [Int.sign_eq_neg_one_of_neg hlt, Int.sign_eq_neg_one_of_neg hneg])
    · exact Or.inl hzero
  · obtain ⟨hlow, hhigh⟩ := hpos x y hy
    refine ⟨?_, by omega⟩
    rcases Int.lt_or_eq_of_le hlow with hlt | hzero
    · exact Or.inr (by rw [Int.sign_eq_one_of_pos hlt, Int.sign_eq_one_of_pos hy])
    · exact Or.inl hzero.symm

theorem ends_floorRemainder (a b : Int64) :
    (floorRemainder a b).Ends (fun r => r.toInt = a.toInt.fmod b.toInt) (IntStops .mod a b) := by
  unfold floorRemainder
  split
  · next hb =>
    subst hb
    exact .remainderByZero a
  next hb =>
  have hb₀ : b.toInt ≠ 0 := fun h => hb (Int64.toInt_inj.mp h)
  split
  · next hmin =>
    obtain ⟨rfl, rfl⟩ := hmin
    exact .remainder
  · refine .bind ((ends_checkedInt64 _).mono (fun sum hsum => ?_) fun h hh => ?_)
    · have hfits : FitsInt64 (a.toInt.fmod b.toInt) := by
        have hsmall := (fmod_bounds a.toInt hb₀).2
        have hb₁ := fitsInt64_toInt b
        unfold FitsInt64 at *
        omega
      rw [hsum.2, tmod_add_tmod _ hb₀]
      exact Int64.toInt_ofInt_of_le hfits.1 hfits.2
    · rw [hh.2]
      exact .remainderSum hh.1

/-! ## Scalars -/

namespace Scalar

/-- Arithmetic on scalars stops where that on the integers they stand for does. -/
def Stops (op : BinaryOp) (a b : Scalar) (h : Halt Fault) : Prop :=
  ∃ m n, a.toInt? = some m ∧ b.toInt? = some n ∧ IntStops op m n h

theorem elem_ne_float {a : Scalar} {m : Int64} (h : a.toInt? = some m) : a.elem ≠ .float := by
  cases a with
  | float x => cases h
  | bool b => exact fun h => by cases h
  | int n => exact fun h => by cases h

theorem elem_eq_float {a : Scalar} (h : a.toInt? = none) : a.elem = .float := by
  cases a with
  | float x => rfl
  | bool b => cases h
  | int n => cases h

theorem promote_of_ne_float {a b : ElemType} (ha : a ≠ .float) (hb : b ≠ .float) :
    a.promote b = .int := by
  cases a <;> cases b <;> first | rfl | exact absurd rfl ha | exact absurd rfl hb

theorem promote_of_float {a b : ElemType} (h : a = .float ∨ b = .float) : a.promote b = .float := by
  cases a <;> cases b <;> first | rfl | (rcases h with h | h <;> cases h)

theorem ends_intArith {op : BinaryOp} (hcmp : op.isComparison = false) (hdiv : op ≠ .div)
    (hpow : op ≠ .pow) (m n : Int64) :
    (intArith op m n).Ends (fun r => r.elem = .int) (IntStops op m n) := by
  cases op with
  | add => rfl
  | sub => rfl
  | mul => rfl
  | floorDiv => exact .map ((ends_floorQuotient m n).mono (fun _ _ => rfl) fun _ h => h)
  | mod => exact .map ((ends_floorRemainder m n).mono (fun _ _ => rfl) fun _ h => h)
  | div => exact absurd rfl hdiv
  | pow => exact absurd rfl hpow
  | _ => cases hcmp

/-- Arithmetic on two scalars has the element type that goes with theirs, except where an integer
has a negative power. -/
theorem ends_binary {op : BinaryOp} {a b : Scalar}
    (hpow : op = .pow → a.elem = .float ∨ b.elem = .float) :
    (binary op a b).Ends (fun r => r.elem = ArrayType.binaryElem op a.elem b.elem)
      (Stops op a b) := by
  unfold binary ArrayType.binaryElem
  split
  · rfl
  next hcmp =>
  by_cases hdiv : op = .div
  · subst hdiv
    rfl
  rw [if_neg hdiv]
  rcases ha : a.toInt? with _ | m
  · have hfloat := elem_eq_float ha
    rw [if_neg (fun h => h.2.1 hfloat), promote_of_float (Or.inl hfloat)]
    split
    · exact absurd rfl hdiv
    · next heq _ => cases heq
    · rfl
  rcases hb : b.toInt? with _ | n
  · have hfloat := elem_eq_float hb
    rw [if_neg (fun h => h.2.2 hfloat), promote_of_float (Or.inr hfloat)]
    split
    · exact absurd rfl hdiv
    · next heq => cases heq
    · rfl
  have hane := elem_ne_float ha
  have hbne := elem_ne_float hb
  have hop : op ≠ .pow := fun h => (hpow h).elim hane hbne
  rw [if_neg (fun h => hop h.1), promote_of_ne_float hane hbne]
  split
  · exact absurd rfl hdiv
  · next m' n' _ hm hn =>
    cases hm
    cases hn
    exact (ends_intArith (by simpa using hcmp) hdiv hop m n).mono (fun _ h => h)
      fun _ h => ⟨m, n, ha, hb, h⟩
  · next hnone => exact absurd rfl (hnone m n rfl)

theorem ends_negate (s : Scalar) :
    s.negate.Ends (fun r => r.elem = s.elem.promote s.elem)
      (fun h => s = .int Int64.minValue ∧ h = .crash .overflow) := by
  cases s with
  | bool b => rfl
  | float x => rfl
  | int n =>
    refine .map ((ends_checkedInt64 _).mono (fun _ _ => rfl) fun h hh => ⟨?_, hh.2⟩)
    have hmin : n = Int64.minValue := by
      refine Int64.toInt_inj.mp ?_
      have hn := fitsInt64_toInt n
      have hneg := hh.1
      show n.toInt = -0x8000000000000000
      unfold FitsInt64 at hn hneg
      omega
    rw [hmin]

theorem elem_logical (op : LogicalOp) (a b : Scalar) : (logical op a b).elem = .bool := by
  cases op <;> rfl

end Scalar

/-! ## Values -/

namespace Value

/-- A value of a type: a scalar, or an array that has axes, and none of length zero. -/
inductive HasType : Value → ArrayType → Prop
  | scalar (s : Scalar) : HasType (.scalar s) (.scalar s.elem)
  | array {a : NDArray} (hform : a.WellFormed) (hrank : a.shape ≠ []) (haxes : 0 ∉ a.shape) :
    HasType (.array a) a.type

theorem HasType.arrayType_eq {v : Value} {type : ArrayType} (h : v.HasType type) :
    v.arrayType = .ok type := by
  cases h <;> rfl

theorem hasType_scalar {s : Scalar} {e : ElemType} (h : s.elem = e) :
    (Value.scalar s).HasType ⟨e, []⟩ :=
  h ▸ .scalar s

theorem hasType_array {a : NDArray} {type : ArrayType} (hform : a.WellFormed)
    (htype : a.type = type) (hrank : type.shape ≠ []) (haxes : 0 ∉ type.shape) :
    (Value.array a).HasType type := by
  subst htype
  exact .array hform hrank haxes

/-- The elements of a scalar or an array. -/
def numbers : Value → List Scalar
  | .scalar s => [s]
  | .array a => a.scalars
  | _ => []

theorem HasType.elem_numbers {v : Value} {type : ArrayType} (h : v.HasType type) :
    ∀ s ∈ v.numbers, s.elem = type.elem := by
  cases h with
  | scalar s =>
    intro t ht
    rw [List.mem_singleton.mp ht]
    rfl
  | array => exact NDArray.elem_scalars _

end Value

/-- How an operation on values of fitting types stops. -/
inductive Op.Stops : Op → List Value → Halt Fault → Prop
  | binary {op : BinaryOp} {v w : Value} {x y : Scalar} {h : Halt Fault} (hx : x ∈ v.numbers)
    (hy : y ∈ w.numbers) (hstops : Scalar.Stops op x y h) : Op.Stops (.binary op) [v, w] h
  | neg {v : Value} (hmin : .int Int64.minValue ∈ v.numbers) :
    Op.Stops .neg [v] (.crash .overflow)
  | index {a : NDArray} {i : Value} {k : Int64} (hi : i.toInt? = some k)
    (houtside : NDArray.position? k a.length = none) :
    Op.Stops .index [.array a, i] (.error (.bounds k a.length))

/-- The three ways in which operations stop. -/
theorem Op.Stops.halts {op : Op} {args : List Value} {h : Halt Fault} (hstops : op.Stops args h) :
    h = .error .divisionByZero ∨ (∃ i length, h = .error (.bounds i length)) ∨
      h = .crash .overflow := by
  cases hstops with
  | binary _ _ hstops =>
    obtain ⟨m, n, -, -, hint⟩ := hstops
    cases hint with
    | quotientByZero => exact Or.inl rfl
    | remainderByZero => exact Or.inl rfl
    | quotient => exact Or.inr (Or.inr rfl)
    | remainder => exact Or.inr (Or.inr rfl)
    | remainderSum => exact Or.inr (Or.inr rfl)
  | neg => exact Or.inr (Or.inr rfl)
  | index => exact Or.inr (Or.inl ⟨_, _, rfl⟩)

namespace Value

variable {v w : Value} {s t : ArrayType} {E : Halt Fault → Prop} {e : ElemType}

theorem pos_size {a : NDArray} (hform : a.WellFormed) (haxes : 0 ∉ a.shape) : 0 < a.size := by
  rw [hform]
  exact shapeSize_pos haxes

/-- An array made of another, element by element. -/
theorem ends_each {a : NDArray} {f : Scalar → Outcome Scalar} (ha : (Value.array a).HasType s)
    (hf : ∀ x ∈ a.scalars, (f x).Ends (fun r => r.elem = e) E) :
    Outcome.Ends (do return Value.array (← a.mapM f)) (fun r => r.HasType ⟨e, s.shape⟩) E := by
  cases ha with
  | array hform hrank haxes =>
    refine .bind ((NDArray.ends_mapM hform (pos_size hform haxes) hf).mono (fun r hr => ?_)
      fun _ he => he)
    exact .pure (hasType_array hr.1 hr.2 hrank haxes)

/-- An array made of two of one shape, element by element. -/
theorem ends_pairwise {a b : NDArray} {f : Scalar → Scalar → Outcome Scalar}
    (ha : (Value.array a).HasType s) (hb : (Value.array b).HasType t) (hshape : s.shape = t.shape)
    (hf : ∀ x ∈ a.scalars, ∀ y ∈ b.scalars, (f x y).Ends (fun r => r.elem = e) E) :
    Outcome.Ends (do
        let (a, b) ← a.broadcastPair b
        return Value.array (← a.zipWithM b f))
      (fun r => r.HasType ⟨e, s.shape⟩) E := by
  cases ha with
  | array hform hrank haxes =>
    cases hb with
    | array hform' _ _ =>
      have hpair : a.broadcastPair b = .ok (a, b) := if_pos hshape
      rw [hpair]
      show Outcome.Ends (do return Value.array (← a.zipWithM b f)) _ E
      refine .bind ((NDArray.ends_zipWithM hform hform' hshape (pos_size hform haxes) hf).mono
        (fun r hr => ?_) fun _ he => he)
      exact .pure (hasType_array hr.1 hr.2 hrank haxes)

theorem broadcast_eq_ok {a b c : List Nat} (h : ArrayType.broadcast a b = .ok c) :
    (a = b ∧ c = a) ∨ (b = [] ∧ c = a) ∨ (a = [] ∧ c = b) := by
  unfold ArrayType.broadcast at h
  split at h
  · next hab =>
    cases h
    rcases hab with hab | hb
    · exact Or.inl ⟨hab, rfl⟩
    · exact Or.inr (Or.inl ⟨hb, rfl⟩)
  · split at h
    · next ha =>
      cases h
      exact Or.inr (Or.inr ⟨ha, rfl⟩)
    · cases h

/-- Shapes with axes go together only if they are the same. -/
theorem eq_of_broadcast {a b c : List Nat} (ha : a ≠ []) (hb : b ≠ [])
    (h : ArrayType.broadcast a b = .ok c) : a = b ∧ c = a := by
  rcases broadcast_eq_ok h with h | h | h
  · exact h
  · exact absurd h.1 hb
  · exact absurd h.1 ha

theorem broadcast_nil (a : List Nat) : ArrayType.broadcast a [] = .ok a :=
  if_pos (Or.inr rfl)

theorem nil_broadcast (b : List Nat) : ArrayType.broadcast [] b = .ok b := by
  unfold ArrayType.broadcast
  split
  · next h =>
    rcases h with rfl | rfl <;> rfl
  · exact if_pos rfl

theorem ends_binary {op : BinaryOp} {shape : List Nat} (hv : v.HasType s) (hw : w.HasType t)
    (hshape : ArrayType.broadcast s.shape t.shape = .ok shape)
    (hpow : op = .pow → s.elem = .float ∨ t.elem = .float) :
    (binary op v w).Ends
      (fun r => r.HasType ⟨ArrayType.binaryElem op s.elem t.elem, shape⟩)
      (Op.Stops (.binary op) [v, w]) := by
  have hop : ∀ x ∈ v.numbers, ∀ y ∈ w.numbers, (Scalar.binary op x y).Ends
      (fun r => r.elem = ArrayType.binaryElem op s.elem t.elem) (Op.Stops (.binary op) [v, w]) := by
    intro x hx y hy
    have helem := hv.elem_numbers x hx
    have helem' := hw.elem_numbers y hy
    rw [← helem, ← helem'] at hpow ⊢
    exact (Scalar.ends_binary hpow).mono (fun _ h => h) fun _ h => .binary hx hy h
  have hv' := hv
  have hw' := hw
  cases hv with
  | scalar x =>
    cases hw with
    | scalar y =>
      cases hshape
      refine .bind ((hop x (by simp [numbers]) y (by simp [numbers])).mono (fun r hr => ?_)
        fun _ he => he)
      exact .pure (hasType_scalar hr)
    | array =>
      rw [ArrayType.scalar, nil_broadcast] at hshape
      cases hshape
      exact ends_each hw' (hop x (by simp [numbers]))
  | array _ hrank _ =>
    cases hw with
    | scalar y =>
      rw [ArrayType.scalar, broadcast_nil] at hshape
      cases hshape
      exact ends_each hv' fun x hx => hop x hx y (by simp [numbers])
    | array _ hrank' _ =>
      obtain ⟨heq, rfl⟩ := eq_of_broadcast hrank hrank' hshape
      exact ends_pairwise hv' hw' heq hop

theorem ends_negate (hv : v.HasType s) :
    v.negate.Ends (fun r => r.HasType ⟨s.elem.promote s.elem, s.shape⟩) (Op.Stops .neg [v]) := by
  have hneg : ∀ x ∈ v.numbers, x.negate.Ends (fun r => r.elem = s.elem.promote s.elem)
      (Op.Stops .neg [v]) := by
    intro x hx
    rw [← hv.elem_numbers x hx]
    refine (Scalar.ends_negate x).mono (fun _ h => h) ?_
    rintro h ⟨rfl, rfl⟩
    exact .neg hx
  have hv' := hv
  cases hv with
  | scalar x =>
    refine .bind ((hneg x (by simp [numbers])).mono (fun r hr => ?_) fun _ he => he)
    exact .pure (hasType_scalar hr)
  | array => exact ends_each hv' hneg

theorem ends_logicalNot (hv : v.HasType s) :
    (logical .not [v]).Ends (fun r => r.HasType ⟨.bool, s.shape⟩) E := by
  have hv' := hv
  cases hv with
  | scalar x => exact .pure (.scalar _)
  | array => exact ends_each hv' fun _ _ => .pure rfl

theorem ends_logical {op : LogicalOp} (hop : op ≠ .not) {shape : List Nat} (hv : v.HasType s)
    (hw : w.HasType t) (hshape : ArrayType.broadcast s.shape t.shape = .ok shape) :
    (logical op [v, w]).Ends (fun r => r.HasType ⟨.bool, shape⟩) E := by
  have hv' := hv
  have hw' := hw
  have helem := Scalar.elem_logical op
  cases hv with
  | scalar x =>
    cases hw with
    | scalar y =>
      cases hshape
      cases op with
      | not => exact absurd rfl hop
      | and => exact .pure (.scalar _)
      | or => exact .pure (.scalar _)
    | array =>
      rw [ArrayType.scalar, nil_broadcast] at hshape
      cases hshape
      cases op with
      | not => exact absurd rfl hop
      | and => exact ends_each hw' fun _ _ => .pure (helem _ _)
      | or => exact ends_each hw' fun _ _ => .pure (helem _ _)
  | array _ hrank _ =>
    cases hw with
    | scalar y =>
      rw [ArrayType.scalar, broadcast_nil] at hshape
      cases hshape
      cases op with
      | not => exact absurd rfl hop
      | and => exact ends_each hv' fun _ _ => .pure (helem _ _)
      | or => exact ends_each hv' fun _ _ => .pure (helem _ _)
    | array _ hrank' _ =>
      obtain ⟨heq, rfl⟩ := eq_of_broadcast hrank hrank' hshape
      cases op with
      | not => exact absurd rfl hop
      | and => exact ends_pairwise hv' hw' heq fun _ _ _ _ => .pure (helem _ _)
      | or => exact ends_pairwise hv' hw' heq fun _ _ _ _ => .pure (helem _ _)

/-- A scalar that is no float is an integer as an index. -/
theorem HasType.toInt? (hv : v.HasType s) (hscalar : s.isScalar) (helem : s.elem ≠ .float) :
    ∃ k, v.toInt? = some k := by
  cases hv with
  | scalar x =>
    cases x with
    | bool b => exact ⟨_, rfl⟩
    | int n => exact ⟨n, rfl⟩
    | float x => exact absurd rfl helem
  | array _ hrank _ => exact absurd (List.isEmpty_iff.mp hscalar) hrank

theorem HasType.toIndex (hv : v.HasType s) (hscalar : s.isScalar) (helem : s.elem ≠ .float) :
    ∃ k, v.toInt? = some k ∧ v.toIndex = .ok k := by
  obtain ⟨k, hk⟩ := hv.toInt? hscalar helem
  refine ⟨k, hk, ?_⟩
  unfold Value.toIndex
  rw [hk]

/-- A value of a scalar type can decide. -/
theorem HasType.truthy (hv : v.HasType s) (hscalar : s.isScalar) :
    ∃ truth, v.truthy = .ok truth := by
  cases hv with
  | scalar x => exact ⟨x.truthy, rfl⟩
  | array _ hrank _ => exact absurd (List.isEmpty_iff.mp hscalar) hrank

theorem ends_index {n : Nat} {inner : List Nat} (hv : v.HasType s) (hshape : s.shape = n :: inner)
    (hw : w.HasType t) (hscalar : t.isScalar) (helem : t.elem ≠ .float) :
    (v.index w).Ends (fun r => r.HasType ⟨s.elem, inner⟩) (Op.Stops .index [v, w]) := by
  obtain ⟨k, hk, htoIndex⟩ := hw.toIndex hscalar helem
  cases hv with
  | scalar x => cases hshape
  | @array a hform hrank haxes =>
    have hshape' : a.shape = n :: inner := hshape
    have hlength : a.length = n := by
      unfold NDArray.length
      rw [hshape']
      rfl
    rw [hshape', List.mem_cons, not_or] at haxes
    unfold index
    rw [htoIndex]
    refine (NDArray.ends_index hform hshape').mono (fun r hr => ?_) ?_
    · split at hr
      · next hinner =>
        obtain ⟨x, rfl, hx⟩ := hr
        rw [hinner]
        exact hasType_scalar hx
      · next hinner =>
        obtain ⟨b, rfl, hform', htype⟩ := hr
        exact hasType_array hform' htype hinner haxes.2
    · rintro h (⟨hempty, -, -⟩ | ⟨houtside, rfl⟩)
      · -- an array whose axes all have a length stores elements
        have hpos : 0 < shapeSize (n :: inner) := shapeSize_pos (by simp [haxes])
        rw [hform, hshape'] at hempty
        omega
      · rw [← hlength] at houtside ⊢
        exact .index hk houtside

theorem convertOne_scalar (elem : ElemType) (x : Scalar) :
    ∃ r, convertOne elem (.scalar x) = .ok r ∧ r.elem = elem := by
  cases elem <;> cases x <;> exact ⟨_, rfl, rfl⟩

theorem ends_convert (elem : ElemType) (hv : v.HasType s) :
    (v.convert elem).Ends (fun r => r.HasType ⟨elem, s.shape⟩) E := by
  cases hv with
  | scalar x =>
    obtain ⟨r, hr, helem⟩ := convertOne_scalar elem x
    unfold convert
    simp only [hr]
    exact hasType_scalar helem
  | @array a hform hrank haxes =>
    have hone : ∀ x ∈ a.scalars, (Outcome.ofFault (convertOne elem (.scalar x))).Ends
        (fun r => r.elem = elem) E := by
      intro x _
      obtain ⟨r, hr, helem⟩ := convertOne_scalar elem x
      rw [hr]
      exact helem
    unfold convert
    simp only [Outcome.ofFault_mapM]
    refine .bind ((Outcome.Ends.mapM _ hone).mono (fun scalars h => ?_) fun _ he => he)
    have hsize : shapeSize a.shape = (Cells.ofScalars elem scalars).size := by
      rw [Cells.size_ofScalars h.2, h.1, NDArray.length_scalars]
      exact hform.symm
    have hpos : 0 < shapeSize a.shape := shapeSize_pos haxes
    rw [NDArray.make_of_size hsize (Or.inl (by omega))]
    refine hasType_array hsize.symm ?_ hrank haxes
    unfold NDArray.type NDArray.elem
    rw [Cells.elem_ofScalars]

theorem zero_notMem_zipWith {a b : List Nat} (ha : 0 ∉ a) (hb : 0 ∉ b) :
    0 ∉ List.zipWith (· * ·) a b := by
  induction a generalizing b with
  | nil => simp
  | cons n a ih =>
    cases b with
    | nil => simp
    | cons m b =>
      simp only [List.mem_cons, not_or] at ha hb
      simp only [List.zipWith_cons_cons, List.mem_cons, not_or]
      exact ⟨(Nat.mul_ne_zero (Ne.symm ha.1) (Ne.symm hb.1)).symm, ih ha.2 hb.2⟩

theorem ends_kron {a b : NDArray} (ha : (Value.array a).HasType s) (hb : (Value.array b).HasType t)
    (hrank : s.shape.length = t.shape.length) (htwo : s.shape.length ≤ 2)
    (hfits : ∀ n ∈ List.zipWith (· * ·) s.shape t.shape, n ≤ wordMax) :
    Outcome.Ends (do return Value.array (← a.kron b))
      (fun r => r.HasType ⟨s.elem.promote t.elem, List.zipWith (· * ·) s.shape t.shape⟩) E := by
  have hmul : ∀ x ∈ a.scalars, ∀ y ∈ b.scalars,
      (Scalar.binary .mul x y).Ends (fun p => p.elem = s.elem.promote t.elem) E := by
    intro x hx y hy
    rw [← ha.elem_numbers x hx, ← hb.elem_numbers y hy]
    refine (Scalar.ends_binary (fun h => by cases h)).mono (fun _ h => h) ?_
    rintro h ⟨m, n, -, -, hstops⟩
    cases hstops
  cases ha with
  | array hform hne haxes =>
    cases hb with
    | array hform' hne' haxes' =>
      have hzero := zero_notMem_zipWith haxes haxes'
      have hkron := NDArray.ends_kron hform hform' hrank hne htwo hfits (shapeSize_pos hzero) hmul
      refine .bind (hkron.mono (fun r hr => ?_) fun _ he => he)
      refine .pure (hasType_array hr.1 hr.2 (fun hnil => ?_) hzero)
      rw [List.zipWith_eq_nil_iff] at hnil
      exact hnil.elim hne hne'

end Value

/-! ## Operations -/

/-- Two things that types alone do not show: an integer to an integer power may be a float, and
there is no negation of two operands. -/
def Op.Tame (op : Op) (types : List ArrayType) : Prop :=
  (op = .binary .pow → ∃ type ∈ types, type.elem = .float) ∧ (op = .logical .not → types.length = 1)

/-- An operation on values of types that have a result type gives a value of just that type, or
stops for one of the reasons of `Op.Stops`. -/
theorem Op.ends_apply {op : Op} {args : List Value} {types : List ArrayType} {type : ArrayType}
    (hargs : List.Forall₂ Value.HasType args types) (hresult : op.resultType types = .ok type)
    (htame : op.Tame types) : (op.apply args).Ends (fun v => v.HasType type) (op.Stops args) := by
  unfold resultType at hresult
  split at hresult
  · next b s t =>
    obtain _ | ⟨hv, _ | ⟨hw, _ | _⟩⟩ := hargs
    rcases hshape : ArrayType.broadcast s.shape t.shape with f | shape
    · rw [hshape] at hresult
      cases hresult
    rw [hshape] at hresult
    cases hresult
    refine Value.ends_binary hv hw hshape fun hpow => ?_
    subst hpow
    simpa using htame.1 rfl
  · obtain _ | ⟨hv, _ | _⟩ := hargs
    cases hresult
    exact Value.ends_negate hv
  · obtain _ | ⟨hv, _ | _⟩ := hargs
    cases hresult
    exact Value.ends_logicalNot hv
  · next l s t =>
    obtain _ | ⟨hv, _ | ⟨hw, _ | _⟩⟩ := hargs
    rcases hshape : ArrayType.broadcast s.shape t.shape with f | shape
    · rw [hshape] at hresult
      cases hresult
    rw [hshape] at hresult
    cases hresult
    have hl : l ≠ .not := by
      rintro rfl
      exact absurd (htame.2 rfl) (by simp)
    exact Value.ends_logical hl hv hw hshape
  · next base i =>
    obtain _ | ⟨hv, _ | ⟨hw, _ | _⟩⟩ := hargs
    split at hresult
    · cases hresult
    · next n inner hshape =>
      split at hresult
      · cases hresult
      · next hindex =>
        cases hresult
        simp only [Bool.or_eq_true, Bool.not_eq_true', decide_eq_true_eq, not_or,
          Bool.not_eq_false] at hindex
        exact Value.ends_index hv hshape hw hindex.1 hindex.2
  · next s t =>
    obtain _ | ⟨hv, _ | ⟨hw, _ | _⟩⟩ := hargs
    split at hresult
    · cases hresult
    · next hranks =>
      obtain ⟨shape, hshape, hresult⟩ := Outcome.bind_eq_ok hresult
      obtain ⟨rfl, hfits⟩ := NDArray.mapM_checkedSize_eq_ok hshape
      cases hresult
      simp only [ne_eq, not_or, not_not, Nat.not_lt] at hranks
      obtain ⟨hrank, hne, htwo⟩ := hranks
      have hne' : t.shape ≠ [] := by
        intro hnil
        rw [hnil] at hrank
        exact hne (List.length_eq_zero_iff.mp hrank)
      -- only arrays have axes
      cases hv with
      | scalar x => exact absurd rfl hne
      | array hform hrank' haxes =>
        cases hw with
        | scalar y => exact absurd rfl hne'
        | array hform' hrank'' haxes' =>
          exact Value.ends_kron (.array hform hrank' haxes) (.array hform' hrank'' haxes') hrank
            htwo hfits
  · obtain _ | ⟨hv, _ | _⟩ := hargs
    cases hresult
    exact Value.ends_convert _ hv
  · cases hresult

end StagedFlow
