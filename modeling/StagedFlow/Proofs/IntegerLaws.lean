import Mathlib.Data.Int.ModEq
import Mathlib.Data.Rat.Floor
import StagedFlow.Proofs.TypedOps

/-!
The laws of integer division and of integer powers, for all integers of 64 bits. A quotient is the
floor of the exact one, and the remainder goes with it, unless a sum on the way to the remainder
leaves 64 bits. A power is exact modulo 2 ^ 64 for the last 32 bits of the exponent; so it is the
right one for exponents below 2 ^ 32, and powers of a sum are products where those bits add up
without a carry. Main results: `floor_div_eq_fdiv`, `wrappingPow_ofInt`, `Value.division_law`,
`Value.power_law`.
-/
set_option autoImplicit false

namespace StagedFlow

namespace Value

/-- Arithmetic on two integers, without a detour through floats. -/
theorem binary_int_int {op : BinaryOp} (hcmp : op.isComparison = false) (hdiv : op ≠ .div)
    (a b : Int64) : binary op (.int a) (.int b) = (Scalar.intArith op a b).map scalar := by
  have hwords : Scalar.binary op (.int a) (.int b) = Scalar.intArith op a b := by
    cases op with
    | div => exact absurd rfl hdiv
    | lt => cases hcmp
    | gt => cases hcmp
    | le => cases hcmp
    | ge => cases hcmp
    | eq => cases hcmp
    | ne => cases hcmp
    | _ => rfl
  rw [binary, hwords]
  cases Scalar.intArith op a b <;> rfl

end Value

/-! ## Division -/

/-- The floor of an exact quotient. -/
theorem floor_div_eq_fdiv (x : Int) {y : Int} (hy : y ≠ 0) : ⌊(x : ℚ) / y⌋ = x.fdiv y := by
  have hpos : ∀ x y : Int, 0 < y → ⌊(x : ℚ) / y⌋ = x.fdiv y := by
    intro x y hy
    obtain ⟨n, rfl⟩ := Int.eq_ofNat_of_zero_le hy.le
    rw [Int.fdiv_eq_ediv_of_nonneg x hy.le, Int.cast_natCast, Rat.floor_intCast_div_natCast]
  rcases Int.lt_or_gt_of_ne hy with hneg | hy
  · have hflip := hpos (-x) (-y) (by omega)
    rwa [Int.neg_fdiv_neg, Int.cast_neg, Int.cast_neg, neg_div_neg_eq] at hflip
  · exact hpos x y hy

variable {a b : Int64}

theorem floorQuotient_eq_ok (hb : b ≠ 0) (hmin : ¬ (a = Int64.minValue ∧ b = -1)) :
    ∃ q, floorQuotient a b = .ok q ∧ q.toInt = a.toInt.fdiv b.toInt := by
  have hspec := ends_floorQuotient a b
  cases h : floorQuotient a b with
  | ok q => exact ⟨q, rfl, hspec.of_ok h⟩
  | error e =>
    cases hspec.of_error h with
    | quotientByZero => exact absurd rfl hb
    | quotient => exact absurd ⟨rfl, rfl⟩ hmin

theorem floorRemainder_eq_ok (hb : b ≠ 0) (hmin : ¬ (a = Int64.minValue ∧ b = -1))
    (hsum : FitsInt64 (a.toInt.tmod b.toInt + b.toInt)) :
    ∃ r, floorRemainder a b = .ok r ∧ r.toInt = a.toInt.fmod b.toInt := by
  have hspec := ends_floorRemainder a b
  cases h : floorRemainder a b with
  | ok r => exact ⟨r, rfl, hspec.of_ok h⟩
  | error e =>
    cases hspec.of_error h with
    | remainderByZero => exact absurd rfl hb
    | remainder => exact absurd ⟨rfl, rfl⟩ hmin
    | remainderSum hleaves => exact absurd hsum hleaves

/-- The sum on the way to a remainder is not taken back. -/
theorem floorRemainder_eq_crash (hb : b ≠ 0)
    (hsum : ¬ FitsInt64 (a.toInt.tmod b.toInt + b.toInt)) :
    floorRemainder a b = .crash .overflow := by
  have hcheck : checkedInt64 (a.toInt.tmod b.toInt + b.toInt) = .crash .overflow := if_neg hsum
  rw [floorRemainder, if_neg hb, hcheck]
  split <;> rfl

/-- There is room for the sum where the divisor is small, or where the operands differ in sign. -/
theorem fits_remainder_sum (a : Int64) (hb : b ≠ 0)
    (h : b.toInt.natAbs ≤ 0x4000000000000000 ∨ a.toInt.sign ≠ b.toInt.sign) :
    FitsInt64 (a.toInt.tmod b.toInt + b.toInt) := by
  have hb₀ : b.toInt ≠ 0 := fun h => hb (Int64.toInt_inj.mp h)
  have hsmall : (a.toInt.tmod b.toInt).natAbs < b.toInt.natAbs := by
    rw [Int.natAbs_tmod]
    exact Nat.mod_lt _ (by omega)
  have hb₁ := fitsInt64_toInt b
  rcases h with hnear | hsign
  · unfold FitsInt64
    omega
  · -- the remainder has the sign of the dividend, so it draws the divisor towards zero
    have hopposite : (0 < b.toInt → a.toInt.tmod b.toInt ≤ 0) ∧
        (b.toInt < 0 → 0 ≤ a.toInt.tmod b.toInt) := by
      constructor
      · intro hpos
        have ha : 0 ≤ -a.toInt := by
          rw [Int.sign_eq_one_of_pos hpos] at hsign
          have ha₀ := mt Int.sign_eq_one_iff_pos.mpr hsign
          omega
        have hneg := Int.tmod_nonneg b.toInt ha
        rw [Int.neg_tmod] at hneg
        omega
      · intro hneg
        rw [Int.sign_eq_neg_one_of_neg hneg] at hsign
        have ha := mt Int.sign_eq_neg_one_iff_neg.mpr hsign
        exact Int.tmod_nonneg b.toInt (by omega)
    unfold FitsInt64 at *
    omega

namespace Value

/-- The law of division. For every divisor but zero, the smallest integer by minus one aside, the
quotient is the floor of the exact one, and no step towards it leaves 64 bits. The remainder is
what the quotient leaves over, zero or with the sign of the divisor and smaller than it, wherever
the sum on the way to it has 64 bits, as it does for a divisor of at most 2 ^ 62 and for operands
of different signs; elsewhere there is no remainder. -/
theorem division_law (hb : b ≠ 0) (hmin : ¬ (a = Int64.minValue ∧ b = -1)) :
    ∃ q : Int64, binary .floorDiv (.int a) (.int b) = .ok (.int q) ∧
      q.toInt = ⌊(a.toInt : ℚ) / b.toInt⌋ ∧
      FitsInt64 (a.toInt / b.toInt) ∧ FitsInt64 (a.toInt % b.toInt) ∧
      (FitsInt64 (a.toInt.tmod b.toInt + b.toInt) →
        ∃ r : Int64, binary .mod (.int a) (.int b) = .ok (.int r) ∧
          a.toInt = b.toInt * q.toInt + r.toInt ∧
          (r.toInt = 0 ∨ r.toInt.sign = b.toInt.sign) ∧ r.toInt.natAbs < b.toInt.natAbs) ∧
      (¬ FitsInt64 (a.toInt.tmod b.toInt + b.toInt) →
        binary .mod (.int a) (.int b) = .crash .overflow) ∧
      (b.toInt.natAbs ≤ 0x4000000000000000 ∨ a.toInt.sign ≠ b.toInt.sign →
        FitsInt64 (a.toInt.tmod b.toInt + b.toInt)) := by
  have hb₀ : b.toInt ≠ 0 := fun h => hb (Int64.toInt_inj.mp h)
  obtain ⟨q, hquotient, hq⟩ := floorQuotient_eq_ok hb hmin
  have hsteps : FitsInt64 (a.toInt / b.toInt) := ((fits_quotient a hb).resolve_left hmin).1
  have hrest : FitsInt64 (a.toInt % b.toInt) := by
    have hlow := Int.emod_nonneg a.toInt hb₀
    have hhigh := Int.emod_lt a.toInt hb₀
    have hb₁ := fitsInt64_toInt b
    unfold FitsInt64 at *
    omega
  have hmod : binary .mod (.int a) (.int b) = ((floorRemainder a b).map Scalar.int).map scalar :=
    binary_int_int rfl (by decide) a b
  refine ⟨q, ?_, ?_, hsteps, hrest, fun hsum => ?_, fun hsum => ?_, fits_remainder_sum a hb⟩
  · rw [binary_int_int rfl (by decide), Scalar.intArith, hquotient]
    rfl
  · rw [floor_div_eq_fdiv _ hb₀, hq]
  · obtain ⟨r, hremainder, hr⟩ := floorRemainder_eq_ok hb hmin hsum
    refine ⟨r, by rw [hmod, hremainder]; rfl, ?_, ?_⟩
    · rw [hq, hr, Int.mul_fdiv_add_fmod]
    · rw [hr]
      exact fmod_bounds a.toInt hb₀
  · rw [hmod, floorRemainder_eq_crash hb hsum]
    rfl

/-- The smallest integer by the largest. -/
theorem division_law_ends :
    ∃ q r : Int64,
      binary .floorDiv (.int Int64.minValue) (.int Int64.maxValue) = .ok (.int q) ∧
      q.toInt = ⌊(Int64.minValue.toInt : ℚ) / Int64.maxValue.toInt⌋ ∧
      binary .mod (.int Int64.minValue) (.int Int64.maxValue) = .ok (.int r) ∧
      Int64.minValue.toInt = Int64.maxValue.toInt * q.toInt + r.toInt ∧
      r.toInt.natAbs < Int64.maxValue.toInt.natAbs := by
  obtain ⟨q, hquotient, hq, -, -, hremainder, -, hfits⟩ :=
    division_law (a := Int64.minValue) (b := Int64.maxValue) (by decide) (by decide)
  obtain ⟨r, hr, hlaw, -, hsmall⟩ := hremainder (hfits (Or.inr (by decide)))
  exact ⟨q, r, hquotient, hq, hr, hlaw, hsmall⟩

/-- Near the ends of 64 bits there are operands without a remainder, although it would be one of
them. -/
theorem no_remainder_near_maximum :
    binary .mod (.int 9223372036854775806) (.int 9223372036854775807) = .crash .overflow ∧
      ¬ ∀ a b : Int64, b ≠ 0 → ¬ (a = Int64.minValue ∧ b = -1) →
        ∃ r : Int64, binary .mod (.int a) (.int b) = .ok (.int r) := by
  have hcrash : binary .mod (.int 9223372036854775806) (.int 9223372036854775807) =
      .crash .overflow := rfl
  refine ⟨hcrash, fun hall => ?_⟩
  obtain ⟨r, hr⟩ := hall 9223372036854775806 9223372036854775807 (by decide) (by decide)
  rw [hcrash] at hr
  cases hr

end Value

/-! ## Powers -/

/-- Repeated squaring is exact modulo 2 ^ 64. -/
theorem wrappingPow_ofInt {bits e : Nat} (n : Int) (h : e < 2 ^ bits) :
    wrappingPow bits (Int64.ofInt n) e = Int64.ofInt (n ^ e) := by
  induction bits generalizing n e with
  | zero =>
    obtain rfl : e = 0 := by omega
    rw [pow_zero]
    rfl
  | succ bits ih =>
    have hhalf : e / 2 < 2 ^ bits := by omega
    rw [wrappingPow, ← Int64.ofInt_mul, ih (n * n) hhalf, ← Int64.ofInt_mul]
    have hsquare : (n * n) ^ (e / 2) = n ^ (2 * (e / 2)) := by rw [pow_mul, pow_two]
    rw [hsquare]
    split
    · have he : 2 * (e / 2) + 1 = e := by omega
      rw [← pow_succ', he]
    · have he : 2 * (e / 2) = e := by omega
      rw [he]

/-- An integer cut to 64 bits keeps its residue. -/
theorem toInt_ofInt_modEq (n : Int) : (Int64.ofInt n).toInt ≡ n [ZMOD 2 ^ 64] := by
  rw [Int64.toInt_ofInt]
  exact Int.bmod_emod

theorem intPow_eq (a : Int64) {b : Int64} (hb : 0 ≤ b) :
    intPow a b = .int (Int64.ofInt (a.toInt ^ (b.toInt.toNat % 2 ^ 32))) := by
  have hlow : b.toInt.toNat % 2 ^ 32 < 2 ^ 32 := Nat.mod_lt _ (by decide)
  have hpower := wrappingPow_ofInt a.toInt hlow
  rw [Int64.ofInt_toInt] at hpower
  rw [intPow, if_pos hb, ← hpower]
  rfl

namespace Value

theorem binary_pow (a : Int64) {b : Int64} (hb : 0 ≤ b) :
    binary .pow (.int a) (.int b) =
      .ok (.int (Int64.ofInt (a.toInt ^ (b.toInt.toNat % 2 ^ 32)))) := by
  have hwords : Scalar.intArith .pow a b = .ok (intPow a b) := rfl
  rw [binary_int_int rfl (by decide), hwords, intPow_eq a hb]
  rfl

/-- The law of powers. Every integer has a power for every exponent that is not negative, and it is
the exact one modulo 2 ^ 64 for the last 32 bits of the exponent, so for the exponent itself if that
is below 2 ^ 32. The power for a sum is the wrapping product of those for its parts wherever the
last 32 bits of the parts add up without a carry. -/
theorem power_law (a : Int64) :
    (∀ b : Int64, 0 ≤ b →
      ∃ p : Int64, binary .pow (.int a) (.int b) = .ok (.int p) ∧
        p.toInt ≡ a.toInt ^ (b.toInt.toNat % 2 ^ 32) [ZMOD 2 ^ 64] ∧
        (b.toInt < 2 ^ 32 → p.toInt ≡ a.toInt ^ b.toInt.toNat [ZMOD 2 ^ 64])) ∧
      ∀ m n : Int64, 0 ≤ m → 0 ≤ n → FitsInt64 (m.toInt + n.toInt) →
        m.toInt % 2 ^ 32 + n.toInt % 2 ^ 32 < 2 ^ 32 →
        ∃ p q : Int64, binary .pow (.int a) (.int m) = .ok (.int p) ∧
          binary .pow (.int a) (.int n) = .ok (.int q) ∧
          binary .pow (.int a) (.int (m + n)) = .ok (.int (p * q)) := by
  constructor
  · intro b hb
    refine ⟨_, binary_pow a hb, toInt_ofInt_modEq _, fun hsmall => ?_⟩
    have hexponent : b.toInt.toNat % 2 ^ 32 = b.toInt.toNat := Nat.mod_eq_of_lt (by omega)
    rw [hexponent]
    exact toInt_ofInt_modEq _
  · intro m n hm hn hfits hcarry
    refine ⟨_, _, binary_pow a hm, binary_pow a hn, ?_⟩
    have hm₀ : 0 ≤ m.toInt := Int64.le_iff_toInt_le.mp hm
    have hn₀ : 0 ≤ n.toInt := Int64.le_iff_toInt_le.mp hn
    have hsum : (m + n).toInt = m.toInt + n.toInt := by
      rw [← Int64.toInt_ofInt_of_le hfits.1 hfits.2, Int64.ofInt_add, Int64.ofInt_toInt,
        Int64.ofInt_toInt]
    have hmn : 0 ≤ m + n := by
      rw [Int64.le_iff_toInt_le, hsum]
      exact Int.add_nonneg hm₀ hn₀
    have hexponent : (m + n).toInt.toNat % 2 ^ 32 =
        m.toInt.toNat % 2 ^ 32 + n.toInt.toNat % 2 ^ 32 := by
      rw [hsum]
      omega
    rw [binary_pow a hmn, hexponent, pow_add, Int64.ofInt_mul]

/-- Exponents with bits beyond the last 32. -/
theorem power_law_beyond :
    (∃ p : Int64, binary .pow (.int (-3)) (.int 12884901891) = .ok (.int p) ∧
        p.toInt ≡ -27 [ZMOD 2 ^ 64]) ∧
      ∃ p q : Int64, binary .pow (.int (-3)) (.int 4294967297) = .ok (.int p) ∧
        binary .pow (.int (-3)) (.int 8589934594) = .ok (.int q) ∧
        binary .pow (.int (-3)) (.int 12884901891) = .ok (.int (p * q)) := by
  obtain ⟨hpower, hsum⟩ := power_law (-3)
  refine ⟨?_, hsum 4294967297 8589934594 (by decide) (by decide) (by decide) (by decide)⟩
  obtain ⟨p, hp, hresidue, -⟩ := hpower 12884901891 (by decide)
  exact ⟨p, hp, hresidue⟩

/-- No power of zero is one but the power for zero; here it is for 2 ^ 32 as well. -/
theorem zero_power_beyond :
    binary .pow (.int 0) (.int 4294967296) = .ok (.int 1) ∧
      ¬ ∀ a b : Int64, 0 ≤ b → ∃ p : Int64, binary .pow (.int a) (.int b) = .ok (.int p) ∧
        p.toInt ≡ a.toInt ^ b.toInt.toNat [ZMOD 2 ^ 64] := by
  have hone : binary .pow (.int 0) (.int 4294967296) = .ok (.int 1) := rfl
  refine ⟨hone, fun hall => ?_⟩
  obtain ⟨p, hp, hresidue⟩ := hall 0 4294967296 (by decide)
  have hzero : (0 : Int64).toInt = 0 := rfl
  have hexponent : (4294967296 : Int64).toInt.toNat ≠ 0 := by decide
  rw [hzero, zero_pow hexponent] at hresidue
  rw [hone] at hp
  cases hp
  exact absurd hresidue (by decide)

end Value

end StagedFlow
