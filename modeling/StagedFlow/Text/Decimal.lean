import StagedFlow.Text.Basic

/-!
Decimal text of binary floats, always positional. A whole number has all its digits and one zero
after the point; any other finite number has the fewest decimal places that read back as the same
float, and of two such texts the nearer one, or the one farther from zero where they are equally
near. Main definitions: `Binary64.ofFloat`, `Binary64.places?`, `floatText`.
-/
set_option autoImplicit false

namespace StagedFlow.Text

/-- A finite float as `mantissa * 2 ^ exponent` with a sign. -/
structure Binary64 where
  negative : Bool
  mantissa : Nat
  exponent : Int
  /-- Whether the next float below is only half as far away as the next one above. -/
  lowerIsCloser : Bool
  deriving Repr, DecidableEq

namespace Binary64

/-- The parts of a float, or `none` for an infinity or a NaN. -/
def ofFloat (x : Float) : Option Binary64 :=
  let bits : Nat := x.toBits.toNat
  let negative := bits / Nat.pow 2 63 == 1
  let biased : Nat := bits / Nat.pow 2 52 % Nat.pow 2 11
  let fraction : Nat := bits % Nat.pow 2 52
  if biased == 2047 then none
  else if biased == 0 then some ⟨negative, fraction, -1074, false⟩
  else some ⟨negative, fraction + Nat.pow 2 52, (biased : Int) - 1075, fraction == 0 && 1 < biased⟩

/-- The magnitude, when it is a whole number. -/
def whole? (b : Binary64) : Option Nat :=
  match b.exponent with
  | .ofNat e => some (b.mantissa * Nat.pow 2 e)
  | .negSucc e =>
    let unit := Nat.pow 2 (e + 1)
    if b.mantissa % unit == 0 then some (b.mantissa / unit) else none

/-- The distance between two naturals. -/
def gap (a b : Nat) : Nat :=
  (a - b) + (b - a)

/-- The number `n` with `n / 10 ^ places` nearest to `mantissa / 2 ^ scale`, provided that it rounds
back to that float; of two that are equally near, the greater. The reals that round to it reach two
quarters of a unit up, and two quarters, or one where the float below is closer, down; the ends
belong to it when the mantissa is even. -/
def places? (b : Binary64) (scale places : Nat) : Option Nat :=
  let unit := Nat.pow 2 (scale + 2)
  let power := Nat.pow 10 places
  let middle := 4 * b.mantissa * power
  let low := (4 * b.mantissa - (if b.lowerIsCloser then 1 else 2)) * power
  let high := (4 * b.mantissa + 2) * power
  let inside (n : Nat) : Bool :=
    if b.mantissa % 2 == 0 then low ≤ n * unit && n * unit ≤ high
    else low < n * unit && n * unit < high
  let below := middle / unit
  let above := below + 1
  match inside below, inside above with
  | true, true => if gap (above * unit) middle ≤ gap (below * unit) middle then above else below
  | true, false => some below
  | false, true => some above
  | false, false => none

/-- The fewest places, from `places` on, that read back; at most `fuel` counts are tried. -/
def fewestPlaces (b : Binary64) (scale : Nat) : Nat → Nat → Nat × Nat
  | 0, places => (4 * b.mantissa * Nat.pow 10 places / Nat.pow 2 (scale + 2), places)
  | fuel + 1, places =>
    match b.places? scale places with
    | some n => (n, places)
    | none => fewestPlaces b scale fuel (places + 1)

/-- No float needs more decimal places than this. -/
def maxPlaces : Nat := 1100

/-- Digits of `n` with a point before the last `places` of them. -/
def positional (n places : Nat) : String :=
  let digits := Nat.toDigits 10 (n % Nat.pow 10 places)
  let padding := List.replicate (places - digits.length) '0'
  toString (n / Nat.pow 10 places) ++ "." ++ String.ofList (padding ++ digits)

/-- The text of a magnitude. -/
def magnitudeText (b : Binary64) : String :=
  match b.whole?, b.exponent with
  | some n, _ => toString n ++ ".0"
  | none, .ofNat _ => ""
  | none, .negSucc e =>
    let (n, places) := b.fewestPlaces (e + 1) maxPlaces 1
    positional n places

end Binary64

/-- The text of a float: `3.0`, `-0.0`, `0.1`, `NaN`, `inf`, `-inf`. -/
def floatText (x : Float) : String :=
  match Binary64.ofFloat x with
  | some b => (if b.negative then "-" else "") ++ b.magnitudeText
  | none => if x.isNaN then "NaN" else if x < 0 then "-inf" else "inf"

end StagedFlow.Text
