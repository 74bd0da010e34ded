import StagedFlow.Fault
import StagedFlow.Value.Basic

/-!
Arithmetic on scalars. Comparisons go through floats. Division always gives a float, and so does
every operation with a float operand. Sums, differences and products of integers wrap at 64 bits;
quotients and remainders go to the floor, and where a step of their computation leaves 64 bits they
crash. Main definitions: `floorQuotient`, `floorRemainder`,
`wrappingPow`, `floatPowInt`, `Scalar.binary`, `Scalar.negate`.
-/
set_option autoImplicit false

namespace StagedFlow

/-- An integer result that has to fit in 64 bits. -/
def checkedInt64 (n : Int) : Outcome Int64 :=
  if -0x8000000000000000 ≤ n ∧ n < 0x8000000000000000 then .ok (Int64.ofInt n) else .crash .overflow

/-- The quotient rounded to the floor: the quotient with a remainder that is not negative, less one
where the divisor is negative and the division is not exact. -/
def floorQuotient (a b : Int64) : Outcome Int64 :=
  if b = 0 then .fault .divisionByZero
  else do
    let quotient ← checkedInt64 (a.toInt / b.toInt)
    checkedInt64 (quotient.toInt - if b < 0 ∧ a.toInt % b.toInt ≠ 0 then 1 else 0)

/-- The remainder with the sign of the divisor: the remainder of truncated division, plus the
divisor, reduced once more. The smallest integer has no remainder by minus one. -/
def floorRemainder (a b : Int64) : Outcome Int64 :=
  if b = 0 then .fault .divisionByZero
  else if a = Int64.minValue ∧ b = -1 then .crash .overflow
  else do
    let sum ← checkedInt64 (a.toInt.tmod b.toInt + b.toInt)
    return Int64.ofInt (sum.toInt.tmod b.toInt)

/-- `a ^ e` modulo 64 bits by repeated squaring, for an exponent of at most `bits` bits. -/
def wrappingPow : Nat → Int64 → Nat → Int64
  | 0, _, _ => 1
  | bits + 1, a, e =>
    let rest := wrappingPow bits (a * a) (e / 2)
    if e % 2 = 1 then a * rest else rest

/-- `r * a ^ n` by repeated squaring, the low bits first, for an exponent of at most `bits` bits. -/
def floatPowNat : Nat → Float → Float → Nat → Float
  | 0, _, r, _ => r
  | bits + 1, a, r, n =>
    let r := if n % 2 = 1 then r * a else r
    if n / 2 = 0 then r else floatPowNat bits (a * a) r (n / 2)

/-- A float to an integer power; a negative power is the inverse of the positive one. -/
def floatPowInt (a : Float) (e : Int) : Float :=
  let r := floatPowNat 32 a 1 e.natAbs
  if e < 0 then 1 / r else r

/-- An integer to an integer power. The exponent counts modulo 2 ^ 32; a negative one, cut to 32
bits with its sign, gives a float. -/
def intPow (a b : Int64) : Scalar :=
  if 0 ≤ b then .int (wrappingPow 32 a (b.toInt.toNat % 0x100000000))
  else .float (floatPowInt (Float.ofInt a.toInt) (b.toInt.bmod 0x100000000))

namespace Scalar

def compare (op : BinaryOp) (a b : Float) : Bool :=
  match op with
  | .lt => a < b
  | .gt => b < a
  | .le => a ≤ b
  | .ge => b ≤ a
  | .eq => a == b
  | _ => a != b

def floatArith (op : BinaryOp) (a b : Float) : Float :=
  match op with
  | .add => a + b
  | .sub => a - b
  | .mul => a * b
  | .div => a / b
  | .floorDiv => (a / b).floor
  | .mod => a - b * (a / b).floor
  | _ => Float.pow a b

def intArith (op : BinaryOp) (a b : Int64) : Outcome Scalar :=
  match op with
  | .add => .ok (.int (a + b))
  | .sub => .ok (.int (a - b))
  | .mul => .ok (.int (a * b))
  | .floorDiv => (floorQuotient a b).map .int
  | .mod => (floorRemainder a b).map .int
  | _ => .ok (intPow a b)

/-- A binary operation on two scalars. -/
def binary (op : BinaryOp) (a b : Scalar) : Outcome Scalar :=
  if op.isComparison then .ok (.bool (compare op a.toFloat b.toFloat))
  else
    match op, a.toInt?, b.toInt? with
    | .div, _, _ => .ok (.float (floatArith op a.toFloat b.toFloat))
    | _, some m, some n => intArith op m n
    | _, _, _ => .ok (.float (floatArith op a.toFloat b.toFloat))

/-- The negative of a scalar; the smallest integer has none. -/
def negate : Scalar → Outcome Scalar
  | bool b => .ok (.int (-(bit b)))
  | int n => (checkedInt64 (-n.toInt)).map .int
  | float x => .ok (.float (-x))

/-- Logic on two numbers; `not` does not occur with two operands. -/
def logical (op : LogicalOp) (a b : Scalar) : Scalar :=
  match op with
  | .or => .bool (a.truthy || b.truthy)
  | _ => .bool (a.truthy && b.truthy)

end Scalar

end StagedFlow
