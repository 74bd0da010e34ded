import StagedFlow.Value.Basic

/-!
Counted ranges: the integers from a start in equal steps, as long as they lie before a stop. Main
definitions: `Counting.length`, `Counting.nth`, `Counting.values`, `Value.counting?`.
-/
set_option autoImplicit false

namespace StagedFlow

structure Counting where
  start : Int64
  stop : Int64
  step : Int64
  deriving Repr, DecidableEq

namespace Counting

/-- The largest count that is reported. -/
def maxLength : Nat := 0xffffffffffffffff

/-- How many integers there are, computed without overflow; a zero step gives none. -/
def length (c : Counting) : Nat :=
  let start := c.start.toInt
  let stop := c.stop.toInt
  let step := c.step.toInt
  let count :=
    if 0 < step ∧ start < stop then (stop - start + step - 1) / step
    else if step < 0 ∧ stop < start then (start - stop - step - 1) / -step
    else 0
  min count.toNat maxLength

/-- The integer at position `k`. -/
def nth (c : Counting) (k : Nat) : Int64 :=
  Int64.ofInt (c.start.toInt + k * c.step.toInt)

/-- The first integers, at most `limit` of them. -/
def first (c : Counting) (limit : Nat) : List Int64 :=
  (List.range (min limit c.length)).map c.nth

def values (c : Counting) : List Int64 :=
  (List.range c.length).map c.nth

end Counting

/-- The bounds of a range value, when all three are integers. -/
def Value.counting? : Value → Option Counting
  | .range start stop step => do
    let start ← start.toInt?
    let stop ← stop.toInt?
    let step ← step.toInt?
    return ⟨start, stop, step⟩
  | _ => Option.none

end StagedFlow
