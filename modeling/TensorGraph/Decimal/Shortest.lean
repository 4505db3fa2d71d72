import TensorGraph.Ieee.Format

/-!
# The shortest decimal of a binary number

Among all decimals that round to a given binary number, `Decimal.shortest` finds one with as few
digits as possible and, among those, the nearest to the number; of two equally near ones it takes
the larger. The search goes over the decimal grids `10 ^ k` from coarse to fine: on each grid only
the two neighbours of the number can lie in the interval that rounds to it.
-/

namespace TensorGraph

/-- The number `digits · 10 ^ exponent`. -/
structure Decimal where
  /-- The significant digits. -/
  digits : Nat
  /-- The power of ten of the last digit. -/
  exponent : Int
deriving DecidableEq, Repr

namespace Decimal

/-- The numbers that round to `value`: those between `low` and `high`, the ends included iff
`closed`. -/
structure Interval where
  /-- The number itself. -/
  value : Nat
  /-- Half way to the number below. -/
  low : Nat
  /-- Half way to the number above. -/
  high : Nat
  /-- Do the ends round to the number? -/
  closed : Bool

/-- Does `x` round to the number? -/
def Interval.contains (i : Interval) (x : Nat) : Bool :=
  if i.closed then i.low ≤ x && x ≤ i.high else i.low < x && x < i.high

/-- The number's neighbour on the grid of multiples of `step`, in steps, if one rounds to it. -/
def Interval.onGrid? (i : Interval) (step : Nat) : Option Nat :=
  let q := i.value / step
  let below := q * step
  let above := below + step
  match i.contains below, i.contains above with
  | true, true => some (if i.value - below < above - i.value then q else q + 1)
  | true, false => some q
  | false, true => some (q + 1)
  | false, false => none

/-- The first hit on the grids `10 ^ k`, `10 ^ (k - 1)`, …, `1`; the last one is the number. -/
def Interval.search (i : Interval) : Nat → Nat × Nat
  | 0 => (i.value, 0)
  | k + 1 =>
    match i.onGrid? (Nat.pow 10 (k + 1)) with
    | some q => (q, k + 1)
    | none => i.search k

/-- The interval of the finite number `m · 2 ^ e`, in quarters of its last place. The number below
a power of two is only half as far away, unless the numbers there have no leading one. -/
def Interval.ofSignificand (f : BinaryFormat) (m : Nat) (e : Int) : Interval where
  value := 4 * m
  low := if m = 1 <<< f.fractionBits ∧ f.leastExponent < e then 4 * m - 1 else 4 * m - 2
  high := 4 * m + 2
  closed := m % 2 = 0

/-- All four fields multiplied by `k`. -/
def Interval.scale (i : Interval) (k : Nat) : Interval where
  value := i.value * k
  low := i.low * k
  high := i.high * k
  closed := i.closed

/-- The shortest decimal that rounds to `m · 2 ^ e`. The interval is scaled to integers on the
finest decimal grid that holds the number itself. -/
def shortest (f : BinaryFormat) (m : Nat) (e : Int) : Decimal :=
  let quarter := e - 2
  let factor := if 0 ≤ quarter then 1 <<< quarter.toNat else Nat.pow 5 (-quarter).toNat
  let i := (Interval.ofSignificand f m e).scale factor
  let (digits, k) := i.search (i.high.log2 + 1)
  ⟨digits, min quarter 0 + k⟩

end Decimal

end TensorGraph
