import Variation.Decimal.Binary64

/-!
# The shortest decimal of a value

Among the decimals that round to a value, the text of the value uses one with the fewest digits, and
of those the nearest. Both are decided on whole numbers: the reals that round to a value form an
interval, and a decimal grid is tried for one digit, two digits and so on. On each grid only the two
points around the value matter, for if any point of the grid lies in the interval, one of these two
does.
-/

namespace Variation.Decimal

/-- The decimal `digits * 10 ^ exponent`. -/
structure Scientific where
  digits : Nat
  exponent : Int
deriving DecidableEq

/-- The reals that round to a value, and the value itself, in quarters of a unit. -/
structure Interval where
  low : Nat
  value : Nat
  high : Nat
  /-- Whether the two ends round to the value as well. -/
  closed : Bool

/-- The interval of a value: half way to each neighbour. The neighbour below the first value of a
binade is only half as far away as the one above. The ends belong to the value with the even number
of steps. -/
def Binary64.interval (x : Binary64) : Interval :=
  let gap := 2 ^ (x.binade - 1)
  let below := if x.binade ≥ 2 ∧ x.steps % 2 ^ 52 = 0 then gap else 2 * gap
  let value := 4 * x.units
  ⟨value - below, value, value + 2 * gap, x.steps % 2 == 0⟩

/-- Two factors that make a grid point comparable with quarter units: the point `d * 10 ^ exponent`
lies below `q` quarter units when `d * (gridFactors exponent).2 < q * (gridFactors exponent).1`. -/
def gridFactors (exponent : Int) : Nat × Nat :=
  (10 ^ (-exponent).toNat, 10 ^ exponent.toNat * (4 * unitsPerOne))

namespace Interval

/-- Whether the grid point `d * 10 ^ exponent` rounds to the value. -/
def holds (i : Interval) (d : Nat) (exponent : Int) : Bool :=
  let (quarter, point) := gridFactors exponent
  let fromLow := compare (i.low * quarter) (d * point)
  let toHigh := compare (d * point) (i.high * quarter)
  (fromLow == .lt || (i.closed && fromLow == .eq)) && (toHigh == .lt || (i.closed && toHigh == .eq))

/-- The nearer of the two points of a grid around the value, the even one on a tie, among those that
round to the value. -/
def nearestOn? (i : Interval) (exponent : Int) : Option Nat :=
  let (quarter, point) := gridFactors exponent
  let below := i.value * quarter / point
  match i.holds below exponent, i.holds (below + 1) exponent with
  | true, false => some below
  | false, true => some (below + 1)
  | false, false => none
  | true, true =>
    match compare (2 * (i.value * quarter)) ((2 * below + 1) * point) with
    | .lt => some below
    | .gt => some (below + 1)
    | .eq => some (if below % 2 = 0 then below else below + 1)

end Interval

/-- A decimal without the zeros at the end of its digits. -/
def Scientific.stripped (d : Scientific) : Scientific :=
  if d.digits ≠ 0 ∧ d.digits % 10 = 0 then stripped ⟨d.digits / 10, d.exponent + 1⟩ else d
termination_by d.digits
decreasing_by omega

/-- The decimal places of a value before the point, counted down from the first digit that is not
zero: the least `k` such that the value is below `10 ^ k`. -/
def Binary64.magnitude (x : Binary64) : Int :=
  (Nat.toDigits 10 (x.units * 10 ^ 324 / unitsPerOne)).length - 324

/-- The shortest decimal of a value that is not zero. Seventeen digits are always enough; were they
not, the exact decimal of the value would be the answer. -/
def Binary64.shortest (x : Binary64) : Scientific :=
  let i := x.interval
  let found := (List.range 17).findSome? fun (n : Nat) =>
    let exponent := x.magnitude - (n + 1)
    (i.nearestOn? exponent).map fun digits => (⟨digits, exponent⟩ : Scientific)
  (found.getD ⟨x.units * 5 ^ 1074, -1074⟩).stripped

end Variation.Decimal
