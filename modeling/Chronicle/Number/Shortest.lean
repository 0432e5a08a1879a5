import Chronicle.Number.Layout

/-!
# Shortest decimals

The decimal with the fewest digits that rounds to a given magnitude, and among those the nearest to
it.

## Implementation notes

The magnitude and the two ends of the interval that rounds to it are held as multiples of a quarter
of the unit in the last place, so that every comparison is one of natural numbers. For one digit, two
digits and so on up to seventeen, the two neighbours on the decimal grid are tried; the first grid
with a neighbour in the interval gives the answer.
-/

namespace Chronicle

namespace Number

/-- The decimal `digits * 10 ^ exponent`. -/
structure Decimal where
  digits : Nat
  exponent : Int
deriving DecidableEq

namespace Decimal

/-- The decimal without trailing zeros, given a bound on their number. -/
def strip : Nat → Decimal → Decimal
  | 0, x => x
  | bound + 1, x =>
    if x.digits ≠ 0 ∧ x.digits % 10 = 0 then strip bound ⟨x.digits / 10, x.exponent + 1⟩ else x

/-- The numeral of the digits. -/
def numeral (x : Decimal) : List Char :=
  Nat.toDigits 10 x.digits

/-- The exponent of the leading digit. -/
def scientificExponent (x : Decimal) : Int :=
  x.exponent + (x.numeral.length : Int) - 1

end Decimal

/-- The numbers that round to a magnitude, in quarters of its unit in the last place. -/
structure RoundingInterval where
  low : Nat
  middle : Nat
  high : Nat
  /-- The exponent of the quarter unit. -/
  exponent : Int
  /-- Whether the two ends round to the magnitude as well. -/
  closed : Bool

namespace RoundingInterval

/-- The interval of a magnitude; below a power of two the lower half is narrower. -/
def ofMagnitude (layout : Layout) (x : Magnitude) : RoundingInterval where
  low :=
    if x.mantissa = Nat.pow 2 layout.fractionBits ∧ layout.leastExponent < x.exponent then
      4 * x.mantissa - 1
    else 4 * x.mantissa - 2
  middle := 4 * x.mantissa
  high := 4 * x.mantissa + 2
  exponent := x.exponent - 2
  closed := x.mantissa % 2 = 0

/-- The factors that turn quarter units and multiples of `10 ^ grid` into one common unit. -/
def factors (interval : RoundingInterval) (grid : Int) : Nat × Nat :=
  let up (q : Int) : Nat := q.toNat
  (Nat.pow 2 (up interval.exponent) * Nat.pow 10 (up (-grid)),
    Nat.pow 2 (up (-interval.exponent)) * Nat.pow 10 (up grid))

/-- Whether `n * 10 ^ grid` lies in the interval. -/
def holds (interval : RoundingInterval) (grid : Int) (n : Nat) : Bool :=
  let (quarter, step) := interval.factors grid
  if interval.closed then
    interval.low * quarter ≤ n * step && n * step ≤ interval.high * quarter
  else
    interval.low * quarter < n * step && n * step < interval.high * quarter

/-- The neighbour of the middle on a decimal grid that lies in the interval, the nearer of two. -/
def neighbour? (interval : RoundingInterval) (grid : Int) : Option Nat :=
  let (quarter, step) := interval.factors grid
  let middle := interval.middle * quarter
  let floor := middle / step
  match interval.holds grid floor, interval.holds grid (floor + 1) with
  | true, true => some (roundDiv middle step)
  | true, false => some floor
  | false, true => some (floor + 1)
  | false, false => none

/-- The first decimal found when the grid is refined one digit at a time. -/
def refine (interval : RoundingInterval) : Nat → Int → Option Decimal
  | 0, _ => none
  | tries + 1, grid =>
    match interval.neighbour? grid with
    | some digits => some ⟨digits, grid⟩
    | none => refine interval tries (grid - 1)

/-- The exponent of ten just above the middle, found by raising an estimate from below. -/
def decimalMagnitude (interval : RoundingInterval) : Nat → Int → Int
  | 0, guess => guess
  | tries + 1, guess =>
    let (quarter, step) := interval.factors guess
    if interval.middle * quarter < step then guess
    else decimalMagnitude interval tries (guess + 1)

end RoundingInterval

/-- The number of decimal digits that tell all numbers of the layouts in use apart. -/
def sufficientDigits : Nat := 17

/-- The decimal with the fewest digits that rounds to the magnitude, the nearest of those. -/
def Magnitude.shortest (layout : Layout) (x : Magnitude) : Decimal :=
  if x.mantissa = 0 then ⟨0, 0⟩
  else
    let interval := RoundingInterval.ofMagnitude layout x
    let binary : Int := (Nat.log2 interval.middle : Int) + interval.exponent
    let above := interval.decimalMagnitude 4 ((binary * 30103).fdiv 100000 - 1)
    match interval.refine sufficientDigits (above - 1) with
    | some decimal => decimal.strip sufficientDigits
    | none => ⟨0, 0⟩

end Number

end Chronicle
