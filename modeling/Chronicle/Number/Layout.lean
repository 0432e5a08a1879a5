/-!
# Binary floating-point numbers

Binary floating-point numbers as bit patterns, together with their exact magnitudes `m * 2 ^ q` and
the rounding of a ratio of natural numbers to the nearest magnitude.

## Implementation notes

A number is held by its bits, so that two numbers are the same exactly when their bits are, and all
arithmetic is arithmetic on natural numbers. `Double.sameNumber` is the comparison of numbers, under
which a NaN differs from itself and the two zeros agree.
-/

namespace Chronicle

namespace Number

/-- The widths of the two fields of a binary floating-point format. -/
structure Layout where
  fractionBits : Nat
  exponentBits : Nat

/-- The format with 64 bits. -/
def Layout.double : Layout := ⟨52, 11⟩

/-- The format with 32 bits. -/
def Layout.single : Layout := ⟨23, 8⟩

namespace Layout

/-- The exponent of the smallest magnitudes. -/
def leastExponent (layout : Layout) : Int :=
  2 - Int.pow 2 (layout.exponentBits - 1) - layout.fractionBits

/-- The exponent of the largest magnitudes. -/
def greatestExponent (layout : Layout) : Int :=
  Int.pow 2 (layout.exponentBits - 1) - 1 - layout.fractionBits

end Layout

/-- The exact magnitude `mantissa * 2 ^ exponent`. -/
structure Magnitude where
  mantissa : Nat
  exponent : Int
deriving DecidableEq

/-- The quotient rounded to the nearest natural number, a half going to the even neighbour. -/
def roundDiv (num den : Nat) : Nat :=
  let floor := num / den
  let twice := 2 * (num % den)
  if twice < den then floor
  else if den < twice then floor + 1
  else if floor % 2 = 0 then floor
  else floor + 1

namespace Magnitude

/-- Zero in a layout. -/
def zero (layout : Layout) : Magnitude :=
  ⟨0, layout.leastExponent⟩

/-- Numerator and denominator of a magnitude. -/
def ratio (x : Magnitude) : Nat × Nat :=
  if 0 ≤ x.exponent then (x.mantissa * Nat.pow 2 x.exponent.toNat, 1)
  else (x.mantissa, Nat.pow 2 (-x.exponent).toNat)

/--
The magnitude of a layout nearest to `num / den`, a tie going to the even mantissa, or `none` when
the ratio rounds beyond the largest magnitude.
-/
def ofRatio? (layout : Layout) (num den : Nat) : Option Magnitude :=
  if num = 0 then some (zero layout)
  else
    let scaled (q : Int) : Nat × Nat :=
      if 0 ≤ q then (num, den * Nat.pow 2 q.toNat) else (num * Nat.pow 2 (-q).toNat, den)
    let guess : Int := (Nat.log2 num : Int) - Nat.log2 den - layout.fractionBits - 1
    let low := max guess layout.leastExponent
    let carry := Nat.pow 2 (layout.fractionBits + 1)
    let q := if (scaled low).1 / (scaled low).2 < carry then low else low + 1
    let rounded := roundDiv (scaled q).1 (scaled q).2
    let result : Magnitude :=
      if rounded = carry then ⟨Nat.pow 2 layout.fractionBits, q + 1⟩
      else ⟨rounded, q⟩
    if layout.greatestExponent < result.exponent then none else some result

end Magnitude

/-- A 64-bit floating-point number, as its bits. -/
structure Double where
  bits : UInt64
deriving DecidableEq

/-- What the bits of a number stand for. -/
inductive Reading where
  | nan
  | infinite (negative : Bool)
  | finite (negative : Bool) (magnitude : Magnitude)

namespace Double

/-- The number that a bit pattern stands for. -/
def read (x : Double) : Reading :=
  let n : Nat := x.bits.toNat
  let negative := n / Nat.pow 2 63 == 1
  let biased : Nat := n / Nat.pow 2 52 % Nat.pow 2 11
  let fraction : Nat := n % Nat.pow 2 52
  if biased = 2047 then
    if fraction = 0 then .infinite negative else .nan
  else if biased = 0 then .finite negative ⟨fraction, Layout.double.leastExponent⟩
  else .finite negative ⟨Nat.pow 2 52 + fraction, Layout.double.leastExponent + biased - 1⟩

/-- The bits of a number with the given sign and the other 63 bits. -/
def ofFields (negative : Bool) (rest : Nat) : Double :=
  ⟨UInt64.ofNat ((if negative then Nat.pow 2 63 else 0) + rest)⟩

/-- The infinite number of a sign. -/
def infinity (negative : Bool) : Double :=
  ofFields negative (2047 * Nat.pow 2 52)

/-- The number with a sign and a magnitude of the 64-bit layout. -/
def ofMagnitude (negative : Bool) (x : Magnitude) : Double :=
  if x.mantissa < Nat.pow 2 52 then ofFields negative x.mantissa
  else
    let biased := (x.exponent - Layout.double.leastExponent + 1).toNat
    ofFields negative (biased * Nat.pow 2 52 + (x.mantissa - Nat.pow 2 52))

/-- The one bit pattern used for every result that is no number. -/
def nan : Double :=
  ofFields false (2047 * Nat.pow 2 52 + Nat.pow 2 51)

/-- Whether the bits stand for no number. -/
def isNaN (x : Double) : Bool :=
  match x.read with
  | .nan => true
  | _ => false

/-- Whether the bits stand for a finite number. -/
def isFinite (x : Double) : Bool :=
  match x.read with
  | .finite .. => true
  | _ => false

/-- The zero of a sign. -/
def zero (negative : Bool) : Double :=
  ofFields negative 0

/--
Equality of numbers: a NaN is equal to nothing, the two zeros are equal, and otherwise the bits
decide.
-/
def sameNumber (x y : Double) : Bool :=
  !x.isNaN && !y.isNaN &&
    (x == y || (x.bits.toNat % Nat.pow 2 63 == 0 && y.bits.toNat % Nat.pow 2 63 == 0))

/-- The number nearest to a natural number. -/
def ofNat (negative : Bool) (n : Nat) : Double :=
  match Magnitude.ofRatio? .double n 1 with
  | some x => ofMagnitude negative x
  | none => infinity negative

/-- The number of the 32-bit layout nearest to a number, in the 64-bit layout. -/
def toSingle (x : Double) : Double :=
  match x.read with
  | .nan => nan
  | .infinite negative => infinity negative
  | .finite negative magnitude =>
    let (num, den) := magnitude.ratio
    match Magnitude.ofRatio? .single num den with
    | none => infinity negative
    | some single =>
      let (num, den) := single.ratio
      match Magnitude.ofRatio? .double num den with
      | some double => ofMagnitude negative double
      | none => infinity negative

/-- The largest power of ten below the range of the 64-bit layout. -/
def greatestPower : Nat := 308

/-- The magnitude nearest to a power of ten. -/
def powerOfTen? (n : Nat) : Option Magnitude :=
  Magnitude.ofRatio? .double (Nat.pow 10 n) 1

/-- The magnitude nearest to the product with a power of ten, itself rounded. -/
def scaleUp? (x : Magnitude) (power : Nat) : Option Magnitude := do
  let factor ← powerOfTen? power
  let (n₁, d₁) := x.ratio
  let (n₂, d₂) := factor.ratio
  Magnitude.ofRatio? .double (n₁ * n₂) (d₁ * d₂)

/-- The magnitude nearest to the quotient by a power of ten, itself rounded. -/
def scaleDown? (x : Magnitude) (power : Nat) : Option Magnitude := do
  let factor ← powerOfTen? power
  let (n₁, d₁) := x.ratio
  let (n₂, d₂) := factor.ratio
  Magnitude.ofRatio? .double (n₁ * d₂) (d₁ * n₂)

/-- Division by `10 ^ exponent` in steps of at most the greatest power of ten. -/
def scaleDownSteps? : Nat → Magnitude → Nat → Option Magnitude
  | 0, x, exponent => scaleDown? x exponent
  | steps + 1, x, exponent =>
    if exponent ≤ greatestPower then scaleDown? x exponent
    else if x.mantissa = 0 then some x
    else do
      let smaller ← scaleDown? x greatestPower
      scaleDownSteps? steps smaller (exponent - greatestPower)

/--
The number `significand * 10 ^ exponent`, computed as the significand rounded to a magnitude and
then scaled by a rounded power of ten; `none` when the result is too large.
-/
def ofDecimal? (negative : Bool) (significand : Nat) (exponent : Int) : Option Double := do
  let start ← Magnitude.ofRatio? .double significand 1
  if 0 ≤ exponent then
    if exponent.toNat ≤ greatestPower then
      let scaled ← scaleUp? start exponent.toNat
      some (ofMagnitude negative scaled)
    else if significand = 0 then some (ofMagnitude negative start)
    else none
  else
    let down := (-exponent).toNat
    let scaled ← scaleDownSteps? (down / greatestPower) start down
    some (ofMagnitude negative scaled)

end Double

end Number

end Chronicle
