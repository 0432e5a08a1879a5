import Chronicle.Json.Basic
import Chronicle.Number.Style

/-!
# JSON numbers

How the literal of a JSON number is taken apart, and what number it stands for.

## Implementation notes

An integer literal that fits 64 bits stands for an integer; every other literal stands for a
floating-point number. Its digits are gathered into a significand of at most 64 bits, and digits
beyond that only move the exponent, so that a long literal is rounded more than once.
-/

namespace Chronicle

namespace Json

/-- The parts of a number literal. -/
structure Literal where
  negative : Bool
  whole : List Char
  /-- The digits after the point; none if there is no point. -/
  fraction : List Char
  /-- The exponent's sign and digits, if there is an exponent. -/
  exponent : Option (Bool × List Char)

namespace Literal

/-- The characters of a literal. -/
def text (l : Literal) : List Char :=
  (if l.negative then ['-'] else []) ++ l.whole ++
    (if l.fraction.isEmpty then [] else '.' :: l.fraction) ++
    match l.exponent with
    | none => []
    | some (negative, digits) => 'e' :: ((if negative then ['-'] else []) ++ digits)

/-- The fraction at the front of a text: a point and at least one digit. -/
def fraction? : List Char → Option (List Char × List Char)
  | '.' :: rest =>
    let digits := rest.takeWhile Char.isDigit
    if digits.isEmpty then none else some (digits, rest.dropWhile Char.isDigit)
  | rest => some ([], rest)

/-- The exponent at the front of a text: a letter, a sign or none, and at least one digit. -/
def exponent? : List Char → Option (Option (Bool × List Char) × List Char)
  | c :: rest =>
    if c = 'e' ∨ c = 'E' then
      let (negative, rest) :=
        match rest with
        | '-' :: rest => (true, rest)
        | '+' :: rest => (false, rest)
        | rest => (false, rest)
      let digits := rest.takeWhile Char.isDigit
      if digits.isEmpty then none
      else some (some (negative, digits), rest.dropWhile Char.isDigit)
    else some (none, c :: rest)
  | [] => some (none, [])

/-- The literal at the front of a text. A leading zero stands alone. -/
def read? (s : List Char) : Option (Literal × List Char) := do
  let (negative, s) :=
    match s with
    | '-' :: rest => (true, rest)
    | rest => (false, rest)
  let whole := s.takeWhile Char.isDigit
  if whole.isEmpty || (whole.head? = some '0' && 1 < whole.length) then none
  else
    let (fraction, s) ← fraction? (s.dropWhile Char.isDigit)
    let (exponent, s) ← exponent? s
    some (⟨negative, whole, fraction, exponent⟩, s)

end Literal

/-- The number that a literal stands for. -/
inductive Numeric where
  | integer (value : Int)
  | float (value : Number.Double)

/-- The bound of the significand and of unsigned integers. -/
def wordBound : Nat := Nat.pow 2 64

/-- The bound of an exponent. -/
def exponentBound : Nat := Nat.pow 2 31

/-- A significand, and the power of ten that it counts. -/
structure Scaled where
  significand : Nat
  exponent : Int

namespace Scaled

/-- Appends digits of the whole part; from the first that does not fit, each only scales. -/
def appendWhole (x : Scaled) : List Char → Scaled
  | [] => x
  | c :: rest =>
    let next := 10 * x.significand + (c.toNat - 48)
    if next < wordBound then appendWhole ⟨next, x.exponent⟩ rest
    else ⟨x.significand, x.exponent + (rest.length + 1 : Nat)⟩

/-- Appends digits of the fraction, up to the first that does not fit. -/
def appendFraction (x : Scaled) : List Char → Scaled
  | [] => x
  | c :: rest =>
    let next := 10 * x.significand + (c.toNat - 48)
    if next < wordBound then appendFraction ⟨next, x.exponent - 1⟩ rest else x

end Scaled

namespace Literal

/-- The floating-point number of a literal, or `none` if it is too large. -/
def float? (l : Literal) : Option Number.Double :=
  let x := (Scaled.appendWhole ⟨0, 0⟩ l.whole).appendFraction l.fraction
  match l.exponent with
  | none => Number.Double.ofDecimal? l.negative x.significand x.exponent
  | some (negative, digits) =>
    let size := Text.decimalValue digits
    if size < exponentBound then
      Number.Double.ofDecimal? l.negative x.significand
        (if negative then x.exponent - size else x.exponent + size)
    else if x.significand ≠ 0 ∧ negative = false then none
    else some (Number.Double.zero l.negative)

/-- The number of a literal, or `none` if it is too large. -/
def numeric? (l : Literal) : Option Numeric :=
  let size := Text.decimalValue l.whole
  if l.fraction.isEmpty && l.exponent.isNone then
    if l.negative then
      if size ≠ 0 ∧ size ≤ Nat.pow 2 63 then some (.integer (-(size : Int)))
      else l.float?.map .float
    else if size < wordBound then some (.integer size)
    else l.float?.map .float
  else l.float?.map .float

end Literal

/-- The number that a literal's characters stand for. -/
def numeric? (literal : List Char) : Option Numeric :=
  match Literal.read? literal with
  | some (l, []) => l.numeric?
  | _ => none

/-- The JSON number of a floating-point number; one that is not finite has none. -/
def ofDouble (x : Number.Double) : Json :=
  if x.isFinite then .number (x.format .json .double).toList else .null

end Json

end Chronicle
