import Chronicle.Text.Numeral
import Chronicle.Time.Calendar

/-!
# Instants

Points in time with nanoseconds, and their RFC 3339 texts.

## Implementation notes

An instant counts seconds since the first of January 1970 UTC, rounded down, and the nanoseconds that
follow. Nanoseconds from one thousand million on stand for a leap second: the second is shown as `60`.
-/

namespace Chronicle

namespace Time

/-- A point in time. -/
structure Instant where
  /-- Seconds since the first of January 1970 UTC, rounded down. -/
  seconds : Int
  nanoseconds : Nat
deriving DecidableEq

/-- How a text marks that a time is UTC. -/
inductive UtcMark where
  /-- The letter `Z`. -/
  | letter
  /-- The offset `+00:00`. -/
  | offset

/-- The number of nanoseconds in a second. -/
def secondNanoseconds : Nat := 1000000000

namespace Instant

/-- The year with at least four digits, and with a sign outside 0 to 9999. -/
def yearText (year : Int) : List Char :=
  if 0 ≤ year ∧ year ≤ 9999 then Text.decimalPadded 4 year.toNat
  else (if year < 0 then '-' else '+') :: Text.decimalPadded 4 year.natAbs

/-- The fraction of a second with the fewest of no, three, six or nine digits that are exact. -/
def fractionText (nanoseconds : Nat) : List Char :=
  if nanoseconds = 0 then []
  else if nanoseconds % 1000000 = 0 then '.' :: Text.decimalPadded 3 (nanoseconds / 1000000)
  else if nanoseconds % 1000 = 0 then '.' :: Text.decimalPadded 6 (nanoseconds / 1000)
  else '.' :: Text.decimalPadded 9 nanoseconds

/-- The RFC 3339 text of an instant. -/
def text (mark : UtcMark) (instant : Instant) : String :=
  let date := Date.ofDays (instant.seconds / 86400)
  let second := (instant.seconds % 86400).toNat
  let leap := secondNanoseconds ≤ instant.nanoseconds
  let two := Text.decimalPadded 2
  String.ofList <|
    yearText date.year ++ '-' :: two date.month ++ '-' :: two date.day ++
    'T' :: two (second / 3600) ++ ':' :: two (second / 60 % 60) ++
    ':' :: two (if leap then second % 60 + 1 else second % 60) ++
    fractionText (instant.nanoseconds % secondNanoseconds) ++
    match mark with
    | .letter => ['Z']
    | .offset => ['+', '0', '0', ':', '0', '0']

end Instant

end Time

end Chronicle
