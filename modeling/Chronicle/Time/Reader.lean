import Chronicle.Time.Instant

/-!
# Reading instants

The reader of instants accepts RFC 3339 with any offset, and is lenient where no other reading is
possible: blanks may surround the parts, fields may have fewer digits, a sign may stand before a
longer year, and `UTC` may stand for the offset.

## Implementation notes

Each step takes what it reads from the front of the text and returns the rest.
-/

namespace Chronicle

namespace Time

namespace Reader

/-- Blank characters, which may stand between the parts of an instant. -/
def isBlank (c : Char) : Bool :=
  c.isWhitespace || c = '\x0b' || c = '\x0c' || c = '\x85' || c = '\xa0' || c = '\u1680' ||
    ('\u2000' ≤ c && c ≤ '\u200a') || c = '\u2028' || c = '\u2029' || c = '\u202f' ||
    c = '\u205f' || c = '\u3000'

/-- The text after its leading blanks. -/
def skipBlanks (s : List Char) : List Char :=
  s.dropWhile isBlank

/-- A number of at least one and at most `width` digits, and the rest. -/
def number? (width : Nat) (s : List Char) : Option (Nat × List Char) :=
  let digits := (s.take width).takeWhile Char.isDigit
  if digits.isEmpty then none else some (Text.decimalValue digits, s.drop digits.length)

/-- A number after leading blanks. -/
def field? (width : Nat) (s : List Char) : Option (Nat × List Char) :=
  number? width (skipBlanks s)

/-- A year: up to four digits, or a sign and any number of digits. -/
def year? (s : List Char) : Option (Int × List Char) :=
  match skipBlanks s with
  | '-' :: rest => (number? rest.length rest).map fun (n, r) => (-(n : Int), r)
  | '+' :: rest => (number? rest.length rest).map fun (n, r) => ((n : Int), r)
  | rest => (number? 4 rest).map fun (n, r) => ((n : Int), r)

/-- The rest after one expected character. -/
def literal? (c : Char) : List Char → Option (List Char)
  | d :: rest => if d = c then some rest else none
  | [] => none

/-- The rest after blanks and one expected character. -/
def separator? (c : Char) (s : List Char) : Option (List Char) :=
  literal? c (skipBlanks s)

/-- The nanoseconds of a fraction; digits after the ninth are dropped. -/
def fraction? : List Char → Option (Nat × List Char)
  | '.' :: rest => do
    let digits := (rest.take 9).takeWhile Char.isDigit
    if digits.isEmpty then none
    else
      let scaled := Text.decimalValue digits * Nat.pow 10 (9 - digits.length)
      some (scaled, (rest.drop digits.length).dropWhile Char.isDigit)
  | rest => some (0, rest)

/-- Two digits. -/
def pair? : List Char → Option (Nat × List Char)
  | a :: b :: rest =>
    if a.isDigit && b.isDigit then some (Text.decimalValue [a, b], rest) else none
  | _ => none

/-- An offset from UTC in seconds. -/
def offset? (s : List Char) : Option (Int × List Char) :=
  let signed (negative : Bool) (rest : List Char) : Option (Int × List Char) := do
    let (hours, rest) ← pair? rest
    let (minutes, rest) ← pair? (rest.dropWhile fun c => c = ':' || isBlank c)
    if 60 ≤ minutes then none
    else
      let seconds : Int := (3600 * hours + 60 * minutes : Nat)
      if 86400 ≤ seconds then none else some (if negative then -seconds else seconds, rest)
  match s with
  | u :: t :: c :: rest =>
    if u.toLower = 'u' && t.toLower = 't' && c.toLower = 'c' then some (0, rest)
    else
      match u with
      | 'Z' | 'z' => some (0, t :: c :: rest)
      | '+' => signed false (t :: c :: rest)
      | '-' | '\u2212' => signed true (t :: c :: rest)
      | _ => none
  | 'Z' :: rest | 'z' :: rest => some (0, rest)
  | _ => none

/-- The first and the last year that an instant may lie in. -/
def yearRange : Int × Int := (-262143, 262142)

end Reader

open Reader in
/-- The instant that a text names, if it names one. -/
def Instant.ofText? (text : String) : Option Instant := do
  let (year, rest) ← year? text.toList
  let rest ← separator? '-' rest
  let (month, rest) ← field? 2 rest
  let rest ← separator? '-' rest
  let (day, rest) ← field? 2 rest
  let rest ←
    match rest with
    | 'T' :: rest | 't' :: rest | ' ' :: rest => some rest
    | _ => none
  let (hour, rest) ← field? 2 rest
  let rest ← separator? ':' rest
  let (minute, rest) ← field? 2 rest
  let rest ← separator? ':' rest
  let (second, rest) ← field? 2 rest
  let (nanoseconds, rest) ← fraction? rest
  let (offset, rest) ← offset? (skipBlanks rest)
  let date : Date := ⟨year, month, day⟩
  if (skipBlanks rest).isEmpty && date.isValid && hour < 24 && minute < 60 && second ≤ 60 &&
      yearRange.1 ≤ year && year ≤ yearRange.2 then
    let leap := second = 60
    let clock : Nat := 3600 * hour + 60 * minute + if leap then 59 else second
    let seconds := 86400 * date.toDays + clock - offset
    let shifted := (Date.ofDays (seconds / 86400)).year
    if yearRange.1 ≤ shifted && shifted ≤ yearRange.2 then
      some ⟨seconds, if leap then nanoseconds + secondNanoseconds else nanoseconds⟩
    else none
  else none

end Time

end Chronicle
