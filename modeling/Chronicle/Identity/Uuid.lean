import Chronicle.Text.Numeral

/-!
# Universally unique identifiers

Identifiers of 128 bits and their texts.
-/

namespace Chronicle

/-- A universally unique identifier. -/
structure Uuid where
  bits : BitVec 128
deriving DecidableEq

namespace Uuid

/-- The lengths of the groups of digits between hyphens. -/
def groups : List Nat := [8, 4, 4, 4, 12]

/-- Cuts digits into groups of the given lengths, with hyphens between them. -/
def hyphenate : List Nat → List Char → List Char
  | [], digits => digits
  | [_], digits => digits
  | n :: ns, digits => digits.take n ++ '-' :: hyphenate ns (digits.drop n)

/-- The text with lower-case digits and hyphens. -/
def text (uuid : Uuid) : String :=
  String.ofList (hyphenate groups (Text.hexPadded 32 uuid.bits.toNat))

/-- The digits of a hyphenated text, if its hyphens stand where they belong. -/
def unhyphenate? : List Nat → List Char → Option (List Char)
  | [], s => if s.isEmpty then some [] else none
  | [n], s => if s.length = n then some s else none
  | n :: ns, s =>
    match s.drop n with
    | '-' :: rest => (unhyphenate? ns rest).map (s.take n ++ ·)
    | _ => none

/-- The identifier that 32 digits of either case write. -/
def ofDigits? (digits : List Char) : Option Uuid :=
  if digits.length = 32 then (Text.hexNumber? digits).map fun n => ⟨BitVec.ofNat 128 n⟩ else none

/--
The identifier that a text names: 32 digits, the hyphenated form, or the hyphenated form in braces or
after `urn:uuid:`.
-/
def ofText? (text : String) : Option Uuid :=
  let s := text.toList
  let hyphenated (s : List Char) : Option Uuid := (unhyphenate? groups s).bind ofDigits?
  if s.length = 32 then ofDigits? s
  else if s.length = 36 then hyphenated s
  else if s.length = 38 ∧ s.head? = some '\x7b' ∧ s.getLast? = some '\x7d' then
    hyphenated ((s.drop 1).take 36)
  else if s.length = 45 ∧ s.take 9 = "urn:uuid:".toList then hyphenated (s.drop 9)
  else none

end Uuid

end Chronicle
