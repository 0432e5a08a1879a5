import Chronicle.Json.Reader

/-!
# Decoding JSON

The pieces from which readers of domain values are put together: numbers of a range, records with
named fields, and choices between named variants.

## Implementation notes

Every array and object that a reader enters uses up one level of nesting, and a text may not use up
all of them. A record may be written as an object, in which unknown fields are skipped and a known
field must not be repeated, or as an array of its fields in order.
-/

namespace Chronicle

namespace Json

/-- The number of levels of nesting that readers may not use up. -/
def nestingLimit : Nat := 128

/-- The levels that remain inside an array or object, if it may be entered. -/
def enter? : Nat → Option Nat
  | 0 | 1 => none
  | levels + 2 => some (levels + 1)

/-- The text of a string. -/
def text? : Json → Option String
  | .string text => text
  | _ => none

/-- The truth value of a constant. -/
def bool? : Json → Option Bool
  | .bool value => some value
  | _ => none

/-- The integer of a number that is written as one. -/
def integer? : Json → Option Int
  | .number literal =>
    match numeric? literal with
    | some (.integer value) => some value
    | _ => none
  | _ => none

/-- The floating-point number of a number. -/
def double? : Json → Option Number.Double
  | .number literal =>
    match numeric? literal with
    | some (.integer value) => some (Number.Double.ofNat (value < 0) value.natAbs)
    | some (.float value) => some value
    | none => none
  | _ => none

/-- The items of an array, with the levels that remain inside it. -/
def items? (levels : Nat) : Json → Option (Nat × List Json)
  | .array items => (enter? levels).map (·, items)
  | _ => none

/-- The members of an object, with the levels that remain inside it. -/
def members? (levels : Nat) : Json → Option (Nat × List (String × Json))
  | .object members => do
    let levels ← enter? levels
    let members ← members.mapM fun (name, value) => name.map (·, value)
    some (levels, members)
  | _ => none

/-- The fields of a record by name. -/
abbrev Fields := String → Option Json

/-- The fields of a record with the given field names, with the levels that remain inside it. -/
def record? (names : List String) (levels : Nat) : Json → Option (Nat × Fields)
  | .array items => do
    let levels ← enter? levels
    if items.length = names.length then
      some (levels, fun name => (names.zip items).lookup name)
    else none
  | value => do
    let (levels, members) ← value.members? levels
    if names.all fun name => (members.filter (·.1 == name)).length ≤ 1 then
      some (levels, fun name => members.lookup name)
    else none

/-- A variant's name and, unless the variant is written as a bare string, its content. -/
structure Variant where
  name : String
  content : Option Json
  levels : Nat

/-- The variant that a value writes. -/
def variant? (levels : Nat) : Json → Option Variant
  | .string text => text.map (⟨·, none, levels⟩)
  | value => do
    let (levels, members) ← value.members? levels
    match members with
    | [(name, content)] => some ⟨name, some content, levels⟩
    | _ => none

/-- Whether a variant carries nothing. -/
def Variant.isBare (variant : Variant) : Bool :=
  match variant.content with
  | none | some .null => true
  | _ => false

end Json

end Chronicle
