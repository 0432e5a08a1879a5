import Chronicle.Identity.Token
import Chronicle.Time.Reader

/-!
# Scalars

Attribute values that refer to no object: truth values, 64-bit integers, floating-point numbers,
texts, identifiers and instants.

## Implementation notes

`Scalar.same` is the comparison by which a change is told from no change. It differs from equality
only on floating-point numbers, where it follows the comparison of numbers.
-/

namespace Chronicle

open Number (Double)
open Time (Instant)

/-- An attribute value that refers to no object. -/
inductive Scalar where
  | bool (value : Bool)
  | int (value : Int64)
  | uint (value : UInt64)
  | float (value : Double)
  | text (value : String)
  | uuid (value : Uuid)
  | instant (value : Instant)
deriving DecidableEq

namespace Scalar

/-- Whether two scalars are the same value. -/
def same : Scalar → Scalar → Bool
  | .float a, .float b => a.sameNumber b
  | a, b => a == b

/-- Whether a scalar is the floating-point value that differs from itself. -/
def isNaN : Scalar → Bool
  | .float value => value.isNaN
  | _ => false

/-- A key as a scalar. -/
def ofKey : Key → Scalar
  | .int value => .int value
  | .uint value => .uint value
  | .text value => .text value
  | .uuid value => .uuid value

/-- The key that a scalar is. -/
def key? : Scalar → Option Key
  | .int value => some (.int value)
  | .uint value => some (.uint value)
  | .text value => some (.text value)
  | .uuid value => some (.uuid value)
  | _ => none

/-- The name of a scalar's kind. -/
def kindName : Scalar → String
  | .bool _ => "bool"
  | .int _ => "int"
  | .uint _ => "uint"
  | .float _ => "float"
  | .text _ => "text"
  | .uuid _ => "uuid"
  | .instant _ => "datetime"

/-- The plain text of a scalar. -/
def written : Scalar → String
  | .bool value => toString value
  | .int value => toString value.toInt
  | .uint value => toString value.toNat
  | .float value => value.text
  | .text value => Text.quoted value
  | .uuid value => value.text
  | .instant value => value.text .offset

/-- The dump of a scalar. -/
def dump : Scalar → String
  | .bool value => s!"Bool({toString value})"
  | .int value => s!"Int({toString value.toInt})"
  | .uint value => s!"UInt({toString value.toNat})"
  | .float value => s!"Float({value.format .dump .double})"
  | .text value => s!"Text({Text.quoted value})"
  | .uuid value => s!"Uuid({value.text})"
  | .instant value => s!"DateTime({value.text .letter})"

/-- The JSON form of a scalar. -/
def toJson : Scalar → Json
  | .bool value => .ofMembers [("Bool", .bool value)]
  | .int value => .ofMembers [("Int", .ofInt value.toInt)]
  | .uint value => .ofMembers [("UInt", .ofInt value.toNat)]
  | .float value => .ofMembers [("Float", .ofDouble value)]
  | .text value => .ofMembers [("Text", .ofText value)]
  | .uuid value => .ofMembers [("Uuid", .ofText value.text)]
  | .instant value => .ofMembers [("DateTime", .ofText (value.text .letter))]

/-- Reads a scalar from its JSON form. -/
def ofJson? (levels : Nat) (json : Json) : Option Scalar := do
  let variant ← json.variant? levels
  let content ← variant.content
  match variant.name with
  | "Bool" => content.bool?.map .bool
  | "Int" => (content.integer?.bind int64?).map .int
  | "UInt" => (content.integer?.bind uint64?).map .uint
  | "Float" => content.double?.map .float
  | "Text" => content.text?.map .text
  | "Uuid" => (content.text?.bind Uuid.ofText?).map .uuid
  | "DateTime" => (content.text?.bind Instant.ofText?).map .instant
  | _ => none

end Scalar

end Chronicle
