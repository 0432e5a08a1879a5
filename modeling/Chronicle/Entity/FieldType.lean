import Chronicle.Entity.Kind

/-!
# Field types

The types of the fields of entities, the way they are written, and the kind of value they hold.
-/

namespace Chronicle

/-- Widths of integers. -/
inductive Width where
  | w8
  | w16
  | w32
  | w64
deriving DecidableEq, Repr

/-- The number of bits of a width. -/
def Width.bits : Width → Nat
  | .w8 => 8
  | .w16 => 16
  | .w32 => 32
  | .w64 => 64

/-- The type of a field; targets are named by the types of the objects. -/
inductive FieldType where
  | signed (width : Width)
  | unsigned (width : Width)
  /-- Floating-point numbers of 32 bits. -/
  | single
  /-- Floating-point numbers of 64 bits. -/
  | double
  | bool
  | text
  | uuid
  | instant
  | reference (target : String)
  | list (target : String)
  | set (target : String)
  | embedded (target : String)
  /-- A type that also has a value for what is not set. -/
  | optional (inner : FieldType)
deriving DecidableEq, Repr

namespace FieldType

/-- The written form of a type, with blanks between its tokens. -/
def written : FieldType → String
  | .signed width => "i" ++ toString width.bits
  | .unsigned width => "u" ++ toString width.bits
  | .single => "f32"
  | .double => "f64"
  | .bool => "bool"
  | .text => "String"
  | .uuid => "Uuid"
  | .instant => "DateTime < Utc >"
  | .reference target => "Arc < " ++ target ++ " >"
  | .list target => "Vec < Arc < " ++ target ++ " > >"
  | .set target => "EntitySet < " ++ target ++ " >"
  | .embedded target => target
  | .optional inner => "Option < " ++ inner.written ++ " >"

/-- A type without its optional layers. -/
def base : FieldType → FieldType
  | .optional inner => inner.base
  | type => type

/-- The number of optional layers. -/
def layers : FieldType → Nat
  | .optional inner => inner.layers + 1
  | _ => 0

/-- The kind of a property of a type. -/
def kind (type : FieldType) : PropertyKind :=
  match type.base with
  | .reference _ => .reference
  | .list _ => .collection
  | .set _ => .collection
  | .embedded _ => .embedded
  | _ => .scalar

end FieldType

end Chronicle
