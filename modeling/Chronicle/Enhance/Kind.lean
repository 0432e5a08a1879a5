import Chronicle.Entity.Kind
import Chronicle.Source.TypeExpr

/-!
# Kinds of types

What a declared type says about a property: whether it can express that nothing is set, and what kind
of value it holds.
-/

namespace Chronicle

namespace Enhance

open Source

/-- Types without a value for what is not set. -/
def primitiveTypes : List String :=
  ["bool", "char", "i8", "i16", "i32", "i64", "i128", "isize", "u8", "u16", "u32", "u64", "u128",
    "usize", "f32", "f64"]

/-- The name of a primitive type; parentheses and types handed on as a whole are looked into. -/
def primitiveName? : TypeExpr → Option String
  | .bare inner => primitiveName? inner
  | .paren inner => primitiveName? inner
  | .named [] name [] => if primitiveTypes.contains name then some name else none
  | _ => none

/-- The type that an optional type makes optional. -/
def unwrapOption? (type : TypeExpr) : Option TypeExpr :=
  if type.lastName? = some "Option" then type.argument? else none

/-- The kind of value that a type holds; embedded objects are not told apart by their type. -/
def inferKind (type : TypeExpr) : PropertyKind :=
  let held := (unwrapOption? type).getD type
  match held.lastName? with
  | some "Arc" => .reference
  | some "EntitySet" => .collection
  | some "Vec" =>
    if (held.argument?.bind TypeExpr.lastName?) = some "Arc" then .collection else .scalar
  | _ => .scalar

end Enhance

end Chronicle
