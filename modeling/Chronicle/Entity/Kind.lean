/-!
# Property kinds

What kind of value a property holds.
-/

namespace Chronicle

/-- The kinds of properties. -/
inductive PropertyKind where
  | scalar
  | reference
  | collection
  | embedded
deriving DecidableEq, Repr

namespace PropertyKind

/-- The name of a kind. -/
def name : PropertyKind → String
  | .scalar => "Scalar"
  | .reference => "Reference"
  | .collection => "Collection"
  | .embedded => "Embedded"

end PropertyKind

end Chronicle
