import Chronicle.Entity.Scalar

/-!
# Old values

What a diff keeps of the value that an attribute had: a scalar, or tokens in place of the objects that
the attribute referred to.
-/

namespace Chronicle

/-- Whether a collection is an ordered list or an unordered set. -/
inductive CollectionKind where
  | list
  | set
deriving DecidableEq

namespace CollectionKind

/-- The name of a kind in dumps and in JSON. -/
def name : CollectionKind → String
  | .list => "List"
  | .set => "Set"

/-- Reads a kind from its JSON form. -/
def ofJson? (levels : Nat) (json : Json) : Option CollectionKind := do
  let variant ← json.variant? levels
  if variant.isBare then
    match variant.name with
    | "List" => some .list
    | "Set" => some .set
    | _ => none
  else none

end CollectionKind

/-- The value that an attribute had, without any object. -/
inductive OldValue where
  | null
  | scalar (value : Scalar)
  | reference (token : Token)
  | collection (kind : CollectionKind) (tokens : List Token)
deriving DecidableEq

namespace OldValue

/-- Whether there was no value. -/
def isNull : OldValue → Bool
  | .null => true
  | _ => false

/-- The token of a reference. -/
def reference? : OldValue → Option Token
  | .reference token => some token
  | _ => none

/-- The kind and the tokens of a collection. -/
def collection? : OldValue → Option (CollectionKind × List Token)
  | .collection kind tokens => some (kind, tokens)
  | _ => none

/-- Whether two old values are the same, with scalars compared as values. -/
def same : OldValue → OldValue → Bool
  | .scalar a, .scalar b => a.same b
  | a, b => a == b

/-- The plain text of an old value. -/
def written : OldValue → String
  | .null => "null"
  | .scalar value => value.written
  | .reference token => token.written
  | .collection _ tokens => "[" ++ ", ".intercalate (tokens.map Token.written) ++ "]"

/-- The dump of an old value. -/
def dump : OldValue → String
  | .null => "Null"
  | .scalar value => "Scalar(" ++ value.dump ++ ")"
  | .reference token => "Reference(" ++ token.dump ++ ")"
  | .collection kind tokens =>
    "Collection(IdCollection \x7b kind: " ++ kind.name ++ ", ids: [" ++
      ", ".intercalate (tokens.map Token.dump) ++ "] \x7d)"

/-- The JSON form of an old value. -/
def toJson : OldValue → Json
  | .null => .ofText "Null"
  | .scalar value => .ofMembers [("Scalar", value.toJson)]
  | .reference token => .ofMembers [("Reference", token.toJson)]
  | .collection kind tokens =>
    .ofMembers [("Collection",
      .ofMembers [("kind", .ofText kind.name), ("ids", .array (tokens.map Token.toJson))])]

/-- Reads an old value from its JSON form. -/
def ofJson? (levels : Nat) (json : Json) : Option OldValue := do
  let variant ← json.variant? levels
  match variant.name, variant.content with
  | "Null", _ => if variant.isBare then some .null else none
  | "Scalar", some content => (Scalar.ofJson? variant.levels content).map .scalar
  | "Reference", some content => (Token.ofJson? variant.levels content).map .reference
  | "Collection", some content => do
    let (levels, fields) ← content.record? ["kind", "ids"] variant.levels
    let kind ← CollectionKind.ofJson? levels (← fields "kind")
    let (levels, items) ← (← fields "ids").items? levels
    let tokens ← items.mapM (Token.ofJson? levels)
    some (.collection kind tokens)
  | _, _ => none

end OldValue

end Chronicle
