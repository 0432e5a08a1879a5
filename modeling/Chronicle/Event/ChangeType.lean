import Chronicle.Json.Decode

/-!
# Change types

What happened to an entity as a whole.
-/

namespace Chronicle

/-- What happened to an entity. -/
inductive ChangeType where
  | created
  | updated
  | deleted
deriving DecidableEq, Repr

namespace ChangeType

/-- The plain text of a change type. -/
def written : ChangeType → String
  | .created => "CREATED"
  | .updated => "UPDATED"
  | .deleted => "DELETED"

/-- The name of a change type in dumps and in JSON. -/
def name : ChangeType → String
  | .created => "Created"
  | .updated => "Updated"
  | .deleted => "Deleted"

/-- Reads a change type from its JSON form. -/
def ofJson? (levels : Nat) (json : Json) : Option ChangeType := do
  let variant ← json.variant? levels
  if variant.isBare then
    match variant.name with
    | "Created" => some .created
    | "Updated" => some .updated
    | "Deleted" => some .deleted
    | _ => none
  else none

end ChangeType

end Chronicle
