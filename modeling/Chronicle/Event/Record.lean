import Chronicle.Diff.Text
import Chronicle.Event.ChangeType
import Chronicle.Tracking.Store

/-!
# Change records

What is known of the changes of one entity in a transaction, and how later observations are merged into
it.

## Implementation notes

An entity is the same entity by its place in the store and not by its key, because a new one may have no
key yet. The record of a created entity names attributes and keeps no values.
-/

namespace Chronicle

/-- What is known of the changes of one entity. -/
structure ChangeRecord where
  entity : EntityId
  type : ChangeType
  diff : Diff
  /-- The name of the entity at the root of replacements. -/
  name : String

namespace ChangeRecord

/-- A record with a later observation of its entity merged into it: a deletion decides the type,
otherwise the first observation does. -/
def merge (record later : ChangeRecord) : ChangeRecord :=
  let type := if later.type = .deleted then .deleted else record.type
  { record with
    type := type
    diff := if type = .created then record.diff.mergeNames later.diff
      else record.diff.merge later.diff }

/-- Records with one observation merged into the record of its entity, or put after all others. -/
def absorb : List ChangeRecord → ChangeRecord → List ChangeRecord
  | [], later => [later]
  | record :: rest, later =>
    if record.entity = later.entity then record.merge later :: rest else record :: absorb rest later

/-- Records with observations merged into them one after another. -/
def absorbAll (records observed : List ChangeRecord) : List ChangeRecord := observed.foldl absorb records

/-- The dump of a record. -/
def dump (record : ChangeRecord) : String :=
  "ChangeEventInfo \x7b entity: " ++ Text.quoted record.name ++ ", change_type: " ++ record.type.name ++
    ", changes: " ++ record.diff.dump ++ " \x7d"

end ChangeRecord

end Chronicle
