import Chronicle.Diff.Basic

/-!
# The JSON form of diffs

## Implementation notes

A diff that is read keeps its changes as they are written, also when a name occurs more than once. Of
nested diffs with one name the last is kept, and they are put into the order of their names.
-/

namespace Chronicle

namespace Change

/-- The JSON form of a change. -/
def toJson (change : Change) : Json :=
  .ofMembers [("name", .ofText change.name), ("old_value", change.old.toJson)]

/-- Reads a change from its JSON form. -/
def ofJson? (levels : Nat) (json : Json) : Option Change := do
  let (levels, fields) ← json.record? ["name", "old_value"] levels
  let name ← (← fields "name").text?
  let old ← OldValue.ofJson? levels (← fields "old_value")
  some ⟨name, old⟩

end Change

namespace Diff

/-- The JSON form of a diff with the given nested members. -/
def jsonWith (changes : List Change) (nested : List (String × Json)) : Json :=
  .ofMembers [("changes", .array (changes.map Change.toJson)), ("embedded", .ofMembers nested)]

/-- The JSON members of the nested diffs. -/
def jsonNested : Diff → List (String × Json)
  | .plain _ => []
  | .nest name nested rest => (name, jsonWith nested.changes nested.jsonNested) :: rest.jsonNested

/-- The JSON form of a diff. -/
def toJson (diff : Diff) : Json :=
  jsonWith diff.changes diff.jsonNested

/-- Puts nested diffs around plain changes; of those with one name the last is kept. -/
def ofParts (changes : List Change) (nested : List (String × Diff)) : Diff :=
  nested.foldl (fun diff (name, inner) => diff.upsert name (fun _ => inner) inner) (.plain changes)

/--
Reads a diff from its JSON form. Every nested diff lies two levels deeper, so that the number of
levels bounds the recursion.
-/
def readJson? : Nat → Nat → Json → Option Diff
  | 0, _, _ => none
  | depth + 1, levels, json => do
    let (levels, fields) ← json.record? ["changes", "embedded"] levels
    let (inner, items) ← (← fields "changes").items? levels
    let changes ← items.mapM (Change.ofJson? inner)
    let (inner, members) ← (← fields "embedded").members? levels
    let nested ← members.mapM fun (name, value) => (readJson? depth inner value).map (name, ·)
    some (ofParts changes nested)

/-- Reads a diff from its JSON form. -/
def ofJson? (levels : Nat) (json : Json) : Option Diff :=
  readJson? levels levels json

/-- Reads a diff from a JSON text. -/
def ofJsonText? (text : String) : Option Diff :=
  (Json.ofText? text).bind (ofJson? Json.nestingLimit)

end Diff

end Chronicle
