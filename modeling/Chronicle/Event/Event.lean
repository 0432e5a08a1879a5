import Chronicle.Diff.Json
import Chronicle.Event.Record

/-!
# Change events

What is published about an entity after its transaction: the content of an event, which can be sent
elsewhere, and the event itself, which also knows the entity.
-/

namespace Chronicle

/-- The content of an event. -/
structure Payload where
  /-- The name of the entity at the root of replacements. -/
  name : String
  /-- The token of the entity, if it has a key. -/
  token : Option Token
  type : ChangeType
  diff : Diff
deriving DecidableEq

/-- An event with the entity that it is about. -/
structure Event where
  source : EntityId
  payload : Payload
deriving DecidableEq

namespace Payload

/-- The plain text of an event. -/
def written (p : Payload) : String :=
  let subject :=
    match p.token with
    | some token => token.written
    | none => p.name ++ "-<new>"
  p.type.written ++ " " ++ subject ++ " " ++ p.diff.written

/-- The dump of an event. -/
def dump (p : Payload) : String :=
  let token :=
    match p.token with
    | some token => "Some(" ++ token.dump ++ ")"
    | none => "None"
  "EntityChangedEvent \x7b entity_name: " ++ Text.quoted p.name ++ ", entity_id: " ++ token ++
    ", change_type: " ++ p.type.name ++ ", changes: " ++ p.diff.dump ++ " \x7d"

/-- The JSON form of an event. -/
def toJson (p : Payload) : Json :=
  .ofMembers [("entity_name", .ofText p.name), ("entity_id", (p.token.map Token.toJson).getD .null),
    ("change_type", .ofText p.type.name), ("changes", p.diff.toJson)]

/-- Reads an optional token from its JSON form, if there is one. -/
def tokenOfJson? (levels : Nat) : Option Json → Option (Option Token)
  | none => some none
  | some .null => some none
  | some json => (Token.ofJson? levels json).map some

/-- Reads the content of an event from its JSON form; an object may leave the token out. -/
def ofJson? (levels : Nat) (json : Json) : Option Payload := do
  let (levels, fields) ← json.record? ["entity_name", "entity_id", "change_type", "changes"] levels
  let name ← (← fields "entity_name").text?
  let token ← tokenOfJson? levels (fields "entity_id")
  let type ← ChangeType.ofJson? levels (← fields "change_type")
  let diff ← Diff.ofJson? levels (← fields "changes")
  some ⟨name, token, type, diff⟩

/-- Reads the content of an event from a JSON text. -/
def ofJsonText? (text : String) : Option Payload :=
  (Json.ofText? text).bind (ofJson? Json.nestingLimit)

end Payload

namespace Event

/-- The name of the entity of an event. -/
def name (e : Event) : String := e.payload.name

/-- The type of an event. -/
def type (e : Event) : ChangeType := e.payload.type

/-- The plain text of an event. -/
def written (e : Event) : String := e.payload.written

end Event

namespace ChangeRecord

/-- The event of a record; the entity is asked for its key only now. -/
def toEvent (store : Store) (record : ChangeRecord) : Event where
  source := record.entity
  payload :=
    { name := record.name
      token := (store.get? record.entity).bind (·.object.identify.toOption)
      type := record.type
      diff := record.diff }

end ChangeRecord

end Chronicle
