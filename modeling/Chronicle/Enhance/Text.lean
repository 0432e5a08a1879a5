import Chronicle.Enhance.Scope
import Chronicle.Json.Decode

/-!
# Reading structs, types and namings

Single structs and types as texts of their own, and namings of accessors as JSON.
-/

namespace Chronicle

namespace Enhance

open Source

/-- The struct that a text declares. -/
def structOfText? (text : String) : Option Struct := do
  match ← Item.ofTokens? (← lex? text.toList) with
  | .struct declared => some declared
  | _ => none

/-- The type that a text writes; `whole` tells whether it is handed on as a whole. -/
def typeOfText? (text : String) (whole : Bool) : Option TypeExpr := do
  let tokens ← lex? text.toList
  readAll? (TypeExpr.read · true) (if whole then group .bare tokens else tokens)

namespace Naming

/-- The names of a naming's fields where it is written as data. -/
def fieldNames : List String := ["setter_prefix", "getter_prefix", "persistence_prefix"]

/-- The naming with some of its parts given. -/
def ofParts (parts : List (String × String)) : Naming where
  setterPrefix := (parts.lookup "setter_prefix").getD ({} : Naming).setterPrefix
  getterPrefix := (parts.lookup "getter_prefix").getD ({} : Naming).getterPrefix
  persistencePrefix := (parts.lookup "persistence_prefix").getD ({} : Naming).persistencePrefix

/-- The naming that a JSON value writes, as an object or as an array of the first fields; a missing
field takes its default. -/
def ofJson? (json : Json) : Option Naming := do
  match json with
  | .array items =>
    if fieldNames.length < items.length then none
    else return ofParts (fieldNames.zip (← items.mapM Json.text?))
  | value =>
    let (_, members) ← value.members? Json.nestingLimit
    let known := members.filter fun (name, _) => fieldNames.contains name
    return ofParts (← known.mapM fun (name, content) => content.text?.map (name, ·))

end Naming

end Enhance

end Chronicle
