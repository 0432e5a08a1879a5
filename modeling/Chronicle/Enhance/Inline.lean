import Chronicle.Enhance.Generated
import Chronicle.Enhance.Text

/-!
# Generation from texts

The code generated for an item that is given as a text, and an inline module with its classes enhanced
as the arguments beside it say.
-/

namespace Chronicle

namespace Enhance

open Source

/-- An item that may be asked to be an entity. -/
inductive Candidate where
  | struct (declared : Struct)
  /-- A type that is declared otherwise. -/
  | other

namespace Candidate

/-- Reads a candidate. -/
def read (meaning : Meaning) : Reading Candidate := do
  let attributes ← Attribute.readAll meaning false
  let visibility ← Visibility.read meaning
  if ← Reading.sees (.word "struct") then
    return .struct (← Struct.readAfter meaning attributes visibility)
  else if ← Reading.sees (.oneOf [[.word "enum"], [.word "union", .name]]) then
    let _ ← Reading.phrase meaning (.itemTail (visibility ≠ .inherited))
    return .other
  else failure

/-- The code that is generated for a candidate. -/
def generated : Candidate → Except DescriptionError Tokens
  | .struct declared => (Description.ofStruct declared).map Description.generated
  | .other => .error .notStruct

/-- The candidate that a text declares. -/
def ofText? (text : String) : Option Candidate := do
  readAll? read (← lex? text.toList)

end Candidate

/-- What can go wrong with an enhanced module. -/
inductive ModuleError where
  | invalidArgument (cause : OptionError)
  | notPair
  | notInline
  | enhancing (cause : EnhanceError)
deriving DecidableEq, Repr

namespace ModuleError

/-- The message for an error. -/
def message : ModuleError → String
  | .invalidArgument cause => cause.message
  | .notPair => "expected `key = \"value\"`"
  | .notInline => "#[enhance] requires an inline module"
  | .enhancing cause => cause.message

end ModuleError

namespace Naming

/-- The naming with one more argument taken into account. -/
def addArgument (naming : Naming) (argument : Meta) : Except ModuleError Naming :=
  match argument.body with
  | .value value => do
    let text ← (OptionList.text value).mapError .invalidArgument
    match OptionList.key argument with
    | "setter_prefix" => return { naming with setterPrefix := text }
    | "getter_prefix" => return { naming with getterPrefix := text }
    | "persistence_prefix" => return { naming with persistencePrefix := text }
    | key => .error (.invalidArgument (.unknown "enhance" key))
  | _ => .error .notPair

/-- The naming that arguments say. -/
def ofArguments (arguments : Tokens) : Except ModuleError Naming := do
  let arguments ← (OptionList.read arguments).mapError .invalidArgument
  arguments.foldlM addArgument {}

end Naming

/-- An item that is an inline module, with its classes enhanced. -/
def enhanceInline (naming : Naming) : Item → Except ModuleError Item
  | .module head items =>
    match (enhanceItems naming head.name items).result with
    | .ok (items, _) => .ok (.module head items)
    | .error cause => .error (.enhancing cause)
  | _ => .error .notInline

/-- The module that a text declares. -/
def moduleOfText? (text : String) : Option Item := do
  let item ← Item.ofTokens? (← lex? text.toList)
  match item with
  | .module .. | .outline _ => some item
  | _ => none

end Enhance

end Chronicle
