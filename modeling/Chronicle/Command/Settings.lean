import Chronicle.Enhance.Text
import Chronicle.Yaml.Reader

/-!
# Settings

The configuration file of the command: how accessors are named.
-/

namespace Chronicle

open Yaml (Node)

namespace Enhance.Naming

/-- The naming that a node writes; a missing field takes its default. -/
def ofNode? (node : Node) : Option Naming := do
  let fields ← node.record? fieldNames
  let known := fieldNames.filterMap fun name => (fields name).map (name, ·)
  return ofParts (← known.mapM fun (name, content) => content.text?.map (name, ·))

/-- The dump of a naming. -/
def dump (n : Naming) : String :=
  "EnhancerOptions \x7b setter_prefix: " ++ Text.quoted n.setterPrefix ++ ", getter_prefix: " ++
    Text.quoted n.getterPrefix ++ ", persistence_prefix: " ++ Text.quoted n.persistencePrefix ++ " \x7d"

end Enhance.Naming

namespace Command

/-- The naming that the text of a configuration file writes. -/
def namingOfText? (text : String) : Option Enhance.Naming := do
  let fields ← (← Node.ofText? text).record? ["enhancer"]
  match fields "enhancer" with
  | some node => Enhance.Naming.ofNode? node
  | none => some {}

/-- The dump of settings. -/
def settingsDump (naming : Enhance.Naming) : String :=
  "Config \x7b enhancer: " ++ naming.dump ++ " \x7d"

end Command

end Chronicle
