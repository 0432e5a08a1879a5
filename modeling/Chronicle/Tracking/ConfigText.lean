import Chronicle.Files.Tree
import Chronicle.Tracking.Config
import Chronicle.Yaml.Reader

/-!
# Configurations as YAML

Reading and writing the configuration of change tracking.
-/

namespace Chronicle

open Yaml (Node)

/-- The policy that a node chooses. -/
def PublishPolicy.ofNode? (node : Node) : Option PublishPolicy := node.variant?.bind ofName?

/-- Why there is no configuration. -/
inductive ConfigError where
  | unreadable (path : String) (cause : FileError)
  /-- The text is no configuration. -/
  | malformed
deriving DecidableEq, Repr

/-- The message for an error; for a text that is no configuration, without the reader's own words. -/
def ConfigError.message : ConfigError → String
  | .unreadable path cause => "Failed to read config file " ++ path ++ ": " ++ cause.message
  | .malformed => "Invalid config file"

namespace TrackingConfig

/-- A field of a configuration, or its default if it is missing. -/
def fieldOr {α : Type} (fields : String → Option Node) (name : String) (read? : Node → Option α)
    (default : α) : Option α :=
  match fields name with
  | some node => read? node
  | none => some default

/-- The configuration that a node writes; a missing field takes its default. -/
def ofNode? (node : Node) : Option TrackingConfig := do
  let defaults : TrackingConfig := {}
  let fields ← node.record? ["enabled", "require_transaction", "publish_policy"]
  let enabled ← fieldOr fields "enabled" Node.bool? defaults.enabled
  let required ← fieldOr fields "require_transaction" Node.bool? defaults.requireTransaction
  let policy ← fieldOr fields "publish_policy" PublishPolicy.ofNode? defaults.publishPolicy
  some ⟨enabled, required, policy⟩

/-- The configuration that a text writes. -/
def ofText (text : String) : Except ConfigError TrackingConfig :=
  match (Node.ofText? text).bind ofNode? with
  | some config => .ok config
  | none => .error .malformed

/-- The configuration in a file. -/
def load (files : FileTree) (path : String) : Except ConfigError TrackingConfig :=
  match files.read path with
  | .ok text => ofText text
  | .error cause => .error (.unreadable path cause)

/-- The text of a configuration. -/
def written (config : TrackingConfig) : String :=
  "enabled: " ++ toString config.enabled ++ "\n" ++
    "require_transaction: " ++ toString config.requireTransaction ++ "\n" ++
    "publish_policy: " ++ config.publishPolicy.name ++ "\n"

end TrackingConfig

end Chronicle
