/-!
# Configuration of change tracking
-/

namespace Chronicle

/-- What happens to the events after one that a subscriber failed on. -/
inductive PublishPolicy where
  /-- They are not published. -/
  | abortOnFirstError
  /-- They are published, and all failures are reported in the end. -/
  | continueOnError
deriving DecidableEq, Repr

/-- The name of a policy. -/
def PublishPolicy.name : PublishPolicy → String
  | .abortOnFirstError => "abort_on_first_error"
  | .continueOnError => "continue_on_error"

/-- The policy of a name. -/
def PublishPolicy.ofName? (name : String) : Option PublishPolicy :=
  [PublishPolicy.abortOnFirstError, .continueOnError].find? (·.name = name)

/-- How changes are tracked. -/
structure TrackingConfig where
  /-- Whether changes are collected at all. -/
  enabled : Bool := true
  /-- Whether a transaction without synchronization is refused. -/
  requireTransaction : Bool := true
  publishPolicy : PublishPolicy := .abortOnFirstError
deriving DecidableEq, Repr

end Chronicle
