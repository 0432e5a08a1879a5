import Chronicle.Tracking.ChangeSet

/-!
# Change sources

What can be asked about the changes of an object: whether there are any, which attributes changed in
which order, and what is recorded for each. A change set answers these questions, and so does any list of
answers.
-/

namespace Chronicle

/-- What a source records, in the order of the changes. -/
inductive Recording where
  | nil
  /-- A changed attribute for which nothing else is recorded. -/
  | bare (name : String) (rest : Recording)
  | value (name : String) (old : Value) (rest : Recording)
  /-- An embedded object as a source of its own. -/
  | aggregate (name : String) (hasChanges : Bool) (nested : Recording) (rest : Recording)

/-- A source of changes. -/
structure Source where
  hasChanges : Bool
  recording : Recording

/-- What a source records for an attribute. -/
inductive Recorded where
  | value (old : Value)
  | aggregate (source : Source)

namespace Recording

/-- Whether nothing is recorded. -/
def isEmpty : Recording → Bool
  | .nil => true
  | _ => false

/-- What is recorded for an attribute, from the first entry of its name. -/
def old? (attr : String) : Recording → Option Recorded
  | .nil => none
  | .bare name rest => if name = attr then none else rest.old? attr
  | .value name old rest => if name = attr then some (.value old) else rest.old? attr
  | .aggregate name hasChanges nested rest =>
    if name = attr then some (.aggregate ⟨hasChanges, nested⟩) else rest.old? attr

/-- The names of the changed attributes, in the order of the changes. -/
def names : Recording → List String
  | .nil => []
  | .bare name rest => name :: rest.names
  | .value name _ rest => name :: rest.names
  | .aggregate name _ _ rest => name :: rest.names

end Recording

namespace Source

/-- The names of the changed attributes, in the order of the changes. -/
def names (s : Source) : List String := s.recording.names

/-- What is recorded for an attribute. -/
def old? (s : Source) (name : String) : Option Recorded := s.recording.old? name

end Source

namespace ChangeSet

/-- What a change set records. -/
def recording : ChangeSet → Recording
  | .nil => .nil
  | .direct name old rest => .value name old rest.recording
  | .aggregate name _ nested rest =>
    .aggregate name (!nested.isEmpty) nested.recording rest.recording

/-- A change set as a source. -/
def toSource (set : ChangeSet) : Source := ⟨!set.isEmpty, set.recording⟩

end ChangeSet

end Chronicle
