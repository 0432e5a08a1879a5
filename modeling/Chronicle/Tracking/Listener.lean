import Chronicle.Tracking.Source

/-!
# Listeners

What is told of the changes of an entity, and what a persistence provider installs on an entity to
remember them.

## Implementation notes

The listeners of an application are known by their names; what they do with a notice is their own
matter, so that telling them is a list of notices in the order in which they are told.
-/

namespace Chronicle

/-- A change of an attribute. -/
structure PropertyChange where
  property : String
  old : Value
  new : Value

/-- Who is told of a change. -/
inductive Recipient where
  /-- What the persistence provider installed. -/
  | changeListener
  /-- A listener of the application. -/
  | listener (name : String)
deriving DecidableEq, Repr

/-- That someone is told of a change. -/
structure Notice where
  recipient : Recipient
  change : PropertyChange

/-- What a persistence provider installs on an entity. -/
inductive ChangeListener where
  /-- Remembers the changes that it is told of. -/
  | recording (changes : ChangeSet)
  /-- Answers from elsewhere: it takes no notice of changes and cannot be cleared. -/
  | fixed (source : Source)

namespace ChangeListener

/-- A listener that remembers changes and knows of none yet. -/
def fresh : ChangeListener := .recording .nil

/-- What a listener knows of the changes. -/
def source : ChangeListener → Source
  | .recording changes => changes.toSource
  | .fixed source => source

/-- A listener after it was told of a change. -/
def notified (change : PropertyChange) : ChangeListener → ChangeListener
  | .recording changes => .recording (changes.record change.property change.old change.new)
  | .fixed source => .fixed source

/-- A listener after it was told to forget all changes. -/
def cleared : ChangeListener → ChangeListener
  | .recording _ => .recording .nil
  | .fixed source => .fixed source

/-- The dump of a listener. -/
def dump : ChangeListener → String
  | .recording changes => "MemAttributeChangeListener \x7b changes: " ++ changes.dump ++ " \x7d"
  | .fixed _ => "ChangeSource"

end ChangeListener

end Chronicle
