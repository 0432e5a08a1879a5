import Chronicle.Entity.Object
import Chronicle.Tracking.Listener

/-!
# Entities

Objects with the state of their life cycle and with those who listen to their changes.

## Implementation notes

Only setters notify; a setter calls the getter of its property before and after its body runs and
announces the change when the two values differ. The listener of the persistence provider is told before
those of the application.
-/

namespace Chronicle

/-- The states in the life cycle of an entity. -/
inductive LifecycleState where
  /-- Not yet written by the persistence provider. -/
  | new
  | managed
  | deleted
deriving DecidableEq, Repr

/-- The name of a state. -/
def LifecycleState.name : LifecycleState → String
  | .new => "New"
  | .managed => "Managed"
  | .deleted => "Deleted"

/-- An object with its state and its listeners. -/
structure Entity where
  object : Object
  state : LifecycleState := .new
  /-- The listeners of the application, in the order in which they were added. -/
  listeners : List String := []
  changeListener : Option ChangeListener := none

/-- The body of a setter: it may change the fields of an object, and it may return early. -/
abbrev Body := ExceptT Unit (StateM Object) Unit

/-- The object after a body ran, whether to its end or to an early return. -/
def Body.result (body : Body) (o : Object) : Object := (body.run.run o).2

/-- A setter of an attribute. -/
structure Setter where
  name : String
  /-- The attribute that is announced. -/
  attr : String
  argument : FieldType
  body : Object → Value → Object
  /-- What is read before and after the body runs. -/
  getter : Object → Value
  /-- Whether the setter announces changes. -/
  notifies : Bool := true

/-- What the getter of an attribute reads that returns the attribute's field. -/
def Entity.read (o : Object) (attr : String) : Value := (o.field? attr).getD .null

/-- The setter that assigns its argument. -/
def Setter.assigning (name : String) (field : Field) (notifies : Bool) : Setter where
  name := name
  attr := field.name
  argument := field.type
  body := fun o value => o.assign field.name value
  getter := (Entity.read · field.name)
  notifies := notifies

namespace Entity

/-- The dump of an entity's entry. -/
def entryDump (e : Entity) : String :=
  Value.entryDump e.state.name e.listeners.length e.changeListener.isSome

/-- A copy of an entity: it keeps the state and has no listeners. -/
def copy (e : Entity) : Entity := ⟨e.object, e.state, [], none⟩

/-- A reference to a copy of an entity. -/
def toRef (e : Entity) (identity : Nat) : Ref := e.object.toRef identity e.copy.entryDump

/-- The entity with a listener added, unless it listens already. -/
def listen (e : Entity) (listener : String) : Entity :=
  if e.listeners.contains listener then e else { e with listeners := e.listeners ++ [listener] }

/-- The entity without a listener. -/
def unlisten (e : Entity) (listener : String) : Entity :=
  { e with listeners := e.listeners.filter (· != listener) }

/-- The entity with the recorded changes forgotten. -/
def clearChanges (e : Entity) : Entity :=
  { e with changeListener := e.changeListener.map ChangeListener.cleared }

/-- Who is told of the changes of an entity, in the order of telling. -/
def recipients (e : Entity) : List Recipient :=
  (e.changeListener.map fun _ => .changeListener).toList ++ e.listeners.map .listener

/-- The entity after a change was announced, and the notices of it. -/
def announce (e : Entity) (change : PropertyChange) : Entity × List Notice :=
  if change.old.same change.new then (e, [])
  else
    ({ e with changeListener := e.changeListener.map (·.notified change) },
      e.recipients.map fun recipient => ⟨recipient, change⟩)

/-- The entity after the body of a setter ran between two reads of a getter, and the notices of the
change. A body that returns early leaves itself alone: what follows it is done in any case. -/
def perform (e : Entity) (attr : String) (getter : Object → Value) (body : Body) :
    Entity × List Notice :=
  let previous := getter e.object
  let object := body.result e.object
  { e with object := object }.announce ⟨attr, previous, getter object⟩

/-- The entity after a setter was called, and the notices of the change. -/
def call (e : Entity) (setter : Setter) (value : Value) : Entity × List Notice :=
  let body : Body := modify (setter.body · value)
  if setter.notifies then e.perform setter.attr setter.getter body
  else ({ e with object := body.result e.object }, [])

/-- The entity after a property was set by name, the notices of that, and the answer. -/
def write (e : Entity) (name : String) (value : Value) :
    (Entity × List Notice) × Except ModelError Unit :=
  match e.object.set name value with
  | .ok object => (({ e with object := object }, []), .ok ())
  | .error cause => ((e, []), .error cause)

end Entity

end Chronicle
