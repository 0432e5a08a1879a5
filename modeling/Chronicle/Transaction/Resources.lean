import Chronicle.Event.Record

/-!
# Transaction resources

What is bound to a transaction while it lasts: the accumulator of change records, and other resources of
which there is one of each kind at most.
-/

namespace Chronicle

/-- The change records of a transaction. -/
structure Accumulator where
  records : List ChangeRecord := []
  /-- Whether the end of the transaction releases the accumulator. -/
  synchronized : Bool := false

/-- What is bound to a transaction. -/
structure Resources where
  accumulator : Option Accumulator := none
  /-- Resources by their kinds. -/
  bound : List (String × Int64) := []

namespace Resources

/-- The number of resources. -/
def size (r : Resources) : Nat := r.accumulator.toList.length + r.bound.length

/-- Whether there is no resource. -/
def isEmpty (r : Resources) : Bool := r.size = 0

/-- The resource of a kind. -/
def get? (r : Resources) (kind : String) : Option Int64 := r.bound.lookup kind

/-- Whether there is a resource of a kind. -/
def contains (r : Resources) (kind : String) : Bool := (r.get? kind).isSome

/-- The resources without the one of a kind. -/
def unbind (r : Resources) (kind : String) : Resources :=
  { r with bound := r.bound.filter (·.1 != kind) }

/-- The resources with one bound in place of any other of its kind. -/
def bind (r : Resources) (kind : String) (value : Int64) : Resources :=
  { r with bound := (r.unbind kind).bound ++ [(kind, value)] }

/-- The resource of a kind, or a value that is bound if there is none. -/
def getOrBind (r : Resources) (kind : String) (value : Int64) : Int64 × Resources :=
  match r.get? kind with
  | some present => (present, r)
  | none => (value, r.bind kind value)

/-- The resources without the accumulator. -/
def release (r : Resources) : Resources := { r with accumulator := none }

/-- The resources with all of them released. -/
def clear (_ : Resources) : Resources := {}

/-- The records in the accumulator. -/
def records (r : Resources) : List ChangeRecord :=
  (r.accumulator.map Accumulator.records).getD []

/-- The dump of resources. -/
def dump (r : Resources) : String := "Resources \x7b len: " ++ toString r.size ++ " \x7d"

end Resources

end Chronicle
