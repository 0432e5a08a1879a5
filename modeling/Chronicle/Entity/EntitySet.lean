import Chronicle.Entity.Value

/-!
# Sets of objects

Sets of objects in the order of their insertion.

## Implementation notes

Membership goes by the identity of objects: two objects with one key are two items.
-/

namespace Chronicle

/-- A set of objects in the order of their insertion. -/
structure EntitySet where
  items : List Ref := []

namespace EntitySet

/-- Whether an object is in the set. -/
def contains (set : EntitySet) (r : Ref) : Bool := set.items.any (·.identity = r.identity)

/-- The set with an object put after all others unless it is there already, and whether it was put
there. -/
def insert (set : EntitySet) (r : Ref) : EntitySet × Bool :=
  if set.contains r then (set, false) else (⟨set.items ++ [r]⟩, true)

/-- The set without an object, and whether it was there. -/
def remove (set : EntitySet) (r : Ref) : EntitySet × Bool :=
  (⟨set.items.eraseP (·.identity = r.identity)⟩, set.contains r)

/-- The set of the objects in a list: of an object that is repeated the first occurrence counts. -/
def ofList (items : List Ref) : EntitySet :=
  items.foldl (fun set r => (set.insert r).1) {}

/-- The number of objects in a set. -/
def size (set : EntitySet) : Nat := set.items.length

/-- Whether a set holds no object. -/
def isEmpty (set : EntitySet) : Bool := set.items.isEmpty

/-- A set as a live value. -/
def toValue (set : EntitySet) : Value := .collection .set set.items

/-- The dump of a set. -/
def dump (set : EntitySet) : String :=
  Value.bracketed "\x7b" "\x7d" (set.items.map Ref.portrait)

end EntitySet

end Chronicle
