import Chronicle.Entity.Value

/-!
# Change sets

What changed in one object since its changes were last collected: for every attribute the value before
its first change, and for an embedded object that was replaced by another one the attributes in which
the two differ.

## Implementation notes

A change set is a list of entries in the order of the first changes. Comparing two embedded objects
needs change sets of the objects embedded in them, so that the comparison recurs on the old object.
-/

namespace Chronicle

/-- What changed in an object, in the order of the first changes. -/
inductive ChangeSet where
  | nil
  /-- An attribute with the value before its first change. -/
  | direct (name : String) (old : Value) (rest : ChangeSet)
  /-- An embedded object with the object before its first change and what changed in it. -/
  | aggregate (name : String) (before : Value) (nested : ChangeSet) (rest : ChangeSet)

namespace ChangeSet

/-- An entry of a change set. -/
inductive Entry where
  | direct (old : Value)
  | aggregate (before : Value) (nested : ChangeSet)

/-- Whether a change set has no entry. -/
def isEmpty : ChangeSet → Bool
  | .nil => true
  | _ => false

/-- The names of the changed attributes. -/
def names : ChangeSet → List String
  | .nil => []
  | .direct name _ rest => name :: rest.names
  | .aggregate name _ _ rest => name :: rest.names

/-- The number of entries. -/
def size : ChangeSet → Nat
  | .nil => 0
  | .direct _ _ rest => rest.size + 1
  | .aggregate _ _ _ rest => rest.size + 1

/-- The entry of an attribute. -/
def get? (attr : String) : ChangeSet → Option Entry
  | .nil => none
  | .direct name old rest => if name = attr then some (.direct old) else rest.get? attr
  | .aggregate name before nested rest =>
    if name = attr then some (.aggregate before nested) else rest.get? attr

/-- A change set with an entry after all others. -/
def append (attr : String) (entry : Entry) : ChangeSet → ChangeSet
  | .nil =>
    match entry with
    | .direct old => .direct attr old .nil
    | .aggregate before nested => .aggregate attr before nested .nil
  | .direct name old rest => .direct name old (rest.append attr entry)
  | .aggregate name before nested rest => .aggregate name before nested (rest.append attr entry)

/-- A change set with the entry of an attribute replaced. -/
def replace (attr : String) (entry : Entry) : ChangeSet → ChangeSet
  | .nil => .nil
  | .direct name old rest =>
    if name = attr then
      match entry with
      | .direct other => .direct attr other rest
      | .aggregate before nested => .aggregate attr before nested rest
    else .direct name old (rest.replace attr entry)
  | .aggregate name before nested rest =>
    if name = attr then
      match entry with
      | .direct other => .direct attr other rest
      | .aggregate before nested => .aggregate attr before nested rest
    else .aggregate name before nested (rest.replace attr entry)

/-- The entries of another change set taken over where there is none; where both hold what changed in an
embedded object, the other's nested entries are taken over in the same way. -/
def mergeFirst (set : ChangeSet) : ChangeSet → ChangeSet
  | .nil => set
  | .direct name old rest =>
    match set.get? name with
    | some _ => set.mergeFirst rest
    | none => (set.append name (.direct old)).mergeFirst rest
  | .aggregate name before nested rest =>
    match set.get? name with
    | some (.aggregate first known) =>
      (set.replace name (.aggregate first (known.mergeFirst nested))).mergeFirst rest
    | some (.direct _) => set.mergeFirst rest
    | none => (set.append name (.aggregate before nested)).mergeFirst rest

/-- A change taken into account, given what it changed in the object that the attribute embeds. -/
def note (set : ChangeSet) (name : String) (old new : Value) (nested : ChangeSet) : ChangeSet :=
  if old.same new then set
  else
    match set.get? name, old, new with
    | none, .embedded _ _, .embedded _ _ =>
      if nested.isEmpty then set else set.append name (.aggregate old nested)
    | none, _, _ => set.append name (.direct old)
    | some (.direct _), _, _ => set
    | some (.aggregate before known), .embedded _ _, .embedded _ _ =>
      set.replace name (.aggregate before (known.mergeFirst nested))
    | some (.aggregate before _), _, _ => set.replace name (.direct before)

mutual

/-- What differs between two embedded objects. -/
def between : Value → Value → ChangeSet
  | .embedded type values, .embedded other others =>
    betweenFields type.fields values
      (fun name => (Value.propertyOf? other others name).getD .null) .nil
  | _, _ => .nil

/-- What differs in the properties among some fields, after what is known already. -/
def betweenFields : List Field → List Value → (String → Value) → ChangeSet → ChangeSet
  | field :: fields, value :: values, other, known =>
    betweenFields fields values other
      (if field.isProperty then
        known.note field.name value (other field.name) (between value (other field.name))
      else known)
  | _, _, _, known => known

end

/-- A change taken into account. -/
def record (set : ChangeSet) (name : String) (old new : Value) : ChangeSet :=
  set.note name old new (between old new)

/-- The dumps of the entries with their names. -/
def dumpEntries : ChangeSet → List String
  | .nil => []
  | .direct name old rest => (Text.quoted name ++ ": " ++ old.dump) :: rest.dumpEntries
  | .aggregate name _ nested rest =>
    (Text.quoted name ++ ": " ++ Value.bracketed "\x7b" "\x7d" nested.dumpEntries) :: rest.dumpEntries

/-- The dump of a change set. -/
def dump (set : ChangeSet) : String := Value.bracketed "\x7b" "\x7d" set.dumpEntries

end ChangeSet

end Chronicle
