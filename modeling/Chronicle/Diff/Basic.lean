import Chronicle.Diff.OldValue

/-!
# Diffs

A diff says which attributes of an entity changed and what they were before. Plain attributes carry an
old value, in the order in which they were recorded; an attribute that holds an embedded object
carries a diff of its own, in the order of the names.

## Implementation notes

A diff is its list of plain changes with any number of nested diffs put before it, so that the type is
its own tree of nested diffs and every function on diffs is one recursion. `changes` and `embedded`
are the two views of it.
-/

namespace Chronicle

/-- A plain attribute with the value it had. -/
structure Change where
  name : String
  old : OldValue
deriving DecidableEq

/-- Plain changes together with nested diffs of embedded attributes. -/
inductive Diff where
  /-- Plain changes without nested diffs. -/
  | plain (changes : List Change)
  /-- A nested diff before those of the rest. -/
  | nest (name : String) (nested : Diff) (rest : Diff)
deriving DecidableEq

namespace Diff

/-- The diff without any change. -/
def empty : Diff := .plain []

/-- The plain changes, in the order of their recording. -/
def changes : Diff → List Change
  | .plain changes => changes
  | .nest _ _ rest => rest.changes

/-- The nested diffs by name, in the order of the names. -/
def embedded : Diff → List (String × Diff)
  | .plain _ => []
  | .nest name nested rest => (name, nested) :: rest.embedded

/-- The nested diff of a name. -/
def nested? (name : String) : Diff → Option Diff
  | .plain _ => none
  | .nest n nested rest => if n = name then some nested else rest.nested? name

/-- The diff with its plain changes transformed. -/
def mapChanges (f : List Change → List Change) : Diff → Diff
  | .plain changes => .plain (f changes)
  | .nest name nested rest => .nest name nested (rest.mapChanges f)

/-- Records a change; a change of the same name keeps its place and takes the new old value. -/
def record (change : Change) : List Change → List Change
  | [] => [change]
  | c :: rest => if c.name = change.name then ⟨c.name, change.old⟩ :: rest
    else c :: record change rest

/-- Adds a plain change. -/
def add (diff : Diff) (change : Change) : Diff :=
  diff.mapChanges (record change)

/-- Adds plain changes one after another. -/
def addAll (diff : Diff) (changes : List Change) : Diff :=
  changes.foldl add diff

/-- The diff with the given plain changes, added one after another. -/
def ofChanges (changes : List Change) : Diff :=
  empty.addAll changes

/--
Puts a nested diff at its place among the names; where the name has a nested diff already, that one is
transformed instead.
-/
def upsert : Diff → String → (Diff → Diff) → Diff → Diff
  | .plain changes, name, _, absent => .nest name absent (.plain changes)
  | .nest n nested rest, name, present, absent =>
    if n = name then .nest n (present nested) rest
    else if name < n then .nest name absent (.nest n nested rest)
    else .nest n nested (rest.upsert name present absent)

/-- `later.mergeInto earlier` is the union of two diffs, in which the later one's old values win. -/
def mergeInto : Diff → Diff → Diff
  | .plain changes, earlier => earlier.addAll changes
  | .nest name nested rest, earlier =>
    rest.mergeInto (earlier.upsert name (fun present => nested.mergeInto present) nested)

/-- The union of two diffs, in which the later one's old values win. -/
def merge (earlier later : Diff) : Diff :=
  later.mergeInto earlier

/-- Adds a nested diff; it is merged into one of the same name. -/
def addEmbedded (diff : Diff) (name : String) (nested : Diff) : Diff :=
  diff.upsert name (fun present => present.merge nested) nested

/-- The names of the plain changes, then those of the nested diffs. -/
def topNames (diff : Diff) : List String :=
  diff.changes.map Change.name ++ diff.embedded.map Prod.fst

/-- Whether a name has a plain change or a nested diff. -/
def mentions (diff : Diff) (name : String) : Bool :=
  diff.topNames.contains name

/-- Adds the names of another diff that are not there yet, each with a null old value. -/
def mergeNames (diff other : Diff) : Diff :=
  other.topNames.foldl
    (fun acc name =>
      if acc.mentions name then acc else acc.mapChanges (· ++ [⟨name, .null⟩]))
    diff

/-- Whether nothing changed. -/
def isEmpty (diff : Diff) : Bool :=
  diff.changes.isEmpty && diff.embedded.isEmpty

/-- The number of plain changes and nested diffs. -/
def size (diff : Diff) : Nat :=
  diff.changes.length + diff.embedded.length

/-- The dotted paths of the changes inside nested diffs. -/
def nestedPaths : Diff → List String
  | .plain _ => []
  | .nest name nested rest =>
    (nested.changes.map Change.name ++ nested.nestedPaths).map (fun path => name ++ "." ++ path) ++
      rest.nestedPaths

/-- The paths of all changes; a change inside a nested diff stands behind its name and a dot. -/
def attributes (diff : Diff) : List String :=
  diff.changes.map Change.name ++ diff.nestedPaths

end Diff

end Chronicle
