import Chronicle.Diff.Basic

/-!
# Texts of diffs

The plain text of a diff, its dump and its comparison.
-/

namespace Chronicle

namespace Change

/-- The plain text of a change. -/
def written (change : Change) : String :=
  change.name ++ "=" ++ change.old.written

/-- The dump of a change. -/
def dump (change : Change) : String :=
  "AttributeChange \x7b name: " ++ Text.quoted change.name ++ ", old_value: " ++ change.old.dump ++
    " \x7d"

end Change

namespace Diff

/-- A list of parts between braces. -/
def braced (parts : List String) : String :=
  "\x7b" ++ ", ".intercalate parts ++ "\x7d"

/-- The plain texts of the nested diffs behind their names. -/
def writtenNested : Diff → List String
  | .plain _ => []
  | .nest name nested rest =>
    (name ++ "=" ++ braced (nested.changes.map Change.written ++ nested.writtenNested)) ::
      rest.writtenNested

/-- The plain text of a diff: its changes, then its nested diffs. -/
def written (diff : Diff) : String :=
  braced (diff.changes.map Change.written ++ diff.writtenNested)

/-- The dump of a diff whose nested diffs have the given dumps. -/
def dumpWith (changes : List Change) (nested : List String) : String :=
  "AttributeChanges \x7b changes: [" ++ ", ".intercalate (changes.map Change.dump) ++
    "], embedded: " ++ braced nested ++ " \x7d"

/-- The dumps of the nested diffs behind their names. -/
def dumpNested : Diff → List String
  | .plain _ => []
  | .nest name nested rest =>
    (Text.quoted name ++ ": " ++ dumpWith nested.changes nested.dumpNested) :: rest.dumpNested

/-- The dump of a diff. -/
def dump (diff : Diff) : String :=
  dumpWith diff.changes diff.dumpNested

/-- Whether two lists of changes agree in order, names and old values. -/
def sameChanges : List Change → List Change → Bool
  | [], [] => true
  | a :: as, b :: bs => a.name == b.name && a.old.same b.old && sameChanges as bs
  | _, _ => false

/-- Whether two diffs agree, with scalars compared as values. -/
def same : Diff → Diff → Bool
  | .plain a, .plain b => sameChanges a b
  | .nest name nested rest, .nest name' nested' rest' =>
    name == name' && nested.same nested' && rest.same rest'
  | _, _ => false

end Diff

end Chronicle
