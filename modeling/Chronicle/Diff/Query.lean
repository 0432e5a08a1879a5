import Chronicle.Diff.Basic

/-!
# Questions to a diff

Whether an attribute changed and what its old value was, asked by a path: the name of an attribute, or
names joined by dots that lead into nested diffs.

## Implementation notes

A path that is the exact name of a change is answered by that change, also when it contains dots. Any
other path is split at its first dot.
-/

namespace Chronicle

namespace Diff

/-- The part of a path before its first dot and the part after it, if there is a dot. -/
def splitPath (path : String) : Option (String × String) :=
  let head := path.toList.takeWhile (· ≠ '.')
  match path.toList.dropWhile (· ≠ '.') with
  | _ :: rest => some (String.ofList head, String.ofList rest)
  | [] => none

/-- The old value of a plain change. -/
def plainOld? (changes : List Change) (name : String) : Option OldValue :=
  (changes.find? fun change => change.name == name).map Change.old

/-- The old value at a path inside the nested diff of a name. -/
def oldWithin? : Diff → String → String → Option OldValue
  | .plain _, _, _ => none
  | .nest name nested rest, head, path =>
    if name = head then
      match plainOld? nested.changes path with
      | some old => some old
      | none =>
        match splitPath path with
        | some (head, path) => nested.oldWithin? head path
        | none => none
    else rest.oldWithin? head path

/-- The old value at a path; `none` if the attribute did not change. -/
def oldValue? (diff : Diff) (path : String) : Option OldValue :=
  match plainOld? diff.changes path with
  | some old => some old
  | none =>
    match splitPath path with
    | some (head, path) => diff.oldWithin? head path
    | none => none

/-- Whether something at a path inside the nested diff of a name changed. -/
def changedWithin : Diff → String → String → Bool
  | .plain _, _, _ => false
  | .nest name nested rest, head, path =>
    if name = head then
      nested.mentions path ||
        match splitPath path with
        | some (head, path) => nested.changedWithin head path
        | none => false
    else rest.changedWithin head path

/-- Whether the attribute at a path changed, or something inside it. -/
def isChanged (diff : Diff) (path : String) : Bool :=
  diff.mentions path ||
    match splitPath path with
    | some (head, path) => diff.changedWithin head path
    | none => false

/-- The token that a reference held. -/
def oldReference? (diff : Diff) (path : String) : Option Token :=
  (diff.oldValue? path).bind OldValue.reference?

/-- The kind and the tokens that a collection held. -/
def oldCollection? (diff : Diff) (path : String) : Option (CollectionKind × List Token) :=
  (diff.oldValue? path).bind OldValue.collection?

theorem oldWithin?_eq_nested (diff : Diff) (head path : String) :
    diff.oldWithin? head path = (diff.nested? head).bind (·.oldValue? path) := by
  induction diff with
  | plain changes => rfl
  | nest name nested rest _ ih =>
    by_cases h : name = head
    · simp [oldWithin?, nested?, oldValue?, h]
    · simp [oldWithin?, nested?, h, ih]

theorem changedWithin_eq_nested (diff : Diff) (head path : String) :
    diff.changedWithin head path = (diff.nested? head).any (·.isChanged path) := by
  induction diff with
  | plain changes => rfl
  | nest name nested rest _ ih =>
    by_cases h : name = head
    · simp [changedWithin, nested?, isChanged, h]
    · simp [changedWithin, nested?, h, ih]

end Diff

end Chronicle
