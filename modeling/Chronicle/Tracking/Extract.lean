import Chronicle.Diff.Basic
import Chronicle.Entity.Object
import Chronicle.Tracking.Source

/-!
# Extracting diffs

The three ways in which a diff is taken from an object: what a new object has, all that a deleted object
had, and what a source recorded about a changed one.

## Implementation notes

A diff holds no objects, so that a reference to an object without a key cannot be kept; such references
are warned of, in the order in which they are met.
-/

namespace Chronicle

/-- What is warned of while a diff is extracted. -/
inductive Warning where
  /-- A reference that is recorded as null. -/
  | reference (attr : String) (cause : ModelError)
  /-- An item of a collection that is left out. -/
  | item (attr : String) (cause : ModelError)
deriving DecidableEq, Repr

namespace Warning

/-- The message for a warning. -/
def message : Warning → String
  | .reference attr cause => "Reference in attribute " ++ attr ++ " recorded as null: " ++ cause.message
  | .item attr cause => "Collection item in attribute " ++ attr ++ " skipped: " ++ cause.message

end Warning

/-- The tokens of the items of a collection; a set has each token once. -/
def itemTokens (kind : CollectionKind) (items : List Ref) : List Token :=
  (items.filterMap Ref.token?).foldl
    (fun tokens token =>
      if kind = .set && tokens.contains token then tokens else tokens ++ [token]) []

namespace Value

/-- A value without the objects that it refers to. -/
def detach : Value → OldValue
  | .null => .null
  | .scalar value => .scalar value
  | .reference target =>
    match target.token? with
    | some token => .reference token
    | none => .null
  | .collection kind items => .collection kind (itemTokens kind items)
  | .embedded .. => .null

/-- What is warned of when a value is detached. -/
def detachWarnings (attr : String) : Value → List Warning
  | .reference target =>
    match target.identify with
    | .ok _ => []
    | .error cause => [.reference attr cause]
  | .collection _ items => items.filterMap fun item =>
    match item.identify with
    | .ok _ => none
    | .error cause => some (.item attr cause)
  | _ => []

mutual

/-- All that an embedded object holds in its writable properties. -/
def snapshot : Value → Diff
  | .embedded type values => snapshotFields type.fields values .empty
  | _ => .empty

/-- All that writable properties among some fields hold, after what is known already. -/
def snapshotFields : List Field → List Value → Diff → Diff
  | field :: fields, value :: values, known =>
    snapshotFields fields values
      (if field.isProperty && !field.readOnly then
        match value with
        | .embedded .. => known.addEmbedded field.name value.snapshot
        | _ => known.add ⟨field.name, value.detach⟩
      else known)
  | _, _, known => known

end

mutual

/-- What is warned of when the snapshot of an embedded object is taken. -/
def snapshotWarnings : Value → List Warning
  | .embedded type values => fieldWarnings type.fields values
  | _ => []

/-- What is warned of when the snapshot of some fields is taken. -/
def fieldWarnings : List Field → List Value → List Warning
  | field :: fields, value :: values =>
    (if field.isProperty && !field.readOnly then
      match value with
      | .embedded .. => value.snapshotWarnings
      | _ => value.detachWarnings field.name
    else []) ++ fieldWarnings fields values
  | _, _ => []

end

/-- A diff with the old value of an attribute: an embedded object becomes its snapshot. -/
def addTo (diff : Diff) (name : String) (value : Value) : Diff :=
  match value with
  | .embedded .. => diff.addEmbedded name value.snapshot
  | value => diff.add ⟨name, value.detach⟩

/-- What is warned of when an old value is added to a diff. -/
def addWarnings (name : String) (value : Value) : List Warning :=
  match value with
  | .embedded .. => value.snapshotWarnings
  | value => value.detachWarnings name

end Value

namespace Object

/-- What a new object has: its writable properties that are not null, with null as the old value. -/
def presence (o : Object) : Diff :=
  Diff.ofChanges ((o.type.writable.filter fun property =>
    ((o.get? property.name).getD .null).isNull = false).map fun property => ⟨property.name, .null⟩)

/-- All that a deleted object had in its writable properties. -/
def snapshot (o : Object) : Diff := o.toValue.snapshot

/-- What is warned of when the snapshot of an object is taken. -/
def snapshotWarnings (o : Object) : List Warning := o.toValue.snapshotWarnings

end Object

/-- What a source gives for one attribute. -/
inductive Piece where
  /-- Nothing but that the attribute changed. -/
  | bare
  | value (old : Value)
  /-- The diff of an embedded object, and what was warned of. -/
  | nested (diff : Diff) (warnings : List Warning)

namespace Piece

/-- A diff with a piece added under a name. -/
def addTo (diff : Diff) (name : String) : Piece → Diff
  | .bare => diff.add ⟨name, .null⟩
  | .value old => old.addTo diff name
  | .nested inner _ => diff.addEmbedded name inner

/-- What is warned of when a piece is added under a name. -/
def warnings (name : String) : Piece → List Warning
  | .bare => []
  | .value old => old.addWarnings name
  | .nested _ warnings => warnings

/-- The first piece of a name. -/
def find (pieces : List (String × Piece)) (name : String) : Piece :=
  (pieces.lookup name).getD .bare

/-- The diff of pieces: every name brings its first piece. -/
def diffOf (pieces : List (String × Piece)) : Diff :=
  pieces.foldl (fun diff (name, _) => (find pieces name).addTo diff name) .empty

/-- What is warned of when the diff of pieces is made. -/
def warningsOf (pieces : List (String × Piece)) : List Warning :=
  pieces.flatMap fun (name, _) => (find pieces name).warnings name

end Piece

namespace Recording

/-- What is recorded for each name. -/
def pieces : Recording → List (String × Piece)
  | .nil => []
  | .bare name rest => (name, .bare) :: rest.pieces
  | .value name old rest => (name, .value old) :: rest.pieces
  | .aggregate name _ nested rest =>
    (name, .nested (Piece.diffOf nested.pieces) (Piece.warningsOf nested.pieces)) :: rest.pieces

/-- The diff of what is recorded. -/
def diff (r : Recording) : Diff := Piece.diffOf r.pieces

/-- What is warned of when the diff is made. -/
def warnings (r : Recording) : List Warning := Piece.warningsOf r.pieces

end Recording

end Chronicle
