import Chronicle.Diff.OldValue
import Chronicle.Entity.Type

/-!
# Live values

The values of attributes while their objects are alive: unlike the old values in a diff they hold the
objects that they refer to.

## Implementation notes

An object that is only referred to is known by its identity, its type, its key and its portrait; an
embedded object is known with the values of all its fields, in the order of the fields of its type. Two
references are the same if they lead to one object or to objects with one token.
-/

namespace Chronicle

/-- An object that is referred to. -/
structure Ref where
  /-- What tells the object from all other objects. -/
  identity : Nat
  type : EntityType
  key : Option Key
  /-- The dump of the object. -/
  portrait : String
deriving DecidableEq

/-- The live value of an attribute. -/
inductive Value where
  | null
  | scalar (value : Scalar)
  | reference (target : Ref)
  | collection (kind : CollectionKind) (items : List Ref)
  /-- An embedded object with the values of the fields of its type. -/
  | embedded (type : EntityType) (values : List Value)

namespace Ref

/-- The token of an object that has a key. -/
def token? (r : Ref) : Option Token := r.key.map (⟨r.type.canonicalName, ·⟩)

/-- Whether two references lead to one object or to objects with one token. -/
def same (a b : Ref) : Bool :=
  a.identity == b.identity ||
    match a.token?, b.token? with
    | some x, some y => x == y
    | _, _ => false

/-- The text of a reference: the token, or the name of the type of a new object. -/
def written (r : Ref) : String :=
  match r.token? with
  | some token => token.written
  | none => r.type.name ++ "-<new>"

end Ref

namespace Value

/-- Whether a value is null. -/
def isNull : Value → Bool
  | .null => true
  | _ => false

/-- The scalar that a value is. -/
def scalar? : Value → Option Scalar
  | .scalar value => some value
  | _ => none

/-- The object that a value refers to. -/
def reference? : Value → Option Ref
  | .reference target => some target
  | _ => none

/-- The objects in the collection that a value is. -/
def items? : Value → Option (List Ref)
  | .collection _ items => some items
  | _ => none

/-- The type of the embedded object that a value is. -/
def embeddedType? : Value → Option EntityType
  | .embedded type _ => some type
  | _ => none

/-- The name of a value's kind. -/
def kindName : Value → String
  | .null => "null"
  | .scalar value => value.kindName
  | .reference _ => "reference"
  | .collection .. => "collection"
  | .embedded .. => "embedded"

/-- The value of the field with a given name, given the fields and their values. -/
def valueAt? (name : String) : List Field → List Value → Option Value
  | field :: fields, value :: values =>
    if field.name = name then some value else valueAt? name fields values
  | _, _ => none

/-- The value of the property with a given name. -/
def propertyOf? (type : EntityType) (values : List Value) (name : String) : Option Value :=
  if (type.property? name).isSome then valueAt? name type.fields values else none

/-- Whether two collections of a kind hold the same items. -/
def sameItems : CollectionKind → List Ref → List Ref → Bool
  | .list, xs, ys => (xs.zip ys).all fun (x, y) => x.same y
  | .set, xs, ys => xs.all fun x => ys.any x.same

mutual

/-- Whether two values are the same. -/
def same : Value → Value → Bool
  | .null, .null => true
  | .scalar a, .scalar b => a.same b
  | .reference a, .reference b => a.same b
  | .collection kind xs, .collection other ys =>
    kind == other && xs.length == ys.length && sameItems kind xs ys
  | .embedded type values, .embedded other others =>
    type.name == other.name && sameProperties type.fields values (propertyOf? other others)
  | _, _ => false

/-- Whether the properties among some fields have the values that another object has. -/
def sameProperties : List Field → List Value → (String → Option Value) → Bool
  | field :: fields, value :: values, other =>
    (!field.isProperty ||
      match other field.name with
      | some counterpart => value.same counterpart
      | none => false) && sameProperties fields values other
  | _, _, _ => true

end

/-- Items in brackets with commas between them. -/
def bracketed (opening closing : String) (items : List String) : String :=
  opening ++ String.intercalate ", " items ++ closing

/-- The dump of a scalar as the value of a field; `single` tells whether the field holds numbers of 32
bits. -/
def dumpScalar (single : Bool) : Scalar → String
  | .float value => value.format .dump (if single then .single else .double)
  | .instant value => value.text .letter
  | value => value.written

/-- The dump of a value that is not null in so many optional layers. -/
def dumpLayers : Nat → String → String
  | 0, text => text
  | layers + 1, text => "Some(" ++ dumpLayers layers text ++ ")"

/-- The dump of an entity's entry. -/
def entryDump (state : String) (listeners : Nat) (hasChangeListener : Bool) : String :=
  "EntityEntry \x7b state: " ++ state ++ ", listeners: " ++ toString listeners ++
    ", change_listener: " ++ toString hasChangeListener ++ " \x7d"

mutual

/-- The dump of a value of a field without its optional layers. -/
def dumpPlain (single : Bool) : Value → String
  | .null => "None"
  | .scalar value => dumpScalar single value
  | .reference target => target.portrait
  | .collection .list items => bracketed "[" "]" (items.map Ref.portrait)
  | .collection .set items => bracketed "\x7b" "\x7d" (items.map Ref.portrait)
  | .embedded type values =>
    type.structName ++ " " ++
      bracketed "\x7b " " \x7d" (("entry: " ++ entryDump "New" 0 false) :: dumpFields type.fields values)

/-- The dumps of fields with their names. -/
def dumpFields : List Field → List Value → List String
  | field :: fields, value :: values =>
    let dump :=
      match field.type.layers, value with
      | _ + 1, .null => "None"
      | layers, value => dumpLayers layers (value.dumpPlain (field.type.base = .single))
    (field.name ++ ": " ++ dump) :: dumpFields fields values
  | _, _ => []

end

/-- The dump of an object, given the dump of its entry. -/
def dumpObject (type : EntityType) (entry : String) (values : List Value) : String :=
  type.structName ++ " " ++
    bracketed "\x7b " " \x7d" (("entry: " ++ entry) :: dumpFields type.fields values)

/-- The dump of a value. -/
def dump (value : Value) : String :=
  match value with
  | .null => "Null"
  | .scalar value => value.dump
  | .reference target => "Reference(" ++ target.written ++ ")"
  | .collection kind items =>
    "Collection(" ++ kind.name ++
      bracketed "[" "]" (items.map fun item => Text.quoted item.written) ++ ")"
  | .embedded .. => "Embedded(" ++ value.dumpPlain false ++ ")"

end Value

end Chronicle
