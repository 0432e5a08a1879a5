import Chronicle.Entity.EntitySet

/-!
# Objects

Reading and writing the properties of an object by name, and the conversion of values to the types of
fields.

## Implementation notes

Writing by name changes the field and notifies nobody.
-/

namespace Chronicle

open Number (Double)

/-- What can go wrong with an attribute. -/
inductive ModelError where
  | unknownProperty (entity property : String)
  | typeMismatch (property expected actual : String)
  | missingKey (entity : String)
  | readOnlyProperty (entity property : String)
deriving DecidableEq, Repr

namespace ModelError

/-- The name of an error's kind. -/
def kindName : ModelError → String
  | .unknownProperty .. => "UnknownProperty"
  | .typeMismatch .. => "TypeMismatch"
  | .missingKey .. => "MissingKey"
  | .readOnlyProperty .. => "ReadOnlyProperty"

/-- The message for an error. -/
def message : ModelError → String
  | .unknownProperty entity property =>
    "Unknown property '" ++ property ++ "' on entity '" ++ entity ++ "'"
  | .typeMismatch property expected actual =>
    "Type mismatch for '" ++ property ++ "': expected " ++ expected ++ ", got " ++ actual
  | .missingKey entity => "Entity '" ++ entity ++ "' has no key assigned"
  | .readOnlyProperty entity property =>
    "Property '" ++ property ++ "' of entity '" ++ entity ++ "' is read-only"

end ModelError

namespace Ref

/-- The token of an object, or the error of an object without a key. -/
def identify (r : Ref) : Except ModelError Token :=
  match r.token? with
  | some token => .ok token
  | none => .error (.missingKey r.type.name)

end Ref

namespace FieldType

/-- The signed integer of a width, if it is in range. -/
def signedIn? (width : Width) (n : Int) : Option Value :=
  let bound := Int.pow 2 (width.bits - 1)
  if -bound ≤ n ∧ n < bound then some (.scalar (.int (Int64.ofInt n))) else none

/-- The unsigned integer of a width, if it is in range. -/
def unsignedIn? (width : Width) (n : Int) : Option Value :=
  let bound := Int.pow 2 width.bits
  if 0 ≤ n ∧ n < bound then some (.scalar (.uint (UInt64.ofNat n.toNat))) else none

/-- The integer of a scalar that is one. -/
def integer? : Value → Option Int
  | .scalar (.int value) => some value.toInt
  | .scalar (.uint value) => some value.toNat
  | _ => none

/-- The value that a field of a type holds after a value is assigned to it, if the type takes it. -/
def accept? : FieldType → Value → Option Value
  | .signed width, value => (integer? value).bind (signedIn? width)
  | .unsigned width, value => (integer? value).bind (unsignedIn? width)
  | .single, .scalar (.float value) => some (.scalar (.float value.toSingle))
  | .double, .scalar (.float value) => some (.scalar (.float value))
  | .bool, .scalar (.bool value) => some (.scalar (.bool value))
  | .text, .scalar (.text value) => some (.scalar (.text value))
  | .uuid, .scalar (.uuid value) => some (.scalar (.uuid value))
  | .instant, .scalar (.instant value) => some (.scalar (.instant value))
  | .reference target, .reference r =>
    if r.type.structName = target then some (.reference r) else none
  | .list target, .collection _ items =>
    if items.all (·.type.structName = target) then some (.collection .list items) else none
  | .set target, .collection _ items =>
    if items.all (·.type.structName = target) then some (EntitySet.ofList items).toValue else none
  | .embedded target, .embedded type values =>
    if type.structName = target then some (.embedded type values) else none
  | .optional _, .null => some .null
  | .optional inner, value => inner.accept? value
  | _, _ => none

/-- The value of a field that nothing was assigned to. -/
def initial : FieldType → Value
  | .signed _ => .scalar (.int 0)
  | .unsigned _ => .scalar (.uint 0)
  | .single => .scalar (.float (Double.zero false))
  | .double => .scalar (.float (Double.zero false))
  | .bool => .scalar (.bool false)
  | .text => .scalar (.text "")
  | .list _ => .collection .list []
  | .set _ => .collection .set []
  | _ => .null

end FieldType

/-- An object: a type and the values of its fields. -/
structure Object where
  type : EntityType
  /-- The values of the fields in the order of the type. -/
  values : List Value

namespace Object

/-- An object with nothing assigned. -/
def fresh (type : EntityType) : Object := ⟨type, type.fields.map (·.type.initial)⟩

/-- The value of a field, whether it is a property or not. -/
def field? (o : Object) (name : String) : Option Value :=
  Value.valueAt? name o.type.fields o.values

/-- Values with the value of one field replaced. -/
def replaceAt (name : String) (new : Value) : List Field → List Value → List Value
  | field :: fields, value :: values =>
    if field.name = name then new :: values else value :: replaceAt name new fields values
  | _, values => values

/-- The object with a value assigned to one of its fields. -/
def assign (o : Object) (name : String) (value : Value) : Object :=
  { o with values := replaceAt name value o.type.fields o.values }

/-- The value of a property. -/
def get? (o : Object) (name : String) : Option Value := Value.propertyOf? o.type o.values name

/-- The key of an object, if it is assigned. -/
def key? (o : Object) : Option Key := do
  (← (← o.field? (← o.type.keyField)).scalar?).key?

/-- The token of an object, or the error of an object without a key. -/
def identify (o : Object) : Except ModelError Token :=
  match o.key? with
  | some key => .ok ⟨o.type.canonicalName, key⟩
  | none => .error (.missingKey o.type.name)

/-- The object with a property set by name. -/
def set (o : Object) (name : String) (value : Value) : Except ModelError Object :=
  match o.type.property? name with
  | none => .error (.unknownProperty o.type.name name)
  | some property =>
    if property.readOnly then .error (.readOnlyProperty o.type.name name)
    else
      match property.type.accept? value with
      | some accepted => .ok (o.assign name accepted)
      | none => .error (.typeMismatch name property.expected value.kindName)

/-- The object as an embedded value. -/
def toValue (o : Object) : Value := .embedded o.type o.values

/-- A reference to the object, given what tells it from other objects and the dump of its entry. -/
def toRef (o : Object) (identity : Nat) (entry : String) : Ref where
  identity := identity
  type := o.type
  key := o.key?
  portrait := Value.dumpObject o.type entry o.values

end Object

end Chronicle
