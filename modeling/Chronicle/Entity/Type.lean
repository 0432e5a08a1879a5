import Chronicle.Entity.FieldType

/-!
# Entity types

The metadata of entities: their names, their fields and which of the fields are properties.
-/

namespace Chronicle

/-- A field of an entity; a field that is no property is not part of the metadata. -/
structure Field where
  name : String
  type : FieldType
  kind : PropertyKind := type.kind
  isProperty : Bool := true
  readOnly : Bool := false
  /-- What a value of the wrong type is told to be expected. -/
  expected : String := type.written
deriving DecidableEq, Repr

/-- A type of entities or of embedded objects. -/
structure EntityType where
  /-- The name of the type of the objects. -/
  structName : String
  /-- The name of the entity. -/
  name : String := structName
  /-- The name of the entity that this one replaces. -/
  replaces : Option String := none
  embeddable : Bool := false
  /-- The property that marks an object as deleted. -/
  softDelete : Option String := none
  /-- Whether the setters notify listeners. -/
  enhanced : Bool := true
  keyField : Option String := none
  fields : List Field
deriving DecidableEq, Repr

namespace EntityType

/-- The name that tokens and events use: that of the replaced entity, or the entity's own. -/
def canonicalName (t : EntityType) : String := t.replaces.getD t.name

/-- The fields that are properties. -/
def properties (t : EntityType) : List Field := t.fields.filter (·.isProperty)

/-- The property with a given name. -/
def property? (t : EntityType) (name : String) : Option Field :=
  t.properties.find? (·.name = name)

/-- The properties that can be written. -/
def writable (t : EntityType) : List Field := t.properties.filter (!·.readOnly)

end EntityType

end Chronicle
