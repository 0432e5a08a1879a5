import Chronicle.Enhance.Kind
import Chronicle.Enhance.Options
import Chronicle.Source.Struct

/-!
# Descriptions of entities

What is generated for an entity depends on its description: its names, its key field and its properties.
A description is taken from the declaration of a struct, field by field.

## Implementation notes

The key is the last field with the flag for it, or the field named `id` if no field with the flag comes
before that one; a property is read-only if its flag says so or if it was the key when its field was
read.
-/

namespace Chronicle

namespace Enhance

open Source

/-- Why a struct has no description. -/
inductive DescriptionError where
  | notStruct
  | unnamedFields
  | invalidOption (cause : OptionError)
  | entryRepeated
  | entryMissing
  | keyMissing
deriving DecidableEq, Repr

namespace DescriptionError

/-- The message for an error. -/
def message : DescriptionError → String
  | .notStruct => "Entity can only be derived for structs"
  | .unnamedFields => "Entity requires a struct with named fields"
  | .invalidOption cause => cause.message
  | .entryRepeated => "only one field may be marked #[entity(entry)]"
  | .entryMissing => "Entity requires a field of type EntityEntry marked #[entity(entry)]"
  | .keyMissing => "Entity requires a key field named `id` or marked #[entity(id)]"

end DescriptionError

/-- A property of an entity. -/
structure DescribedProperty where
  name : String
  type : TypeExpr
  kind : PropertyKind
  readOnly : Bool
deriving DecidableEq, Repr

/-- The description of an entity. -/
structure Description where
  /-- The name of the struct. -/
  name : String
  generics : Generics
  whereClause : Tokens
  options : StructOptions
  /-- The field that holds the entity's entry. -/
  entryField : String
  keyField : Option String
  properties : List DescribedProperty
deriving DecidableEq, Repr

namespace Description

/-- The name of the entity. -/
def entityName (d : Description) : String := d.options.name.getD d.name

/-- The kind of a property: what the flags of its field say, or what its type says. -/
def kindOf (options : FieldOptions) (type : TypeExpr) : PropertyKind :=
  if options.embedded then .embedded
  else if options.collection then .collection
  else if options.reference then .reference
  else inferKind type

/-- What is known after some fields. -/
structure Partial where
  entryField : Option String := none
  keyField : Option String := none
  properties : List DescribedProperty := []

namespace Partial

/-- What is known after one more field with its options. -/
def add (known : Partial) (name : String) (type : TypeExpr) (options : FieldOptions) :
    Except DescriptionError Partial :=
  if options.entry then
    if known.entryField.isSome then .error .entryRepeated
    else .ok { known with entryField := some name }
  else if options.transient then .ok known
  else
    let isKey := options.id || (known.keyField.isNone && name = "id")
    .ok { known with
      keyField := if isKey then some name else known.keyField
      properties := known.properties ++
        [{ name, type, kind := kindOf options type, readOnly := options.readOnly || isKey }] }

/-- What is known after one more field of a struct. -/
def addField (known : Partial) (field : FieldDecl) : Except DescriptionError Partial :=
  match field.name with
  | none => .ok known
  | some name => do
    let options ← (FieldOptions.ofAttributes field.attributes).mapError .invalidOption
    known.add name field.type options

end Partial

/-- The description of a struct with the given named fields. -/
def ofFields (declared : Struct) (fields : List FieldDecl) : Except DescriptionError Description := do
  let options ← (StructOptions.ofAttributes declared.attributes).mapError .invalidOption
  let known ← fields.foldlM Partial.addField {}
  match known.entryField with
  | none => .error .entryMissing
  | some entryField =>
    if known.keyField.isNone && !options.embeddable then .error .keyMissing
    else
      return {
        name := declared.name
        generics := declared.generics
        whereClause := declared.whereClause
        options
        entryField
        keyField := known.keyField
        properties := known.properties }

/-- The description of a struct. -/
def ofStruct (declared : Struct) : Except DescriptionError Description :=
  match declared.fields with
  | .named fields => ofFields declared (fields.map (·.1))
  | _ => .error .unnamedFields

end Description

end Enhance

end Chronicle
