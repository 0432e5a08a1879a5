import Chronicle.Entity.Type

/-!
# Sample entity types

A catalogue of entity types that between them use every type of field, every flag and every kind of key.

## Implementation notes

`Manual` describes itself instead of deriving its metadata: its key is no property, and it tells the
kind of value that it expects rather than the type of its field.
-/

namespace Chronicle

namespace Sample

/-- The type of a field that may be without a value. -/
def maybe (type : FieldType) : FieldType := .optional type

/-- A field that can be written. -/
def plain (name : String) (type : FieldType) : Field where
  name := name
  type := type

/-- A property that cannot be written by name, as a key is. -/
def readOnly (name : String) (type : FieldType) : Field where
  name := name
  type := type
  readOnly := true

/-- A field that is no property. -/
def transient (name : String) (type : FieldType) : Field where
  name := name
  type := type
  isProperty := false

/-- Someone to whom others belong. -/
def owner : EntityType where
  structName := "Owner"
  keyField := some "id"
  fields := [readOnly "id" (maybe (.signed .w64)), plain "name" (maybe .text)]

/-- An owner with a level, which is known under the name of owners. -/
def vipOwner : EntityType where
  structName := "VipOwner"
  replaces := some "Owner"
  keyField := some "id"
  fields := [readOnly "id" (.signed .w64), plain "level" (maybe (.signed .w32))]

/-- A pet, which refers to its owner. -/
def pet : EntityType where
  structName := "Pet"
  keyField := some "id"
  fields :=
    [readOnly "id" (maybe (.signed .w64)), plain "nickname" (maybe .text),
      plain "owner" (maybe (.reference "Owner"))]

/-- A type with a set and a list of references. -/
def household : EntityType where
  structName := "Household"
  keyField := some "id"
  fields := [readOnly "id" (.unsigned .w64), plain "pets" (.set "Pet"), plain "walkers" (.list "Owner")]

/-- A value embedded two levels deep. -/
def datum : EntityType where
  structName := "Datum"
  embeddable := true
  fields := [plain "code" (maybe .text), plain "rev" (maybe (.unsigned .w8))]

/-- An embedded value of floats that embeds another one. -/
def geo : EntityType where
  structName := "Geo"
  embeddable := true
  fields :=
    [plain "lat" (maybe .double), plain "lon" (maybe .double),
      plain "datum" (maybe (.embedded "Datum"))]

/-- An embedded value with references, and with fields that are read-only or no property. -/
def address : EntityType where
  structName := "Address"
  embeddable := true
  fields :=
    [plain "city" (maybe .text), plain "street" (maybe .text), plain "geo" (maybe (.embedded "Geo")),
      plain "landlord" (maybe (.reference "Owner")), plain "tenants" (.list "Owner"),
      readOnly "code" (maybe .text), transient "cache" (maybe .text)]

/-- A type with every kind of property, whose objects are deleted by an attribute. -/
def person : EntityType where
  structName := "Person"
  softDelete := some "deleted_at"
  keyField := some "id"
  fields :=
    [readOnly "id" (.signed .w64), plain "name" (maybe .text), plain "age" (maybe (.signed .w32)),
      plain "city" (maybe .text), plain "owner" (maybe (.reference "Owner")), plain "pets" (.list "Pet"),
      plain "work" (maybe (.embedded "Address")), plain "address" (maybe (.embedded "Address")),
      plain "deleted_at" (maybe .text), readOnly "created_by" (maybe .text),
      transient "label_cache" (maybe .text)]

/-- A type with every width of number. -/
def numbers : EntityType where
  structName := "Numbers"
  keyField := some "id"
  fields :=
    [readOnly "id" (.unsigned .w8), plain "a8" (maybe (.signed .w8)), plain "a16" (maybe (.signed .w16)),
      plain "a32" (.signed .w32), plain "a64" (maybe (.signed .w64)),
      plain "b8" (maybe (.unsigned .w8)), plain "b16" (.unsigned .w16),
      plain "b32" (maybe (.unsigned .w32)), plain "b64" (maybe (.unsigned .w64)),
      plain "f4" (maybe .single), plain "f8" (maybe .double), plain "flag" (maybe .bool)]

/-- A type whose key is a text, deleted by an attribute that is true or false. -/
def doc : EntityType where
  structName := "Doc"
  softDelete := some "deleted"
  keyField := some "code"
  fields := [plain "title" (maybe .text), readOnly "code" .text, plain "deleted" (maybe .bool)]

/-- A type with a name of its own, and with a deleting attribute that it does not have. -/
def ghost : EntityType where
  structName := "Ghost"
  name := "ghost"
  softDelete := some "nope"
  keyField := some "id"
  fields := [readOnly "id" (.unsigned .w32), plain "label" (maybe .text)]

/-- A type deleted by an embedded value. -/
def vault : EntityType where
  structName := "Vault"
  softDelete := some "closure"
  keyField := some "id"
  fields :=
    [readOnly "id" (.signed .w16), plain "closure" (maybe (.embedded "Datum")), plain "note" (maybe .text)]

/-- A type with unique identifiers and instants. -/
def session : EntityType where
  structName := "Session"
  keyField := some "id"
  fields := [readOnly "id" (maybe .uuid), plain "started" (maybe .instant), plain "token" (maybe .uuid)]

/-- A type of which only some properties are tracked. -/
def settings : EntityType where
  structName := "Settings"
  keyField := some "id"
  fields := [readOnly "id" (.signed .w8), plain "theme" (maybe .text), plain "scratch" (maybe .text)]

/-- A type whose setters are named in a way of their own. -/
def gadget : EntityType where
  structName := "Gadget"
  keyField := some "id"
  fields :=
    [readOnly "id" (.unsigned .w16), plain "label" (maybe .text), plain "size" (maybe (.unsigned .w32))]

/-- A type whose setters tell nobody. -/
def untracked : EntityType where
  structName := "Plain"
  enhanced := false
  keyField := some "id"
  fields := [readOnly "id" (.signed .w32), plain "title" (maybe .text)]

/-- A type that describes itself. -/
def manual : EntityType where
  structName := "Manual"
  enhanced := false
  keyField := some "id"
  fields :=
    [transient "id" (maybe (.signed .w64)),
      { name := "name", type := maybe .text, expected := "text" }]

/-- All sample types. -/
def types : List EntityType :=
  [owner, vipOwner, pet, household, datum, geo, address, person, numbers, doc, ghost, vault, session,
    settings, gadget, untracked, manual]

/-- The sample type whose objects have a given name. -/
def typeNamed? (name : String) : Option EntityType := types.find? (·.structName = name)

end Sample

end Chronicle
