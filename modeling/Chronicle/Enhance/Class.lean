import Chronicle.Enhance.Kind
import Chronicle.Enhance.Options

/-!
# Entity classes

What the declaration of a struct says about the entity: its names, its options and its fields.
-/

namespace Chronicle

namespace Enhance

open Source

/-- A field of an entity class. -/
structure ClassField where
  name : String
  type : TypeExpr
  options : FieldOptions
deriving DecidableEq, Repr

/-- The class of an entity. -/
structure EntityClass where
  /-- The name of the struct. -/
  name : String
  /-- The name with the modules around it. -/
  displayName : String
  options : StructOptions
  fields : List ClassField
deriving DecidableEq, Repr

/-- A name inside a module, given the module's path. -/
def inModule (path name : String) : String :=
  if path.isEmpty then name else path ++ "::" ++ name

namespace EntityClass

/-- The fields of a class; a field without a name is none of them. -/
def readFields (fields : List FieldDecl) : Except OptionError (List ClassField) := do
  let named := fields.filterMap fun field => field.name.map (·, field)
  named.mapM fun (name, field) => do
    return { name, type := field.type, options := ← FieldOptions.ofAttributes field.attributes }

/-- The class that a struct declares in a module. -/
def ofStruct (declared : Struct) (path : String) : Except OptionError EntityClass := do
  let options ← StructOptions.ofAttributes declared.attributes
  return {
    name := declared.name
    displayName := inModule path declared.name
    options
    fields := ← readFields declared.fields.list }

/-- The first field with a given name. -/
def field? (c : EntityClass) (name : String) : Option ClassField :=
  c.fields.find? (·.name = name)

/-- Whether assignments to a field are tracked. -/
def isTracked (c : EntityClass) (field : ClassField) : Bool :=
  !field.options.entry && !field.options.transient &&
    (!c.options.annotatedOnly || field.options.property)

end EntityClass

end Enhance

end Chronicle
