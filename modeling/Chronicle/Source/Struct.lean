import Chronicle.Source.Generics
import Chronicle.Source.TypeExpr
import Chronicle.Source.Visibility

/-!
# Structs

A struct and its fields, as they are declared.
-/

namespace Chronicle

namespace Source

/-- A field of a struct; its name is missing where the fields have positions only. -/
structure FieldDecl where
  attributes : List Attribute
  visibility : Visibility
  name : Option String
  type : TypeExpr
deriving DecidableEq, Repr

/-- The fields of a struct, each with the comma after it. -/
inductive Fields where
  | named (fields : List (FieldDecl × Bool))
  | positional (fields : List (FieldDecl × Bool))
  | unit
deriving DecidableEq, Repr

/-- A struct. -/
structure Struct where
  attributes : List Attribute
  visibility : Visibility
  name : String
  generics : Generics
  whereClause : Tokens
  fields : Fields
deriving DecidableEq, Repr

namespace FieldDecl

/-- The tokens of a field. -/
def tokens (f : FieldDecl) : Tokens :=
  f.attributes.flatMap Attribute.tokens ++ f.visibility.tokens ++
    (match f.name with
    | some name => [.word name] ++ operator [':']
    | none => []) ++
    f.type.tokens

/-- Reads a field with a name or one without. -/
def read (meaning : Meaning) (isNamed : Bool) : Reading FieldDecl := do
  let attributes ← Attribute.readAll meaning false
  let visibility ← Visibility.read meaning
  if isNamed then
    let name ← Reading.name
    let _ ← Reading.op ":"
    return { attributes, visibility, name := some name, type := ← TypeExpr.read meaning true }
  else return { attributes, visibility, name := none, type := ← TypeExpr.read meaning true }

end FieldDecl

namespace Fields

/-- The fields in the order of their declaration. -/
def list : Fields → List FieldDecl
  | .named fields => fields.map (·.1)
  | .positional fields => fields.map (·.1)
  | .unit => []

/-- Fields with the commas after them. -/
def commaTokens (fields : List (FieldDecl × Bool)) : Tokens :=
  fields.flatMap fun (field, comma) => withComma field.tokens comma

/-- Reads fields inside delimiters. -/
def readGroup (meaning : Meaning) (delimiter : Delimiter) (isNamed : Bool) :
    Reading (List (FieldDecl × Bool)) :=
  Reading.inside delimiter (Reading.commaList .finish (FieldDecl.read meaning isNamed))

end Fields

namespace Struct

/-- The tokens of a struct. -/
def tokens (s : Struct) : Tokens :=
  s.attributes.flatMap Attribute.tokens ++ s.visibility.tokens ++
    [.word "struct", .word s.name] ++ s.generics.declared ++
    (match s.fields with
    | .named fields => s.whereClause ++ group .brace (Fields.commaTokens fields)
    | .positional fields =>
      group .paren (Fields.commaTokens fields) ++ s.whereClause ++ operator [';']
    | .unit => s.whereClause ++ operator [';'])

/-- Reads a struct after its attributes and its visibility. -/
def readAfter (meaning : Meaning) (attributes : List Attribute) (visibility : Visibility) :
    Reading Struct := do
  let _ ← Reading.word "struct"
  let name ← Reading.name
  let generics ← Generics.read meaning
  if ← Reading.sees (.group .paren) then
    let fields ← Fields.readGroup meaning .paren false
    let whereClause ← Reading.phrase meaning .whereClause
    let _ ← Reading.op ";"
    return { attributes, visibility, name, generics, whereClause, fields := .positional fields }
  else
    let whereClause ← Reading.phrase meaning .whereClause
    if ← Reading.sees (.group .brace) then
      let fields ← Fields.readGroup meaning .brace true
      return { attributes, visibility, name, generics, whereClause, fields := .named fields }
    else
      let _ ← Reading.op ";"
      return { attributes, visibility, name, generics, whereClause, fields := .unit }

end Struct

end Source

end Chronicle
