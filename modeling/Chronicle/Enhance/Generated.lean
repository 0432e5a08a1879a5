import Chronicle.Enhance.Description
import Chronicle.Enhance.Setters

/-!
# Generated implementations

The code that is generated for an entity from its description.
-/

namespace Chronicle

namespace Enhance

open Source

namespace Generated

/-- A text as a literal. -/
def literal (text : String) : Tokens := [.literal (Scanner.textLiteral text.toList)]

/-- A truth value as a word. -/
def truth (value : Bool) : Tokens := [.word (if value then "true" else "false")]

/-- An optional text as a literal. -/
def optionalLiteral : Option String → Tokens
  | some text => code "Some" ++ group .paren (literal text)
  | none => code "None"

/-- An access to a field of the object. -/
def fieldOf (name : String) : Tokens := code "self ." ++ [.word name]

/-- Pieces with commas between them. -/
def commaSeparated : List Tokens → Tokens
  | [] => []
  | [piece] => piece
  | piece :: pieces => piece ++ code "," ++ commaSeparated pieces

/-- The metadata of a property. -/
def propertyMeta (p : DescribedProperty) : Tokens :=
  code ":: entity_model :: PropertyMeta" ++
    group .brace (code "name :" ++ literal p.name ++
      code ", kind : :: entity_model :: PropertyKind ::" ++ [.word p.kind.name] ++
      code ", read_only :" ++ truth p.readOnly)

/-- The body of the method that gives the metadata. -/
def metaBody (d : Description) : Tokens :=
  code "static PROPERTIES : & [:: entity_model :: PropertyMeta] = &" ++
    group .bracket (commaSeparated (d.properties.map propertyMeta)) ++
    code "; static META : :: entity_model :: EntityMeta = :: entity_model :: EntityMeta" ++
    group .brace (code "name :" ++ literal d.entityName ++
      code ", replaces :" ++ optionalLiteral d.options.replaces ++
      code ", embeddable :" ++ truth d.options.embeddable ++
      code ", soft_delete :" ++ optionalLiteral d.options.softDelete ++
      code ", properties : PROPERTIES ,") ++
    code "; & META"

/-- The body of the method that gives the key. -/
def keyBody (d : Description) : Tokens :=
  match d.keyField with
  | some field =>
    code ":: entity_model :: ToKey :: to_key" ++ group .paren (code "&" ++ fieldOf field)
  | none => code "None"

/-- The case of a property where values are read by name. -/
def readCase (p : DescribedProperty) : Tokens :=
  literal p.name ++ code "=> Some" ++
    group .paren
      (code ":: entity_model :: ToValue :: to_value" ++ group .paren (code "&" ++ fieldOf p.name)) ++
    code ","

/-- The case of a property where values are set by name. -/
def setCase (p : DescribedProperty) : Tokens :=
  if p.readOnly then
    literal p.name ++ code "=> Err" ++
      group .paren (code ":: entity_model :: ModelError :: ReadOnlyProperty" ++
        group .brace
          (code "entity : :: entity_model :: ManagedEntity :: meta (self) . name . to_string () ," ++
            code "property :" ++ literal p.name ++ code ". to_string () ,")) ++
      code ","
  else
    literal p.name ++ code "=>" ++
      group .brace (code "let actual = value . kind_name () ; match <" ++ p.type.tokens ++
        code "as :: entity_model :: FromValue > :: from_value (value)" ++
        group .brace (code "Some (converted) =>" ++
          group .brace (fieldOf p.name ++ code "= converted ; Ok (())") ++
          code "None => Err" ++
          group .paren (code ":: entity_model :: ModelError :: type_mismatch" ++
            group .paren (literal p.name ++ code ", stringify !" ++ group .paren p.type.tokens ++
              code ", actual ,")) ++
          code ","))

/-- The last case where values are set by name. -/
def unknownCase : Tokens :=
  code "_ => Err" ++
    group .paren (code ":: entity_model :: ModelError :: UnknownProperty" ++
      group .brace
        (code "entity : :: entity_model :: ManagedEntity :: meta (self) . name . to_string () ," ++
          code "property : property . to_string () ,")) ++
    code ","

/-- The beginning of an implementation of a trait for the entity's type. -/
def implFront (d : Description) (trait : String) : Tokens :=
  code "impl" ++ d.generics.introduced ++ code (":: entity_model :: " ++ trait ++ " for") ++
    [.word d.name] ++ d.generics.applied ++ d.whereClause

/-- The implementation of an entity. -/
def entityImpl (d : Description) : Tokens :=
  implFront d "ManagedEntity" ++ group .brace
    (code "fn meta (& self) -> & 'static :: entity_model :: EntityMeta" ++
        group .brace (metaBody d) ++
      code "fn entry (& self) -> & :: entity_model :: EntityEntry" ++
        group .brace (code "&" ++ fieldOf d.entryField) ++
      code "fn entry_mut (& mut self) -> & mut :: entity_model :: EntityEntry" ++
        group .brace (code "& mut" ++ fieldOf d.entryField) ++
      code "fn key (& self) -> Option < :: entity_model :: KeyValue >" ++
        group .brace (keyBody d) ++
      code "fn get_value (& self , property : & str) -> Option < :: entity_model :: Value >" ++
        group .brace (code "match property" ++
          group .brace (d.properties.flatMap readCase ++ code "_ => None ,")) ++
      code "# [allow (unused_variables)] fn set_value" ++
        code "(& mut self , property : & str , value : :: entity_model :: Value ,)" ++
        code "-> Result < () , :: entity_model :: ModelError >" ++
        group .brace (code "match property" ++
          group .brace (d.properties.flatMap setCase ++ unknownCase)) ++
      code "fn setters_enhanced (& self) -> bool" ++
        group .brace (truth d.options.settersEnhanced) ++
      code "fn as_any (& self) -> & dyn :: std :: any :: Any" ++ group .brace (code "self") ++
      code "fn as_any_mut (& mut self) -> & mut dyn :: std :: any :: Any" ++
        group .brace (code "self") ++
      code "fn into_any_arc (self : :: std :: sync :: Arc < Self > ,)" ++
        code "-> :: std :: sync :: Arc < dyn :: std :: any :: Any + Send + Sync >" ++
        group .brace (code "self"))

/-- The implementation that marks an entity whose setters are enhanced. -/
def enhancedImpl (d : Description) : Tokens :=
  if d.options.settersEnhanced then implFront d "SettersEnhanced" ++ group .brace [] else []

/-- The implementations by which an embeddable object is a value. -/
def embeddableImpls (d : Description) : Tokens :=
  if d.options.embeddable then
    implFront d "ToValue" ++ group .brace
      (code "fn to_value (& self) -> :: entity_model :: Value" ++ group .brace
        (code ":: entity_model :: Value :: Embedded" ++ group .paren
          (code ":: std :: sync :: Arc :: new (:: std :: clone :: Clone :: clone (self))"))) ++
    implFront d "FromValue" ++ group .brace
      (code "fn from_value (value : :: entity_model :: Value) -> Option < Self >" ++ group .brace
        (code "match value" ++ group .brace
          (code ":: entity_model :: Value :: Embedded (embedded) =>" ++ group .brace
            (code ":: entity_model :: ManagedEntity :: as_any (& * embedded)" ++
              code ". downcast_ref :: < Self > () . cloned ()") ++
            code "_ => None ,")))
  else []

end Generated

/-- The code that is generated for an entity. -/
def Description.generated (d : Description) : Tokens :=
  Generated.entityImpl d ++ Generated.enhancedImpl d ++ Generated.embeddableImpls d

end Enhance

end Chronicle
