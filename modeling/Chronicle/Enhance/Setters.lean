import Chronicle.Enhance.Class
import Chronicle.Enhance.Error
import Chronicle.Source.Lexer

/-!
# Setters

Which methods of a class are setters of tracked fields, and how their bodies are wrapped so that the
listeners of the object hear of the new value.

## Implementation notes

What happens to a method depends on its signature and on the getters of the class only, never on a
body; so all methods can be judged before any of them is changed.
-/

namespace Chronicle

namespace Enhance

open Source

/-- How accessors are named. -/
structure Naming where
  setterPrefix : String := "set_"
  getterPrefix : String := "get_"
  /-- The beginning of names of methods that only the crate may see. -/
  persistencePrefix : String := "_persistence_"
deriving DecidableEq, Repr

/-- What happens to a method. -/
inductive Verdict where
  /-- The method is no setter of a field. -/
  | keep
  /-- The method sets a field that is not tracked. -/
  | untracked (field : String)
  /-- The setter cannot be wrapped. -/
  | fail (error : EnhanceError)
  /-- The setter of a field is wrapped with the field's getter. -/
  | wrap (field getter : String)
deriving DecidableEq, Repr

/-- The rest of a name after a beginning. -/
def stripPrefix? (name beginning : String) : Option String :=
  (beginning.toList.isPrefixOf? name.toList).map String.ofList

/-- The field that a method sets by its name and its signature: it changes its object, takes one more
argument bound to a name, and declares no result. -/
def setterField? (naming : Naming) (m : Method) : Option String := do
  let field ← stripPrefix? m.name naming.setterPrefix
  if field.isEmpty || !m.signature.result.isEmpty then none
  match m.arguments with
  | [.receiver _ _ true true, .typed _ _ true _] => some field
  | _ => none

/-- Whether a method reads: it borrows its object, takes nothing else and declares a result. -/
def isGetter (m : Method) : Bool :=
  match m.arguments with
  | [.receiver _ _ true false] => !m.signature.result.isEmpty
  | _ => false

/-- Getters by the names of their fields. -/
abbrev Getters := List (String × String)

/-- The getters with one more method taken into account: a method with the field's own name wins over
one with the getters' beginning. -/
def addGetter (naming : Naming) (c : EntityClass) (getters : Getters) (m : Method) : Getters :=
  if isGetter m then
    let stripped := (stripPrefix? m.name naming.getterPrefix).filter fun field =>
      (c.field? field).isSome
    match stripped with
    | some field => if (getters.lookup field).isSome then getters else getters ++ [(field, m.name)]
    | none =>
      if (c.field? m.name).isSome then
        (getters.filter (·.1 ≠ m.name)) ++ [(m.name, m.name)]
      else getters
  else getters

/-- The getters among methods. -/
def gettersOf (naming : Naming) (c : EntityClass) (methods : List Method) : Getters :=
  methods.foldl (addGetter naming c) []

/-- The declared type of the first argument that is not the receiver. -/
def argumentType? (m : Method) : Option TypeExpr :=
  m.arguments.findSome? fun
    | .typed _ _ _ type => some type
    | _ => none

/-- What happens to a method of a class. -/
def judge (naming : Naming) (c : EntityClass) (getters : Getters) (m : Method) : Verdict :=
  match setterField? naming m with
  | none => .keep
  | some name =>
    match c.field? name with
    | none => .keep
    | some field =>
      if c.isTracked field then
        match ((argumentType? m).toList ++ [field.type]).findSome? primitiveName? with
        | some type => .fail (.primitiveField c.displayName name type)
        | none =>
          match getters.lookup name with
          | some getter => .wrap name getter
          | none => .fail (.missingGetter c.displayName name)
      else .untracked name

/-- The tokens that a piece of code writes. -/
def code (text : String) : Tokens := (lex? text.toList).getD []

/-- The statement that keeps what a getter reads. -/
def keepValue (holder getter : String) : Tokens :=
  code "let" ++ [.word holder] ++ code "= :: entity_model :: ToValue :: to_value" ++
    group .paren (code "& self ." ++ [.word getter] ++ group .paren []) ++ code ";"

/-- A body wrapped so that the listeners hear of what the getter reads before and after it. -/
def wrapped (field getter : String) (body : Tokens) : Tokens :=
  keepValue "__prev" getter ++
    group .paren (code "| |" ++ group .brace body) ++ group .paren [] ++ code ";" ++
    keepValue "__new" getter ++
    code ":: entity_model :: fire_listeners" ++
    group .paren (code "& * self ," ++ [.literal (Scanner.textLiteral field.toList)] ++
      code ", __prev , __new") ++
    code ";"

/-- A method after a verdict. -/
def carryOut (m : Method) : Verdict → Method
  | .wrap field getter => { m with body := wrapped field getter m.body }
  | _ => m

/-- A method that only the crate may see, if its name says so. -/
def narrow (naming : Naming) (m : Method) : Method :=
  if (stripPrefix? m.name naming.persistencePrefix).isSome then
    { m with visibility := Visibility.crate }
  else m

/-- The method of an enhanced class in the place of a given one. -/
def enhanceMethod (naming : Naming) (c : EntityClass) (getters : Getters) (m : Method) : Method :=
  narrow naming (carryOut m (judge naming c getters m))

/-- The first error among verdicts. -/
def firstError? (verdicts : List Verdict) : Option EnhanceError :=
  verdicts.findSome? fun
    | .fail error => some error
    | _ => none

/-- The fields of the setters that are wrapped, in the order of the methods. -/
def wrappedFields (verdicts : List Verdict) : List String :=
  verdicts.filterMap fun
    | .wrap field _ => some field
    | _ => none

/-- What is noted about methods, up to the first error. -/
def methodNotes (c : EntityClass) (verdicts : List Verdict) : List Note :=
  (verdicts.takeWhile fun
    | .fail _ => false
    | _ => true).filterMap fun
    | .untracked field => some (.untracked c.displayName field)
    | _ => none

/-- The fields of the wrapped setters of a class, given its methods, or the first error. -/
def enhancedSetters (naming : Naming) (c : EntityClass) (methods : List Method) :
    Noted (List String) :=
  let verdicts := methods.map (judge naming c (gettersOf naming c methods))
  match firstError? verdicts with
  | some error => ⟨methodNotes c verdicts, .error error⟩
  | none =>
    let fields := wrappedFields verdicts
    ⟨methodNotes c verdicts ++ [.enhanced c.displayName fields.length], .ok fields⟩

end Enhance

end Chronicle
