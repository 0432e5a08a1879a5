import Chronicle.Source.Signature
import Chronicle.Source.Visibility

/-!
# Implementations

An implementation for a type, and the methods in it.

## Implementation notes

Attributes that stand in a method's body belong to the method and are written at the beginning of the
body, so that the body itself can be replaced.
-/

namespace Chronicle

namespace Source

/-- A method. -/
structure Method where
  attributes : List Attribute
  visibility : Visibility
  /-- The word of a method that may be replaced, if it is there. -/
  replaceable : Tokens
  signature : Signature
  /-- Attributes that stand in the body. -/
  innerAttributes : List Attribute
  /-- The statements of the body. -/
  body : Tokens
deriving DecidableEq, Repr

/-- An item of an implementation. -/
inductive Member where
  | method (method : Method)
  | other (tokens : Tokens)
deriving DecidableEq, Repr

/-- An implementation. -/
structure ImplBlock where
  attributes : List Attribute
  /-- What stands before the parameters. -/
  front : Tokens
  generics : Generics
  /-- What is implemented, and the word after it; nothing for the type's own methods. -/
  trait : Tokens
  type : TypeExpr
  whereClause : Tokens
  innerAttributes : List Attribute
  members : List Member
deriving DecidableEq, Repr

namespace Method

/-- The body as a block. -/
def block (m : Method) : Tokens := group .brace m.body

/-- The tokens of a method. -/
def tokens (m : Method) : Tokens :=
  m.attributes.flatMap Attribute.tokens ++ m.visibility.tokens ++ m.replaceable ++
    m.signature.tokens ++ group .brace (m.innerAttributes.flatMap Attribute.tokens ++ m.body)

/-- The name of a method. -/
def name (m : Method) : String := m.signature.name

/-- The arguments without their commas. -/
def arguments (m : Method) : List Argument := m.signature.arguments.map (·.1)

end Method

namespace Member

/-- The tokens of a member. -/
def tokens : Member → Tokens
  | .method m => m.tokens
  | .other tokens => tokens

/-- The method that a member is, if it is one. -/
def method? : Member → Option Method
  | .method m => some m
  | .other _ => none

/-- Reads a member; a method without a body keeps its tokens as they are written. -/
def read (meaning : Meaning) : Reading Member := do
  let start ← get
  let attributes ← Attribute.readAll meaning false
  let visibility ← Visibility.read meaning
  let replaceable ← Reading.opt (.both (.word "default") (.negate (.at [.anyWord, .op "!"])))
    (Reading.word "default")
  if ← Reading.sees Signature.starts then
    let signature ← Signature.read meaning
    if ← Reading.sees (.op ";") then
      let _ ← Reading.op ";"
      let rest ← get
      return .other (start.take (start.length - rest.length))
    else
      Reading.inside .brace do
        let innerAttributes ← Attribute.readAll meaning true
        let body ← Reading.phrase meaning .statements
        return .method { attributes, visibility, replaceable, signature, innerAttributes, body }
  else
    let tail ← Reading.phrase meaning
      (.memberTail (visibility ≠ .inherited || !replaceable.isEmpty))
    return .other
      (attributes.flatMap Attribute.tokens ++ visibility.tokens ++ replaceable ++ tail)

end Member

namespace ImplBlock

/-- The tokens of an implementation block. -/
def tokens (b : ImplBlock) : Tokens :=
  b.attributes.flatMap Attribute.tokens ++ b.front ++ b.generics.declared ++ b.trait ++
    b.type.tokens ++ b.whereClause ++
    group .brace (b.innerAttributes.flatMap Attribute.tokens ++ b.members.flatMap Member.tokens)

/-- The methods in their order. -/
def methods (b : ImplBlock) : List Method := b.members.filterMap Member.method?

/-- The words before an implementation's own word. -/
def starts : Look :=
  .oneOf ([[], [.word "default"]].flatMap fun replaceable =>
    [[], [.word "unsafe"]].map fun safety => replaceable ++ safety ++ [.word "impl"])

/-- Whether what follows opens parameters and not a path in angles. -/
def opensGenerics : Look :=
  .both (.op "<")
    (.either
      (.oneOf [[.op "<", .op ">"], [.op "<", .op "#"], [.op "<", .word "const"]])
      (.both
        (.oneOf ([[.lifetime], [.name]].flatMap fun parameter =>
          [":", ",", ">", "="].map fun mark => [.op "<"] ++ parameter ++ [.op mark]))
        (.negate (.at [.op "<", .name, .op "::"]))))

/-- Reads the mark that denies an implementation. -/
def readDenial : Reading Tokens :=
  Reading.opt (.both (.op "!") (.negate (.at [.op "!", .opened .brace]))) (Reading.op "!")

/-- Reads the words of an implementation for constants. -/
def readConstness : Reading Tokens := do
  let doubt ← Reading.opt (.at [.op "?", .word "const"]) (Reading.op "?")
  let word ← Reading.opt (.word "const") (Reading.word "const")
  return doubt ++ word

/-- Reads an implementation after its attributes. One for constants and one of something that has no
path are read as tokens only. -/
def readAfter (meaning : Meaning) (attributes : List Attribute) : Reading (Option ImplBlock) := do
  let replaceable ← Reading.opt (.word "default") (Reading.word "default")
  let safety ← Reading.opt (.word "unsafe") (Reading.word "unsafe")
  let word ← Reading.word "impl"
  let generics ← if ← Reading.sees opensGenerics then Generics.read meaning else pure Generics.none
  let constness ← readConstness
  let denial ← readDenial
  let first ← TypeExpr.read meaning true
  let (trait, type, isPlain) ←
    if ← Reading.sees (.word "for") then
      let link ← Reading.word "for"
      pure (denial ++ first.tokens ++ link, ← TypeExpr.read meaning true, first.isPath)
    else if denial.isEmpty then pure ([], first, true)
    else pure ([], .other (denial ++ first.tokens), true)
  let whereClause ← Reading.phrase meaning .whereClause
  Reading.inside .brace do
    let innerAttributes ← Attribute.readAll meaning true
    let members ← Reading.many .more (Member.read meaning)
    if isPlain && constness.isEmpty then
      return some
        { attributes, front := replaceable ++ safety ++ word, generics, trait, type, whereClause,
          innerAttributes, members }
    else return none

end ImplBlock

end Source

end Chronicle
