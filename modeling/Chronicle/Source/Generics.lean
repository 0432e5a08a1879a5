import Chronicle.Source.Attribute

/-!
# Generic parameters

The parameters of an item, and the three ways of writing them: where the item is declared, where an
implementation introduces them, and where the item is used.

## Implementation notes

Lifetimes are written before all other parameters, whatever their order in the program; where that
leaves two parameters without a comma between them, one is added.
-/

namespace Chronicle

namespace Source

/-- The kinds of generic parameters. -/
inductive ParameterKind where
  | lifetime
  | type
  | constant
deriving DecidableEq, Repr

/-- A generic parameter. -/
structure GenericParameter where
  attributes : List Attribute
  kind : ParameterKind
  /-- The name; of a lifetime with its mark. -/
  name : Tokens
  /-- A colon and the bounds, or a colon and the type of a constant. -/
  bounds : Tokens
  /-- An equals sign and the default. -/
  default : Tokens
  /-- Whether a comma follows. -/
  comma : Bool
deriving DecidableEq, Repr

/-- Generic parameters; an empty list is written as nothing. -/
structure Generics where
  parameters : List GenericParameter
deriving DecidableEq, Repr

/-- Pieces of a list, each with the comma after it, written with the lifetimes first. -/
def lifetimesFirst (pieces : List (Bool × Tokens × Bool)) : Tokens :=
  let (lifetimes, others) := pieces.partition (·.1)
  let written := fun (pieces : List (Bool × Tokens × Bool)) =>
    pieces.flatMap fun (_, tokens, comma) => withComma tokens comma
  let gap := !others.isEmpty && lifetimes.getLast?.any (fun piece => !piece.2.2)
  withComma (written lifetimes) gap ++ written others

namespace GenericParameter

/-- A parameter where an implementation introduces it: without its default. -/
def introduced (p : GenericParameter) : Tokens :=
  p.attributes.flatMap (·.tokens) ++
    (if p.kind = .constant then [.word "const"] else []) ++ p.name ++ p.bounds

/-- A parameter where the item is declared. -/
def declared (p : GenericParameter) : Tokens := p.introduced ++ p.default

/-- Reads bounds after a colon, which is dropped where no bound follows it. -/
def readBounds (meaning : Meaning) : Reading Tokens :=
  Reading.opt (.opNot ":" "::") do
    let colon ← Reading.op ":"
    let bounds ← Reading.many (.negate (.ops [",", ">", "="])) do
      let bound ← Reading.phrase meaning .bound
      return bound ++ (← Reading.opt (.op "+") (Reading.op "+"))
    return if bounds.isEmpty then [] else colon ++ bounds.flatten

/-- Reads a default after an equals sign. -/
def readDefault (body : Reading Tokens) : Reading Tokens :=
  Reading.opt (.op "=") do
    let equals ← Reading.op "="
    return equals ++ (← body)

/-- Reads a parameter without the comma after it. -/
def read (meaning : Meaning) : Reading GenericParameter := do
  let attributes ← Attribute.readAll meaning false
  if ← Reading.sees (.at [.lifetime]) then
    let name ← Reading.terminal .lifetime
    return ⟨attributes, .lifetime, name, ← readBounds meaning, [], false⟩
  else if ← Reading.sees (.word "const") then
    let _ ← Reading.word "const"
    let name ← Reading.terminal .name
    let colon ← Reading.op ":"
    let type ← Reading.phrase meaning (.type true)
    let value ← readDefault (Reading.phrase meaning .genericArgument)
    return ⟨attributes, .constant, name, colon ++ type, value, false⟩
  else
    let name ← Reading.terminal .anyWord
    if name ≠ [.word "_"] && !(Look.at [.name]).holds name then failure
    let bounds ← readBounds meaning
    return ⟨attributes, .type, name, bounds, ← readDefault (Reading.phrase meaning (.type true)),
      false⟩

end GenericParameter

namespace Generics

/-- No parameters. -/
def none : Generics := ⟨[]⟩

/-- Parameters between angles, each written in a given way. -/
def between (g : Generics) (write : GenericParameter → Tokens) : Tokens :=
  if g.parameters.isEmpty then []
  else
    operator ['<'] ++
      lifetimesFirst (g.parameters.map fun p =>
        (decide (p.kind = .lifetime), write p, p.comma)) ++
      operator ['>']

/-- The parameters where the item is declared. -/
def declared (g : Generics) : Tokens := g.between GenericParameter.declared

/-- The parameters where an implementation introduces them. -/
def introduced (g : Generics) : Tokens := g.between GenericParameter.introduced

/-- The parameters as arguments where the item is used. -/
def applied (g : Generics) : Tokens := g.between GenericParameter.name

/-- Reads parameters if there are any. -/
def read (meaning : Meaning) : Reading Generics := do
  if ← Reading.sees (.op "<") then
    let _ ← Reading.op "<"
    let parameters ← Reading.commaList (.op ">") (GenericParameter.read meaning)
    let _ ← Reading.op ">"
    return ⟨parameters.map fun (p, comma) => { p with comma }⟩
  else return none

end Generics

end Source

end Chronicle
