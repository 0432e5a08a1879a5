import Chronicle.Source.Reading

/-!
# Attributes

An attribute of a part of a program and what it says: a path, alone, with arguments in a group, or with
a value.
-/

namespace Chronicle

namespace Source

/-- What an attribute says after its path. -/
inductive MetaBody where
  | bare
  | arguments (delimiter : Delimiter) (content : Tokens)
  | value (tokens : Tokens)
deriving DecidableEq, Repr

/-- What an attribute says. -/
structure Meta where
  path : Tokens
  body : MetaBody
deriving DecidableEq, Repr

/-- An attribute; an inner one belongs to what it stands in. -/
structure Attribute where
  inner : Bool
  said : Meta
deriving DecidableEq, Repr

/-- The only word of a path, if it has one word and nothing else. -/
def onlyWord? : Tokens → Option String
  | [.word text] => some text
  | _ => none

namespace MetaBody

/-- The tokens after the path. -/
def tokens : MetaBody → Tokens
  | .bare => []
  | .arguments delimiter content => group delimiter content
  | .value written => operator ['='] ++ written

end MetaBody

namespace Meta

/-- The tokens between the brackets of an attribute. -/
def tokens (said : Meta) : Tokens := said.path ++ said.body.tokens

/-- Reads the path of an attribute. -/
def readPath (meaning : Meaning) : Reading Tokens := do
  if ← Reading.sees (.word "unsafe") then Reading.word "unsafe" else Reading.phrase meaning .wordPath

/-- The questions that a literal alone answers with yes. -/
def literalAlone : Look :=
  .oneOf [[.signedNumber, .finish], [.literal, .finish], [.word "true", .finish],
    [.word "false", .finish]]

/-- Reads a literal. -/
def readLiteral : Reading Tokens := do
  if ← Reading.sees (.at [.signedNumber]) then Reading.terminal .signedNumber
  else if ← Reading.sees (.at [.literal]) then Reading.terminal .literal
  else Reading.terminal .anyWord

/-- Reads the value after an equals sign; a sign belongs to a number that stands alone. -/
def readValue (meaning : Meaning) : Reading Tokens := do
  if ← Reading.sees literalAlone then readLiteral
  else if ← Reading.sees (.at [.op "#", .opened .bracket]) then failure
  else Reading.phrase meaning (.expression true)

/-- The delimiter that opens at the front, if it is a written one. -/
def delimiter? : Reading (Option Delimiter) := fun tokens =>
  match tokens with
  | .opened .bare :: _ => some (none, tokens)
  | .opened delimiter :: _ => some (some delimiter, tokens)
  | _ => some (none, tokens)

/-- Reads what follows the path. -/
def readBody (meaning : Meaning) : Reading MetaBody := do
  match ← delimiter? with
  | some delimiter =>
    return .arguments delimiter (← Reading.inside delimiter (Reading.phrase meaning .trees))
  | none =>
    if ← Reading.sees (.op "=") then
      let _ ← Reading.op "="
      return .value (← readValue meaning)
    else return .bare

/-- Reads a path and what follows it. -/
def read (meaning : Meaning) : Reading Meta := do
  let path ← readPath meaning
  return { path, body := ← readBody meaning }

end Meta

namespace Attribute

/-- The tokens of an attribute. -/
def tokens (a : Attribute) : Tokens :=
  operator ['#'] ++ (if a.inner then operator ['!'] else []) ++ group .bracket a.said.tokens

/-- The name of an attribute with a path of one word. -/
def name? (a : Attribute) : Option String := onlyWord? a.said.path

/-- Reads an attribute. -/
def read (meaning : Meaning) (inner : Bool) : Reading Attribute := do
  let _ ← Reading.op "#"
  if inner then
    let _ ← Reading.op "!"
  return { inner, said := ← Reading.inside .bracket (Meta.read meaning) }

/-- Reads all attributes that stand before a part of a program, or all that stand in it. -/
def readAll (meaning : Meaning) (inner : Bool) : Reading (List Attribute) :=
  Reading.many (.at (if inner then [.op "#", .op "!"] else [.op "#"])) (read meaning inner)

end Attribute

end Source

end Chronicle
