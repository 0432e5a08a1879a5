/-!
# YAML nodes

The values that a YAML document writes.

## Implementation notes

A scalar keeps how it is written, because only the field that is read from it decides whether it is a
text, a truth value or nothing at all. Aliases stand for the nodes that they repeat.
-/

namespace Chronicle

namespace Yaml

/-- How a scalar is written. -/
inductive ScalarStyle where
  | plain
  /-- Between single or double quotes. -/
  | quoted
  /-- A block whose line breaks are kept. -/
  | literal
  /-- A block whose line breaks are folded. -/
  | folded
deriving DecidableEq, Repr

/-- A YAML node. -/
inductive Node where
  | scalar (style : ScalarStyle) (tag : Option String) (text : String)
  | sequence (items : List Node)
  | mapping (members : List (Node × Node))

namespace Node

/-- The node of what is left out. -/
def absent : Node := .scalar .plain none ""

/-- The text of a scalar, however it is written. -/
def text? : Node → Option String
  | .scalar _ _ text => some text
  | _ => none

/-- The truth value that a word names. -/
def truth? (text : String) : Option Bool :=
  if ["true", "True", "TRUE"].contains text then some true
  else if ["false", "False", "FALSE"].contains text then some false
  else none

/-- The truth value of a plain scalar, or of a block whose tag says that it is one. -/
def bool? : Node → Option Bool
  | .scalar .plain _ text => truth? text
  | .scalar .literal (some "tag:yaml.org,2002:bool") text => truth? text
  | _ => none

/-- Whether a scalar says that there is nothing. -/
def isNull : Node → Bool
  | .scalar .plain _ text => ["", "~", "null", "Null", "NULL"].contains text
  | _ => false

/-- The name of the variant that a scalar chooses: by its tag, if it has one of its own and says
nothing else, or by its text. -/
def variant? : Node → Option String
  | .scalar style (some tag) text =>
    match tag.toList with
    | '!' :: name => if isNull (.scalar style none text) then some (String.ofList name) else none
    | _ => some text
  | .scalar _ none text => some text
  | _ => none

/-- The fields of a record with the given field names: unknown fields are skipped, a known one must not
be repeated, and what is left out has no fields. -/
def record? (names : List String) : Node → Option (String → Option Node)
  | .mapping members => do
    let members ← members.mapM fun (key, value) => key.text?.map (·, value)
    if names.all fun name => (members.filter (·.1 == name)).length ≤ 1 then
      some fun name => members.lookup name
    else none
  | .scalar .plain _ "" => some fun _ => none
  | _ => none

end Node

end Yaml

end Chronicle
