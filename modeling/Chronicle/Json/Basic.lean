import Chronicle.Text.Numeral

/-!
# JSON values

JSON values and their compact text.

## Implementation notes

A number is kept as it is written, because only the field that is read from it decides whether it is
an integer or a floating-point number and which range it must lie in. A string is absent when it holds
an unpaired surrogate: such a string is well formed, but only a value that nobody reads may hold it.
-/

namespace Chronicle

/-- A JSON value. -/
inductive Json where
  | null
  | bool (value : Bool)
  | number (literal : List Char)
  | string (text : Option String)
  | array (items : List Json)
  | object (members : List (Option String × Json))

namespace Json

/-- The string of a text. -/
def ofText (text : String) : Json :=
  .string (some text)

/-- The number of an integer. -/
def ofInt (n : Int) : Json :=
  .number (if n < 0 then '-' :: Nat.toDigits 10 n.natAbs else Nat.toDigits 10 n.natAbs)

/-- The object of named members. -/
def ofMembers (members : List (String × Json)) : Json :=
  .object (members.map fun (name, value) => (some name, value))

/-- The characters that stand for one character inside a JSON string. -/
def escapeChar (c : Char) : List Char :=
  if c = '"' then ['\\', '"']
  else if c = '\\' then ['\\', '\\']
  else if c = '\x08' then ['\\', 'b']
  else if c = '\x0c' then ['\\', 'f']
  else if c = '\n' then ['\\', 'n']
  else if c = '\r' then ['\\', 'r']
  else if c = '\t' then ['\\', 't']
  else if c.toNat < 32 then '\\' :: 'u' :: Text.hexPadded 4 c.toNat
  else [c]

/-- A JSON string with its quotes. -/
def quote (text : String) : List Char :=
  '"' :: (text.toList.flatMap escapeChar ++ ['"'])

mutual

/-- The compact text of a value. -/
def render : Json → List Char
  | .null => ['n', 'u', 'l', 'l']
  | .bool true => ['t', 'r', 'u', 'e']
  | .bool false => ['f', 'a', 'l', 's', 'e']
  | .number literal => literal
  | .string text => quote (text.getD "")
  | .array items => '[' :: (renderItems items ++ [']'])
  | .object members => '\x7b' :: (renderMembers members ++ ['\x7d'])

/-- The texts of items, with commas between them. -/
def renderItems : List Json → List Char
  | [] => []
  | [item] => render item
  | item :: rest => render item ++ ',' :: renderItems rest

/-- The texts of members, with commas between them. -/
def renderMembers : List (Option String × Json) → List Char
  | [] => []
  | [(name, value)] => quote (name.getD "") ++ ':' :: render value
  | (name, value) :: rest =>
    quote (name.getD "") ++ ':' :: (render value ++ ',' :: renderMembers rest)

end

/-- The compact text of a value, as a string. -/
def text (value : Json) : String :=
  String.ofList value.render

end Json

end Chronicle
