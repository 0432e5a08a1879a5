import Chronicle.Json.Number

/-!
# Reading JSON

The reader from texts to JSON values.

## Implementation notes

Readers return what follows the part they read. The two that call each other through nesting take an
amount of fuel; `Json.ofText?` gives them more than the text can use.
-/

namespace Chronicle

namespace Json

namespace Reader

/-- Whether a character may stand between the parts of a JSON text. -/
def isBlank (c : Char) : Bool :=
  c = ' ' || c = '\n' || c = '\t' || c = '\r'

/-- The text after its leading blanks. -/
def skipBlanks (s : List Char) : List Char :=
  s.dropWhile isBlank

/-- One unit of a string: a character, or one half of a surrogate pair. -/
inductive StringUnit where
  | char (c : Char)
  | surrogate (code : Nat)

/-- The unit with a code. -/
def StringUnit.ofCode (code : Nat) : StringUnit :=
  if 0xD800 ≤ code ∧ code < 0xE000 then .surrogate code else .char (Char.ofNat code)

/-- The character that a letter after a backslash stands for. -/
def escaped? : Char → Option Char
  | '"' => some '"'
  | '\\' => some '\\'
  | '/' => some '/'
  | 'b' => some '\x08'
  | 'f' => some '\x0c'
  | 'n' => some '\n'
  | 'r' => some '\r'
  | 't' => some '\t'
  | _ => none

/-- The units of a string up to its closing quote. -/
def units? : List Char → Option (List StringUnit × List Char)
  | '"' :: rest => some ([], rest)
  | '\\' :: 'u' :: a :: b :: c :: d :: rest => do
    let code ← Text.hexNumber? [a, b, c, d]
    let (units, rest) ← units? rest
    some (.ofCode code :: units, rest)
  | '\\' :: e :: rest => do
    let c ← escaped? e
    let (units, rest) ← units? rest
    some (.char c :: units, rest)
  | c :: rest =>
    if c.toNat < 32 then none
    else (units? rest).map fun (units, rest) => (.char c :: units, rest)
  | [] => none

/-- The text of units, if every surrogate is paired. -/
def pairUnits? : List StringUnit → Option (List Char)
  | [] => some []
  | .char c :: rest => (pairUnits? rest).map (c :: ·)
  | .surrogate high :: .surrogate low :: rest =>
    if high < 0xDC00 ∧ 0xDC00 ≤ low then
      (pairUnits? rest).map
        (Char.ofNat (0x10000 + (high - 0xD800) * 0x400 + (low - 0xDC00)) :: ·)
    else none
  | .surrogate _ :: _ => none

/-- The string whose opening quote has been read. -/
def string? (s : List Char) : Option (Option String × List Char) :=
  (units? s).map fun (units, rest) => ((pairUnits? units).map String.ofList, rest)

/-- The rest after one of the three named constants. -/
def constant? (word : List Char) (value : Json) (s : List Char) : Option (Json × List Char) :=
  if word.isPrefixOf s then some (value, s.drop word.length) else none

mutual

/-- The value at the front of a text without leading blanks. -/
def value? : Nat → List Char → Option (Json × List Char)
  | 0, _ => none
  | fuel + 1, s =>
    match s with
    | '"' :: rest => (string? rest).map fun (text, rest) => (.string text, rest)
    | '[' :: rest =>
      match skipBlanks rest with
      | ']' :: rest => some (.array [], rest)
      | rest => (items? fuel rest).map fun (items, rest) => (.array items, rest)
    | '\x7b' :: rest =>
      match skipBlanks rest with
      | '\x7d' :: rest => some (.object [], rest)
      | rest => (members? fuel rest).map fun (members, rest) => (.object members, rest)
    | 'n' :: _ => constant? ['n', 'u', 'l', 'l'] .null s
    | 't' :: _ => constant? ['t', 'r', 'u', 'e'] (.bool true) s
    | 'f' :: _ => constant? ['f', 'a', 'l', 's', 'e'] (.bool false) s
    | _ => (Literal.read? s).map fun (_, rest) => (.number (s.take (s.length - rest.length)), rest)

/-- The items of an array up to its closing bracket. -/
def items? : Nat → List Char → Option (List Json × List Char)
  | 0, _ => none
  | fuel + 1, s => do
    let (item, s) ← value? fuel s
    match skipBlanks s with
    | ']' :: rest => some ([item], rest)
    | ',' :: rest =>
      let (items, rest) ← items? fuel (skipBlanks rest)
      some (item :: items, rest)
    | _ => none

/-- The members of an object up to its closing brace. -/
def members? : Nat → List Char → Option (List (Option String × Json) × List Char)
  | 0, _ => none
  | fuel + 1, s =>
    match s with
    | '"' :: s => do
      let (name, s) ← string? s
      match skipBlanks s with
      | ':' :: s =>
        let (value, s) ← value? fuel (skipBlanks s)
        match skipBlanks s with
        | '\x7d' :: rest => some ([(name, value)], rest)
        | ',' :: rest =>
          let (members, rest) ← members? fuel (skipBlanks rest)
          some ((name, value) :: members, rest)
        | _ => none
      | _ => none
    | _ => none

end

end Reader

/-- The value that a text writes, if it writes one. -/
def ofText? (text : String) : Option Json :=
  let s := text.toList
  match Reader.value? (2 * s.length + 2) (Reader.skipBlanks s) with
  | some (value, rest) => if (Reader.skipBlanks rest).isEmpty then some value else none
  | none => none

end Json

end Chronicle
