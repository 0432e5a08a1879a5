import Chronicle.Source.Reading

/-!
# Types

A type as far as its meaning for a property depends on it: a path with the name of its last segment and
the first type among that segment's arguments, a type in parentheses, a type that was handed on as a
whole, or any other type as its tokens.
-/

namespace Chronicle

namespace Source

/-- A type of a program. -/
inductive TypeExpr where
  /-- A path without a type among the arguments of its last segment. -/
  | named (front : Tokens) (name : String) (arguments : Tokens)
  /-- A path with the first type among the arguments of its last segment. -/
  | applied (front : Tokens) (name : String) (before : Tokens) (argument : TypeExpr)
      (after : Tokens)
  | paren (inner : TypeExpr)
  /-- A type that was handed on as a whole. -/
  | bare (inner : TypeExpr)
  | other (tokens : Tokens)
deriving DecidableEq, Repr

namespace TypeExpr

/-- The tokens of a type. -/
def tokens : TypeExpr → Tokens
  | .named front name arguments => front ++ [.word name] ++ arguments
  | .applied front name before argument after =>
    front ++ [.word name] ++ before ++ argument.tokens ++ after
  | .paren inner => group .paren inner.tokens
  | .bare inner => group .bare inner.tokens
  | .other tokens => tokens

/-- The name of the last segment of a path. -/
def lastName? : TypeExpr → Option String
  | .named _ name _ => some name
  | .applied _ name _ _ _ => some name
  | _ => none

/-- The first type among the arguments of a path's last segment. -/
def argument? : TypeExpr → Option TypeExpr
  | .applied _ _ _ argument _ => some argument
  | _ => none

/-- Whether a path begins with a type of its own. -/
def beginsWithType (front : Tokens) : Bool :=
  match front with
  | .punct '<' _ :: _ => true
  | _ => false

/-- Whether a type is a path of names. -/
def isPath : TypeExpr → Bool
  | .named front _ _ => !beginsWithType front
  | .applied front _ _ _ _ => !beginsWithType front
  | .bare inner => inner.isPath
  | _ => false

/-- The beginning of the arguments of a segment. -/
def argumentsStart : Look := .either (.op "<") (.at [.op "::", .op "<"])

/-- A path cut before its last segment. -/
structure Cut where
  front : Tokens
  name : String
  arguments : Tokens

/-- Reads the segments of a path; `front` holds what precedes them. -/
def readSegments (meaning : Meaning) : Nat → Tokens → Reading Cut
  | 0, _ => failure
  | limit + 1, front => do
    match ← Reading.terminal .anyWord with
    | [.word name] =>
      let arguments ← Reading.opt argumentsStart (Reading.phrase meaning .angleArguments)
      if ← Reading.sees (.op "::") then
        let colons ← Reading.op "::"
        readSegments meaning limit (front ++ [.word name] ++ arguments ++ colons)
      else return { front, name, arguments }
    | _ => failure

/-- Reads what precedes the segments of a path. -/
def readFront (meaning : Meaning) : Reading Tokens := do
  if ← Reading.sees (.op "<") then
    let opening ← Reading.op "<"
    let type ← Reading.phrase meaning (.type true)
    let role ← Reading.opt (.word "as") do
      let word ← Reading.word "as"
      return word ++ (← Reading.phrase meaning .typePath)
    let closing ← Reading.op ">"
    return opening ++ type ++ role ++ closing ++ (← Reading.op "::")
  else Reading.opt (.op "::") (Reading.op "::")

/-- The cut of tokens that are a path and nothing else. -/
def cut? (meaning : Meaning) (tokens : Tokens) : Option Cut := do
  let (front, rest) ← readFront meaning tokens
  let (cut, rest) ← readSegments meaning tokens.length front rest
  if rest.isEmpty then some cut else none

/-- Whether tokens are a type and nothing else. -/
def isType (meaning : Meaning) (tokens : Tokens) : Bool :=
  match meaning (.type true) tokens with
  | some (_, []) => true
  | _ => false

/-- Reads arguments up to the first type among them: what precedes it, and the type's tokens. -/
def readArguments (meaning : Meaning) : Nat → Tokens → Reading (Tokens × Option Tokens)
  | 0, _ => failure
  | limit + 1, before => do
    if ← Reading.sees (.op ">") then return (before, none)
    else
      let argument ← Reading.phrase meaning .genericArgument
      if isType meaning argument then return (before, some argument)
      else
        let comma ← Reading.opt (.op ",") (Reading.op ",")
        readArguments meaning limit (before ++ argument ++ comma)

/-- The tokens of arguments split around the first type among them. -/
def splitArguments? (meaning : Meaning) (arguments : Tokens) : Option (Tokens × Tokens × Tokens) := do
  let (colons, rest) ← Reading.opt (.op "::") (Reading.op "::") arguments
  let (opening, rest) ← Reading.op "<" rest
  let ((before, argument?), rest) ← readArguments meaning arguments.length (colons ++ opening) rest
  let argument ← argument?
  some (before, argument, rest)

/-- The type that tokens write, given that they are a type; types are looked into as deep as the
fuel allows. -/
def ofTokens (meaning : Meaning) : Nat → Tokens → TypeExpr
  | 0, tokens => .other tokens
  | fuel + 1, tokens =>
    match tokens with
    | .opened .bare :: rest => .bare (ofTokens meaning fuel rest.dropLast)
    | .opened .paren :: rest =>
      if tokens.getLast? = some (.closed .paren) && isType meaning rest.dropLast then
        .paren (ofTokens meaning fuel rest.dropLast)
      else .other tokens
    | _ =>
      match cut? meaning tokens with
      | none => .other tokens
      | some cut =>
        match splitArguments? meaning cut.arguments with
        | some (before, argument, after) =>
          .applied cut.front cut.name before (ofTokens meaning fuel argument) after
        | none => .named cut.front cut.name cut.arguments

/-- Reads a type. -/
def read (meaning : Meaning) (plus : Bool) : Reading TypeExpr := do
  let tokens ← Reading.phrase meaning (.type plus)
  return ofTokens meaning (tokens.length + 1) tokens

end TypeExpr

end Source

end Chronicle
