import Chronicle.Source.Generics
import Chronicle.Source.TypeExpr

/-!
# Function signatures

The signature of a function: its receiver, its other arguments, the dots for any further ones and its
result.
-/

namespace Chronicle

namespace Source

/-- An argument of a function. -/
inductive Argument where
  /-- The object that a method is called on: its tokens, whether it is borrowed and whether it may be
  changed. -/
  | receiver (attributes : List Attribute) (tokens : Tokens) (borrowed : Bool) (changeable : Bool)
  /-- A pattern with its type; `name` is there if the pattern binds one name. -/
  | typed (attributes : List Attribute) (pattern : Tokens) (bindsName : Bool) (type : TypeExpr)
deriving DecidableEq, Repr

/-- What is read at the place of an argument: an argument, or the tokens of the dots that stand for any
further arguments. -/
inductive Parameter where
  | argument (argument : Argument)
  | open (tokens : Tokens)
deriving DecidableEq, Repr

/-- The signature of a function. -/
structure Signature where
  /-- The words before the function's own word. -/
  qualifiers : Tokens
  name : String
  generics : Generics
  /-- The arguments, each with the comma after it. -/
  arguments : List (Argument × Bool)
  /-- The dots for any further arguments, with what stands around them; nothing if there are none. -/
  variadic : Tokens
  /-- The arrow and the type of the result, if it is written. -/
  result : Tokens
  whereClause : Tokens
deriving DecidableEq, Repr

namespace Argument

/-- The tokens of an argument. -/
def tokens : Argument → Tokens
  | .receiver attributes tokens _ _ => attributes.flatMap Attribute.tokens ++ tokens
  | .typed attributes pattern _ type =>
    attributes.flatMap Attribute.tokens ++ pattern ++ operator [':'] ++ type.tokens

/-- Whether an argument is the object that a method is called on. -/
def isReceiver : Argument → Bool
  | .receiver .. => true
  | .typed .. => false

/-- The beginnings of a receiver; dots in the place of its type make it a pattern. -/
def receiverStart : Look :=
  .both
    (.oneOf ([[], [.word "mut"]].flatMap fun change =>
      [[], [.op "&"], [.op "&", .lifetime]].map fun borrow =>
        borrow ++ change ++ [.word "self"]))
    (.negate (.oneOf [[.word "self", .op "::"], [.word "self", .op ":", .op "..."],
      [.word "mut", .word "self", .op ":", .op "..."]]))

/-- Reads a receiver. -/
def readReceiver (meaning : Meaning) (attributes : List Attribute) : Reading Argument := do
  let borrow ← Reading.opt (.op "&") do
    let mark ← Reading.op "&"
    return mark ++ (← Reading.opt (.at [.lifetime]) (Reading.terminal .lifetime))
  let change ← Reading.opt (.word "mut") (Reading.word "mut")
  let self ← Reading.word "self"
  let type ← Reading.opt (if borrow.isEmpty then .op ":" else .negate (.at [])) do
    let colon ← Reading.op ":"
    return colon ++ (← Reading.phrase meaning (.type true))
  return .receiver attributes (borrow ++ change ++ self ++ type) (!borrow.isEmpty) (!change.isEmpty)

/-- Whether a pattern binds one name, and possibly matches another pattern too. -/
def bindsName (pattern : Tokens) : Bool :=
  let rest := fun (tokens : Tokens) (word : String) =>
    match tokens with
    | .word w :: rest => if w = word then rest else tokens
    | _ => tokens
  match rest (rest pattern "ref") "mut" with
  | .word text :: after =>
    (text = "self" || !keywords.contains text) &&
      (after.isEmpty || (Look.op "@").holds after)
  | _ => false

end Argument

namespace Parameter

/-- Reads the dots for any further arguments, after attributes and what else precedes them. -/
def readOpen (attributes : List Attribute) (before : Tokens) : Reading Parameter := do
  return .open (attributes.flatMap Attribute.tokens ++ before ++ (← Reading.op "..."))

/-- Reads what has a pattern, or a type alone where a type stands in its place. -/
def readTyped (meaning : Meaning) (attributes : List Attribute) : Reading Parameter := do
  if ← Reading.sees (.at [.name, .op "<"]) then
    return .argument (.typed attributes [.word "_"] false (← TypeExpr.read meaning true))
  else
    let pattern ← Reading.phrase meaning .pattern
    let colon ← Reading.op ":"
    if ← Reading.sees (.op "...") then readOpen attributes (pattern ++ colon)
    else
      let type ← TypeExpr.read meaning true
      return .argument (.typed attributes pattern (Argument.bindsName pattern) type)

/-- Reads an argument or the dots for further ones. -/
def read (meaning : Meaning) : Reading Parameter := do
  let attributes ← Attribute.readAll meaning false
  if ← Reading.sees (.op "...") then readOpen attributes []
  else if ← Reading.sees Argument.receiverStart then
    return .argument (← Argument.readReceiver meaning attributes)
  else readTyped meaning attributes

end Parameter

namespace Signature

/-- The tokens of a signature. -/
def tokens (s : Signature) : Tokens :=
  s.qualifiers ++ [.word "fn", .word s.name] ++ s.generics.declared ++
    group .paren
      ((s.arguments.flatMap fun (argument, comma) => withComma argument.tokens comma) ++ s.variadic) ++
    s.result ++ s.whereClause

/-- The words that may stand before a function's own word, given those that tell of its safety. -/
def qualifierLists (safeties : List String) : List (List Terminal) :=
  [[], [.word "const"]].flatMap fun constant =>
    [[], [.word "async"]].flatMap fun asynchronous =>
      ([] :: safeties.map ([.word ·])).flatMap fun safety =>
        [[], [.word "extern"], [.word "extern", .textLiteral]].map fun binary =>
          constant ++ asynchronous ++ safety ++ binary

/-- Whether the words before a function and its own word stand at the front. -/
def starts : Look := .oneOf ((qualifierLists ["unsafe"]).map (· ++ [.word "fn"]))

/-- The same for a function of another language, which may be declared to be safe. -/
def foreignStarts : Look := .oneOf ((qualifierLists ["unsafe", "safe"]).map (· ++ [.word "fn"]))

/-- The words before a function's own word. -/
def qualifierRule : Rule Phrase :=
  .all [.optWord "const", .optWord "async", .opt (.words ["unsafe", "safe"]) (.read .anyWord),
    .opt (.word "extern") (.all [.word "extern", .opt (.at [.textLiteral]) (.read .textLiteral)])]

/-- The arguments and the dots for any further ones; nothing stands behind the dots. -/
def split? : List (Parameter × Bool) → Option (List (Argument × Bool) × Tokens)
  | [] => some ([], [])
  | [(.open dots, comma)] => some ([], withComma dots comma)
  | (.open _, _) :: _ :: _ => none
  | (.argument argument, comma) :: more => do
    let (arguments, variadic) ← split? more
    return ((argument, comma) :: arguments, variadic)

/-- Reads a signature; a receiver is the first argument or there is none. -/
def read (meaning : Meaning) : Reading Signature := do
  let qualifiers ← Reading.rule meaning qualifierRule
  let _ ← Reading.word "fn"
  let name ← Reading.name
  let generics ← Generics.read meaning
  let parameters ← Reading.inside .paren (Reading.commaList .finish (Parameter.read meaning))
  let (arguments, variadic) ← split? parameters
  if (arguments.drop 1).any (·.1.isReceiver) then failure
  let result ← Reading.opt (.op "->") do
    let arrow ← Reading.op "->"
    return arrow ++ (← Reading.phrase meaning (.type true))
  let whereClause ← Reading.phrase meaning .whereClause
  return { qualifiers, name, generics, arguments, variadic, result, whereClause }

end Signature

end Source

end Chronicle
