import Chronicle.Source.Item
import Chronicle.Source.TextValue

/-!
# Lists of options

The options in an attribute: a list of paths, alone, with a value or with arguments, separated by
commas.

## Implementation notes

Reading says what is wrong with the first option that cannot be read.
-/

namespace Chronicle

namespace Enhance

open Source

/-- What can be wrong with a list of options or with an option in it. -/
inductive OptionError where
  /-- An attribute without arguments. -/
  | argumentsMissing (owner : String)
  /-- An attribute with a value in the place of arguments. -/
  | argumentsExpected (owner : String)
  | nameExpected (atEnd : Bool)
  | keywordFound (word : String)
  | segmentExpected (atEnd : Bool)
  | commaExpected
  | valueExpected (atEnd : Bool)
  | attributeFound
  /-- An option that nothing is known about. -/
  | unknown (owner key : String)
  | nested
  | flagExpected
  | textExpected
deriving DecidableEq, Repr

namespace OptionError

/-- What was expected, said where the input ends too early. -/
def expected (atEnd : Bool) (what : String) : String :=
  (if atEnd then "unexpected end of input, " else "") ++ "expected " ++ what

/-- The message for an error. -/
def message : OptionError → String
  | .argumentsMissing owner =>
    "expected attribute arguments in parentheses: #[" ++ owner ++ "(...)]"
  | .argumentsExpected owner => "expected parentheses: #[" ++ owner ++ "(...)]"
  | .nameExpected atEnd => expected atEnd "identifier"
  | .keywordFound word => "expected identifier, found keyword `" ++ word ++ "`"
  | .segmentExpected atEnd => expected atEnd "path segment after `::`"
  | .commaExpected => "expected `,`"
  | .valueExpected atEnd => expected atEnd "an expression"
  | .attributeFound => "unexpected attribute inside of attribute"
  | .unknown owner key => "unknown #[" ++ owner ++ "] option `" ++ key ++ "`"
  | .nested => "nested lists are not supported in #[entity]"
  | .flagExpected => "field options of #[entity] are plain flags"
  | .textExpected => "expected a string literal"

end OptionError

namespace OptionList

/-- What is wrong where a name should stand. -/
def blameName : Tokens → OptionError
  | [] => .nameExpected true
  | .word word :: _ => .keywordFound word
  | _ => .nameExpected false

/-- What is wrong with a path that cannot be read. -/
def blamePath : Nat → Tokens → OptionError
  | 0, tokens => blameName tokens
  | fuel + 1, tokens =>
    match Terminal.read? (.op "::") tokens with
    | some (_, rest) => blameSegment fuel rest true
    | none => blameSegment fuel tokens true
where
  /-- What is wrong from a segment on; `first` tells whether it is the first one. -/
  blameSegment : Nat → Tokens → Bool → OptionError
    | 0, tokens, _ => blameName tokens
    | fuel + 1, tokens, first =>
      match Rules.plainWord.follow 1 (fun _ _ => none) tokens with
      | none => if first then blameName tokens else .segmentExpected tokens.isEmpty
      | some (_, rest) =>
        match Terminal.read? (.op "::") rest with
        | some (_, rest) => blameSegment fuel rest false
        | none => .nameExpected false

/-- What is wrong with an option that cannot be read. -/
def blame (meaning : Meaning) (tokens : Tokens) : OptionError :=
  match Meta.readPath meaning tokens with
  | none => blamePath (tokens.length + 1) tokens
  | some (_, rest) =>
    match rest with
    | _ :: [] => .valueExpected true
    | _ :: .punct '#' _ :: .opened .bracket :: _ => .attributeFound
    | _ => .valueExpected false

/-- The options that tokens write, given some fuel. -/
def readFrom (meaning : Meaning) : Nat → Tokens → Except OptionError (List Meta)
  | 0, _ => .ok []
  | _ + 1, [] => .ok []
  | fuel + 1, tokens =>
    match Meta.read meaning tokens with
    | none => .error (blame meaning tokens)
    | some (option, []) => .ok [option]
    | some (option, rest) =>
      match Terminal.read? (.op ",") rest with
      | none => .error .commaExpected
      | some (_, rest) => (readFrom meaning fuel rest).map (option :: ·)

/-- The options that tokens write. -/
def read (tokens : Tokens) : Except OptionError (List Meta) :=
  readFrom (meaning tokens.length) (tokens.length + 1) tokens

/-- The options in the arguments of an attribute with the given name. -/
def ofMeta (name : String) (said : Meta) : Except OptionError (List Meta) :=
  match said.body with
  | .bare => .error (.argumentsMissing name)
  | .value _ => .error (.argumentsExpected name)
  | .arguments _ content => read content

/-- The options in all attributes with the given name, in their order. -/
def ofAttributes (name : String) (attributes : List Attribute) : Except OptionError (List Meta) := do
  let lists ← (attributes.filter (·.name? = some name)).mapM fun a =>
    ofMeta name a.said
  return lists.flatten

/-- The key of an option: its only word, or nothing. -/
def key (option : Meta) : String := (onlyWord? option.path).getD ""

/-- The text that a value stands for, if it is a text literal. -/
def text (value : Tokens) : Except OptionError String :=
  match value with
  | [.literal literal] =>
    match textValue? literal with
    | some text => .ok text
    | none => .error .textExpected
  | _ => .error .textExpected

end OptionList

end Enhance

end Chronicle
