import Chronicle.Source.Generics
import Chronicle.Source.Visibility

/-!
# Paths and attributes

The rules of token trees, attributes, visibilities and paths.
-/

namespace Chronicle

namespace Source

namespace Rules

/-- The delimiters of a group that is written. -/
def writtenGroups : List Delimiter := [.paren, .bracket, .brace]

/-- A token, or a group with all that is in it. -/
def tree : Rule Phrase :=
  .switch ((.bare :: writtenGroups).map fun delimiter =>
      (.group delimiter, .inside delimiter (.call .trees)))
    (.read .any)

/-- Whether a written group stands at the front. -/
def groupAhead : Look := .oneOf (writtenGroups.map fun delimiter => [.opened delimiter])

/-- A written group. -/
def delimited : Rule Phrase := .choose groupAhead (.call .tree) .never

/-- Attributes before a part of a program, or in it. -/
def attributes (inner : Bool) : Rule Phrase :=
  .opt (.at (if inner then [.op "#", .op "!"] else [.op "#"])) <|
    .reading fun meaning tokens => do
      let (attributes, rest) ← Attribute.readAll meaning inner tokens
      some (attributes.flatMap Attribute.tokens, rest)

/-- A visibility. -/
def visibility : Rule Phrase :=
  .opt (.word "pub") <| .reading fun meaning tokens => do
    let (visibility, rest) ← Visibility.read meaning tokens
    some (visibility.tokens, rest)

/-- A segment of a path of plain words. -/
def plainWord : Rule Phrase :=
  .choose (.either (.at [.name]) (.words ["super", "self", "Self", "crate"])) (.read .anyWord) .never

/-- A path of plain words. -/
def wordPath : Rule Phrase :=
  .all [.optOp "::", plainWord, .repeatWhile (.op "::") (.all [.op "::", plainWord])]

/-- Whether arguments of a segment follow; in a value they follow two colons only. -/
def argumentsAhead (inValue : Bool) : Look :=
  if inValue then .at [.op "::", .op "<"]
  else .either (.opNot "<" "<=") (.at [.op "::", .op "<"])

/-- A segment of a path. -/
def segment (inValue : Bool) : Rule Phrase :=
  .choose (.words ["super", "self", "crate", "try"]) (.read .anyWord) <|
    .all [.choose (.word "Self") (.read .anyWord) (.read .name),
      .opt (argumentsAhead inValue) (.call .angleArguments)]

/-- The segments of a path. -/
def segments (inValue : Bool) : Rule Phrase :=
  .all [segment inValue,
    .repeatWhile (.both (.op "::") (.negate (.at [.op "::", .opened .paren])))
      (.all [.op "::", segment inValue])]

/-- A path. -/
def plainPath (inValue : Bool) : Rule Phrase := .all [.optOp "::", segments inValue]

/-- A path that may begin with a type in angles. -/
def path (inValue : Bool) : Rule Phrase :=
  .choose (.op "<")
    (.all [.op "<", .call (.type true),
      .opt (.word "as") (.all [.word "as", plainPath false]), .op ">", .op "::", segments inValue])
    (plainPath inValue)

/-- Whether a path stands at the front. -/
def pathAhead : Look :=
  .oneOf [[.name], [.word "self"], [.word "Self"], [.word "super"], [.word "crate"], [.op "::"],
    [.op "<"]]

/-- Whether a literal stands at the front. -/
def literalAhead : Look := .oneOf [[.literal], [.word "true"], [.word "false"]]

/-- Whether a literal stands at the front that may have a sign. -/
def signedLiteralAhead : Look := .either literalAhead (.at [.signedNumber])

/-- A literal that may have a sign. -/
def signedLiteral : Rule Phrase :=
  .choose (.at [.signedNumber]) (.read .signedNumber) <|
    .choose (.at [.literal]) (.read .literal) (.read .anyWord)

/-- A value among the arguments of a segment. -/
def constantArgument (otherwise : Rule Phrase) : Rule Phrase :=
  .switch [(signedLiteralAhead, signedLiteral), (.group .brace, .call .block)] otherwise

/-- One argument of a segment. -/
def genericArgument : Rule Phrase :=
  .choose (.both (.at [.lifetime]) (.negate (.at [.lifetime, .op "+"]))) (.read .lifetime) <|
    constantArgument <|
      .all [.call (.type true),
        .switch
          [(.op "=", .all [.op "=", constantArgument (.call (.type true))]),
            (.op ":", .all [.op ":", .repeatWhile (.negate (.ops [",", ">"]))
              (.all [.call .bound, .optOp "+"])])]
          .done]

/-- The arguments of a segment, lifetimes first. -/
def angleArguments : Rule Phrase :=
  .reading fun meaning tokens => do
    let (colons, rest) ← Reading.opt (.op "::") (Reading.op "::") tokens
    let (opening, rest) ← Reading.op "<" rest
    let argument : Reading (Bool × Tokens) := do
      let isLifetime ← Reading.sees (.both (.at [.lifetime]) (.negate (.at [.lifetime, .op "+"])))
      return (isLifetime, ← Reading.phrase meaning .genericArgument)
    let (arguments, rest) ← Reading.commaList (.op ">") argument rest
    let (closing, rest) ← Reading.op ">" rest
    some
      (colons ++ opening ++
        lifetimesFirst (arguments.map fun ((isLifetime, tokens), comma) =>
          (isLifetime, tokens, comma)) ++
        closing, rest)

end Rules

end Source

end Chronicle
