import Chronicle.Source.Grammar.Paths

/-!
# Types

The rules of types, of bounds and of the conditions on generic parameters.
-/

namespace Chronicle

namespace Source

namespace Rules

/-- Whether a bound may stand at the front. -/
def boundAhead : Look :=
  .both
    (.oneOf [[.anyWord], [.op "::"], [.op "?"], [.lifetime], [.opened .paren], [.op "~"]])
    (.negate (.word "where"))

/-- Further bounds after a first one. -/
def moreBounds : Rule Phrase :=
  .repeatWhile (.op "+") (.all [.op "+", .opt boundAhead (.call .bound)])

/-- Bounds; without `plus` there is only one. -/
def bounds (plus : Bool) : Rule Phrase :=
  .all [.call .bound, if plus then moreBounds else .done]

/-- Lifetimes that hold in what follows. -/
def boundLifetimes : Rule Phrase :=
  .all [.word "for", .op "<",
    .commaListUntil ">"
      (.all [.call .outerAttributes, .read .lifetime,
        .opt (.op ":") (.choose (.at [.op ":", .lifetime])
          (.all [.op ":", .read .lifetime,
            .repeatWhile (.op "+") (.all [.op "+", .opt (.at [.lifetime]) (.read .lifetime)])])
          (.skip (.op ":")))]),
    .op ">"]

/-- Bound lifetimes if they are there. -/
def optBoundLifetimes : Rule Phrase := .opt (.word "for") boundLifetimes

/-- The result of a function. -/
def result (plus : Bool) : Rule Phrase := .opt (.op "->") (.all [.op "->", .call (.type plus)])

/-- The arguments of a bound that are written like those of a function. -/
def callArguments : Rule Phrase :=
  .opt (.either (.group .paren) (.at [.op "::", .opened .paren])) <|
    .all [.skip (.optOp "::"), .inside .paren (.commaList (.call (.type true))), result false]

/-- A bound that is a path with its marks. -/
def traitBound : Rule Phrase :=
  .all [optBoundLifetimes, .opt (.op "~") (.all [.op "~", .word "const"]), .optWord "const",
    .optWord "async", .optOp "?", optBoundLifetimes, plainPath false, callArguments]

/-- One bound. -/
def bound : Rule Phrase :=
  .switch
    [(.at [.lifetime], .read .lifetime),
      (.word "use", .all [.word "use", .op "<",
        .commaListUntil ">" (.choose (.at [.lifetime]) (.read .lifetime) (.read .anyWord)), .op ">"]),
      (.group .paren, .inside .paren traitBound)]
    traitBound

/-- The binary interface of a function. -/
def binaryInterface : Rule Phrase :=
  .all [.word "extern", .opt (.at [.textLiteral]) (.read .textLiteral)]

/-- An argument of a function type, or the dots for any further ones; nothing stands behind the dots. -/
def functionTypeArgument : Rule Phrase :=
  .all [.call .outerAttributes,
    .opt (.both (.at [.anyWord, .op ":"]) (.negate (.at [.anyWord, .op "::"])))
      (.all [.read .anyWord, .op ":"]),
    .choose (.op "...")
      (.all [.op "...", .forbid (.negate (.oneOf [[.finish], [.op ",", .finish]]))])
      (.call (.type true))]

/-- A function type. -/
def functionType : Rule Phrase :=
  .all [.optWord "unsafe", .opt (.word "extern") binaryInterface, .word "fn",
    .inside .paren (.commaList functionTypeArgument), result false]

/-- A type that begins with a path. -/
def pathType (plus : Bool) : Rule Phrase :=
  .all [path false,
    .switch
      [(.opNot "!" "!=", .all [.op "!", delimited]),
        (.both (.op "+") (if plus then .at [] else .negate (.at [])), moreBounds)]
      .done]

/-- A type in parentheses or several of them. -/
def parenType (plus : Bool) : Rule Phrase :=
  .all [.inside .paren
      (.switch [(.at [.lifetime], bounds true), (.op "?", .call .bound)]
        (.commaList (.call (.type true)))),
    .opt (.both (.op "+") (if plus then .at [] else .negate (.at []))) moreBounds]

/-- A type. -/
def type (plus : Bool) : Rule Phrase :=
  .switch
    [(.group .bare, .inside .bare (.call (.type true))),
      (.word "for", .all [boundLifetimes,
        .choose (.words ["fn", "unsafe", "extern"]) functionType (pathType plus)]),
      (.group .paren, parenType plus),
      (.words ["fn", "unsafe", "extern"], functionType),
      (pathAhead, pathType plus),
      (.word "dyn", .all [.word "dyn", .optOp "*", bounds plus]),
      (.group .bracket, .inside .bracket
        (.all [.call (.type true), .opt (.op ";") (.all [.op ";", .call (.expression true)])])),
      (.op "*", .all [.op "*", .choose (.word "const") (.word "const") (.word "mut"),
        .call (.type false)]),
      (.op "&", .all [.op "&", .opt (.at [.lifetime]) (.read .lifetime), .optWord "mut",
        .call (.type false)]),
      (.opNot "!" "!=", .op "!"),
      (.word "impl", .all [.word "impl", bounds plus]),
      (.word "_", .word "_"),
      (.at [.lifetime, .op "+"], bounds true)]
    .never

/-- Whether a condition may stand at the front. -/
def conditionAhead : Look :=
  .negate (.either (.either .finish (.group .brace))
    (.either (.ops [",", ";", "="]) (.opNot ":" "::")))

/-- Bounds of a condition. -/
def conditionBounds : Rule Phrase :=
  .repeatWhile conditionAhead (.all [.call .bound, .optOp "+"])

/-- A condition on generic parameters. -/
def condition : Rule Phrase :=
  .all [.choose (.at [.lifetime, .op ":"]) (.read .lifetime)
      (.all [optBoundLifetimes, .call (.type true)]),
    .op ":", conditionBounds]

/-- The conditions on generic parameters; the word alone is dropped. -/
def whereClause : Rule Phrase :=
  .opt (.word "where") <|
    .choose (.at [.word "where", .opened .brace]) (.skip (.word "where")) <|
      .choose (.at [.word "where", .op ";"]) (.skip (.word "where")) <|
        .all [.word "where", .repeatWhile conditionAhead (.all [condition, .optOp ","])]

end Rules

end Source

end Chronicle
