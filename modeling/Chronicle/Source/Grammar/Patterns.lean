import Chronicle.Source.Grammar.Types

/-!
# Patterns

The rules of patterns.
-/

namespace Chronicle

namespace Source

namespace Rules

/-- Whether the end of a range may be missing. -/
def boundMissing : Look :=
  .either (.either .finish (.word "if"))
    (.either (.ops ["|", "=", ",", ";"]) (.opNot ":" "::"))

/-- An end of a range. -/
def rangeBound : Rule Phrase :=
  .switch
    [(signedLiteralAhead, signedLiteral),
      (pathAhead, path true),
      (.word "const", .all [.word "const", .call .block])]
    .never

/-- The mark of a range between patterns; the old mark of a closed range becomes the new one. -/
def patternRangeMark : Rule Phrase :=
  .switch [(.op "..=", .op "..="), (.op "...", .read (.opAs "..." "..="))] (.op "..")

/-- The rest of a range that has its first end. -/
def patternRange : Rule Phrase :=
  .choose (.ops ["..=", "..."]) (.all [patternRangeMark, rangeBound]) <|
    .all [patternRangeMark, .choose boundMissing .done rangeBound]

/-- A pattern for the field of a struct, after its attributes. -/
def fieldPattern : Rule Phrase :=
  .choose (.oneOf [[.anyWord, .op ":"], [.index, .op ":"]])
    (.all [.choose (.at [.index]) (.read .index) (.read .name), .op ":", .call .patterns]) <|
    .all [.optWord "box", .optWord "ref", .optWord "mut", .read .name]

/-- The fields of a struct's pattern; nothing follows the mark of the fields that are left out. -/
def structPattern : Rule Phrase :=
  .inside .brace <| .repeatWhile .more <|
    .all [.call .outerAttributes,
      .choose (.op "..") (.all [.op "..", .choose .finish .done .never])
        (.all [fieldPattern, .choose .finish .done (.op ",")])]

/-- A pattern that begins with a path. -/
def pathPattern : Rule Phrase :=
  .all [path true,
    .switch
      [(.opNot "!" "!=", .all [.op "!", delimited]),
        (.group .brace, structPattern),
        (.group .paren, .inside .paren (.commaList (.call .patterns))),
        (.op "..", patternRange)]
      .done]

/-- A pattern that binds a name. -/
def namePattern : Rule Phrase :=
  .all [.optWord "ref", .optWord "mut", .choose (.word "self") (.read .anyWord) (.read .name),
    .opt (.op "@") (.all [.op "@", .call .pattern])]

/-- Whether a pattern that begins with a path stands at the front. -/
def pathPatternAhead : Look :=
  .either
    (.oneOf [[.name, .op "::"], [.name, .op "!"], [.name, .opened .brace], [.name, .opened .paren],
      [.name, .op ".."], [.word "self", .op "::"]])
    (.oneOf [[.op "::"], [.op "<"], [.word "Self"], [.word "super"], [.word "crate"]])

/-- A pattern without alternatives. -/
def pattern : Rule Phrase :=
  .switch
    [(pathPatternAhead, pathPattern),
      (.word "_", .word "_"),
      (.word "box", .all [.word "box", .call .pattern]),
      (signedLiteralAhead, .all [signedLiteral, .opt (.op "..") patternRange]),
      (.word "const", .all [.word "const", .call .block, .opt (.op "..") patternRange]),
      (.oneOf [[.word "ref"], [.word "mut"], [.word "self"], [.name]], namePattern),
      (.op "&", .all [.op "&", .optWord "mut", .call .pattern]),
      (.group .paren, .inside .paren (.commaList (.call .patterns))),
      (.group .bracket, .inside .bracket (.commaList (.call .patterns))),
      (.op "..=", .all [.op "..=", rangeBound]),
      (.opNot ".." "...", .all [.op "..", .choose boundMissing .done rangeBound])]
    .never

/-- A pattern with alternatives, the first of which may have a mark too. -/
def patterns : Rule Phrase :=
  .all [.opt (.opNot "|" "||") (.op "|"), .call .pattern,
    .repeatWhile (.both (.op "|") (.negate (.ops ["||", "|="]))) (.all [.op "|", .call .pattern])]

end Rules

end Source

end Chronicle
