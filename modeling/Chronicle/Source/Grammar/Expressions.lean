import Chronicle.Source.Grammar.Patterns

/-!
# Expressions and statements

The rules of expressions, of blocks and of the statements in them.

## Implementation notes

Operators are read in levels: arithmetic and casts, one comparison, the logical operators, and last an
assignment or a range. Operands of one level follow one another in a row, since the tree that they form
does not matter for their tokens.
-/

namespace Chronicle

namespace Source

namespace Rules

/-- The operators between operands of a comparison. -/
def arithmeticOps : List String := ["<<", ">>", "+", "-", "*", "/", "%", "^", "&", "|"]

/-- Operators that assign. -/
def assigningOps : List String :=
  ["<<=", ">>=", "+=", "-=", "*=", "/=", "%=", "^=", "&=", "|="]

/-- Comparing operators, the longer ones first. -/
def comparingOps : List String := ["==", "<=", "!=", ">=", "<", ">"]

/-- Operators that join conditions. -/
def joiningOps : List String := ["&&", "||"]

/-- Reads the first of several operators that stands at the front. -/
def readOp (texts : List String) : Rule Phrase :=
  .switch (texts.map fun text => (.op text, .op text)) .never

/-- Whether an arithmetic operator stands at the front. -/
def arithmeticAhead : Look :=
  .both (.ops arithmeticOps) (.negate (.either (.ops assigningOps) (.ops joiningOps)))

/-- Whether a comparing operator stands at the front. -/
def comparingAhead : Look :=
  .both (.ops comparingOps) (.negate (.ops ["<<", ">>="]))

/-- Operands with arithmetic operators and casts. -/
def arithmetic (braces : Bool) (first : Rule Phrase) : Rule Phrase :=
  .all [first,
    .repeatWhile (.either arithmeticAhead (.word "as")) <|
      .choose (.word "as") (.all [.word "as", .call (.type false)])
        (.all [readOp arithmeticOps, .call (.operand braces)])]

/-- Operands with at most one comparison. -/
def comparison (braces : Bool) (first : Rule Phrase) : Rule Phrase :=
  .all [arithmetic braces first,
    .opt comparingAhead <|
      .all [readOp comparingOps, arithmetic braces (.call (.operand braces)),
        .forbid comparingAhead]]

/-- Operands with all operators that are weaker than neither an assignment nor a range. -/
def joined (braces : Bool) (first : Rule Phrase) : Rule Phrase :=
  .all [comparison braces first,
    .repeatWhile (.ops joiningOps)
      (.all [readOp joiningOps, comparison braces (.call (.operand braces))])]

/-- The mark of a range. -/
def rangeMark : Rule Phrase :=
  .choose (.op "..=") (.op "..=") (.choose (.op "...") .never (.op ".."))

/-- Whether the end of a range is missing. -/
def rangeEndMissing (braces : Bool) : Look :=
  .either
    (.either .finish (.either (.word "as") (.opNot "." "..")))
    (.either (.ops [",", ";", "?", "=", "+", "/", "%", "^", ">", "!=", "-=", "*=", "&=", "|=", "<="])
      (if braces then .negate (.at []) else .group .brace))

/-- A range from its mark on. -/
def range (braces : Bool) : Rule Phrase :=
  .choose (.op "..=") (.all [rangeMark, joined braces (.call (.operand braces))]) <|
    .all [rangeMark,
      .choose (rangeEndMissing braces) .done (joined braces (.call (.operand braces)))]

/-- An expression, given the rule of its first operand. -/
def expressionFrom (braces : Bool) (first : Rule Phrase) : Rule Phrase :=
  .all [joined braces first,
    .switch
      [(.ops assigningOps, .all [readOp assigningOps, .call (.expression braces)]),
        (.opNot "=" "=>", .all [.op "=", .call (.expression braces)]),
        (.op "..", range braces)]
      .done]

/-- Expressions with commas between them. -/
def arguments : Rule Phrase := .commaList (.call (.expression true))

/-- An access to a field or a call of a method, after the point. -/
def access : Rule Phrase :=
  .switch
    [(.at [.indexPair], .read .indexPair),
      (.at [.indexPoint], .all [.read .indexPoint,
        .choose (.word "await") (.word "await")
          (.choose (.at [.index]) (.read .index) (.read .name))]),
      (.word "await", .word "await"),
      (.at [.index], .read .index)]
    (.all [.read .name,
      .choose (.op "::")
        (.all [.call .angleArguments, .inside .paren arguments])
        (.opt (.group .paren) (.inside .paren arguments))])

/-- Calls, accesses and propagated failures after an operand. -/
def trailers : Rule Phrase :=
  .repeatWhile
    (.either (.either (.group .paren) (.group .bracket)) (.either (.op "?") (.opNot "." "..")))
    (.switch
      [(.group .paren, .inside .paren arguments),
        (.group .bracket, .inside .bracket (.call (.expression true))),
        (.op "?", .op "?")]
      (.all [.op ".", access]))

/-- An operand with its signs, calls and accesses. -/
def operand (braces : Bool) : Rule Phrase :=
  .all [.call .outerAttributes,
    .switch
      [(.op "&", .all [.op "&",
        .choose (.oneOf [[.word "raw", .word "mut"], [.word "raw", .word "const"]])
          (.all [.read .anyWord, .read .anyWord]) (.optWord "mut"),
        .call (.operand braces)]),
        (.ops ["*", "!", "-"], .all [readOp ["*", "!", "-"], .call (.operand braces)])]
      (.all [.call (.atom braces), trailers])]

/-- The value of a struct's field. -/
def fieldValue : Rule Phrase :=
  .all [.call .outerAttributes,
    .choose (.at [.index]) (.all [.read .index, .op ":", .call (.expression true)]) <|
      .all [.read .name,
        .opt (.opNot ":" "::") (.all [.op ":", .call (.expression true)])]]

/-- The fields of a struct's value. -/
def structValue : Rule Phrase :=
  .inside .brace
    (.commaList (.choose (.op "..")
      (.all [.op "..", .choose .finish .done (.call (.expression true)), .choose .finish .done .never])
      fieldValue))

/-- An operand that begins with a path. -/
def pathOperand (braces : Bool) : Rule Phrase :=
  .all [path true,
    .switch
      [(.opNot "!" "!=", .all [.op "!", delimited]),
        (if braces then .group .brace else .negate (.at []), structValue)]
      .done]

/-- An argument of a closure. -/
def closureArgument : Rule Phrase :=
  .all [.call .outerAttributes, .call .pattern,
    .opt (.op ":") (.all [.op ":", .call (.type true)])]

/-- A closure. -/
def closure (braces : Bool) : Rule Phrase :=
  .all [optBoundLifetimes, .optWord "const", .optWord "static", .optWord "async", .optWord "move",
    .op "|", .commaListUntil "|" closureArgument, .op "|",
    .choose (.op "->") (.all [result true, .call .block]) (.call (.expression braces))]

/-- Whether a closure stands at the front. -/
def closureAhead : Look :=
  .either
    (.oneOf [[.op "|"], [.word "move"], [.word "for", .op "<", .lifetime],
      [.word "for", .op "<", .op ">"], [.word "static"]])
    (.either (.both (.word "const") (.negate (.at [.word "const", .opened .brace])))
      (.oneOf [[.word "async", .op "|"], [.word "async", .word "move", .op "|"]]))

/-- A block with a word before it. -/
def wordBlock (text : String) : Rule Phrase := .all [.word text, .call .block]

/-- A condition and what depends on it. -/
def conditional : Rule Phrase :=
  .all [.word "if", .call (.expression false), .call .block,
    .opt (.word "else") (.all [.word "else",
      .choose (.word "if") (.call (.atom true)) (.call .block)])]

/-- Whether an operand that ends with its block stands at the front. -/
def blockAhead : Look :=
  .either
    (.oneOf [[.word "if"], [.word "while"], [.word "loop"], [.word "match"],
      [.word "unsafe", .opened .brace], [.word "const", .opened .brace],
      [.word "try", .opened .brace], [.opened .brace], [.lifetime, .op ":"]])
    (.both (.word "for") (.negate (.at [.word "for", .op "<"])))

/-- Whether an expression goes on after an operand that ends with its block. -/
def goesOn : Look := .either (.op "?") (.opNot "." "..")

/-- Whether something stands at the front that may begin an expression. -/
def valueAhead (braces : Bool) : Look :=
  .both
    (.either
      (.either
        (.both (.at [.anyWord]) (.negate (.word "as")))
        (.oneOf [[.opened .paren], [.opened .bracket], [.literal], [.op ".."], [.op "::"],
          [.lifetime], [.op "#"]]))
      (.either
        (.either (.opNot "!" "!=") (.opNot "*" "*="))
        (.either
          (.both (.op "-") (.negate (.ops ["-=", "->"])))
          (.either
            (.either (.opNot "|" "|=") (.opNot "&" "&="))
            (.either (.both (.op "<") (.negate (.ops ["<=", "<<="])))
              (if braces then .group .brace else .negate (.at [])))))))
    (.negate (if braces then .negate (.at []) else .group .brace))

/-- A word that may have a value. -/
def jump (text : String) (braces : Bool) : Rule Phrase :=
  .all [.word text, .opt (valueAhead braces) (.call (.expression braces))]

/-- An arm of a match. -/
def arm : Rule Phrase :=
  let comma : Rule Phrase := .choose .finish .done (.op ",")
  .all [.call .outerAttributes, .call .patterns,
    .opt (.word "if") (.all [.word "if", .call (.expression true)]), .op "=>",
    .call .outerAttributes,
    .choose blockAhead
      (.all [.call (.atom true),
        .choose goesOn (.all [expressionFrom true trailers, comma]) (.optOp ",")])
      (.all [.call (.expression true), comma])]

/-- A loop with its word. -/
def loop : Rule Phrase :=
  .switch
    [(.word "while", .all [.word "while", .call (.expression false), .call .block]),
      (.word "for", .all [.word "for", .call .patterns, .word "in", .call (.expression false),
        .call .block]),
      (.word "loop", wordBlock "loop")]
    (.call .block)

/-- An operand alone. -/
def atom (braces : Bool) : Rule Phrase :=
  .switch
    [(literalAhead, .choose (.at [.literal]) (.read .literal) (.read .anyWord)),
      (.oneOf [[.word "async", .opened .brace], [.word "async", .word "move", .opened .brace]],
        .all [.word "async", .optWord "move", .call .block]),
      (.at [.word "try", .opened .brace], wordBlock "try"),
      (closureAhead, closure braces),
      (.either pathAhead (.oneOf [[.word "try", .op "!"], [.word "try", .op "::"]]),
        pathOperand braces),
      (.group .paren, .inside .paren arguments),
      (.word "break", .all [.word "break", .opt (.at [.lifetime]) (.read .lifetime),
        .opt (valueAhead braces) (.call (.expression braces))]),
      (.word "continue", .all [.word "continue", .opt (.at [.lifetime]) (.read .lifetime)]),
      (.word "return", jump "return" true),
      (.word "yield", jump "yield" true),
      (.word "become", .all [.word "become", .call (.expression true)]),
      (.group .bracket, .inside .bracket
        (.choose .finish .done (.all [.call (.expression true),
          .choose (.op ";") (.all [.op ";", .call (.expression true)])
            (.choose .finish .done (.all [.op ",", arguments]))]))),
      (.word "let", .all [.word "let", .call .patterns, .op "=",
        comparison braces (.call (.operand braces))]),
      (.word "if", conditional),
      (.words ["while", "for", "loop"], loop),
      (.word "match", .all [.word "match", .call (.expression false),
        .inside .brace (.all [.call .innerAttributes, .repeatWhile .more arm])]),
      (.word "unsafe", wordBlock "unsafe"),
      (.word "const", wordBlock "const"),
      (.group .brace, .call .block),
      (.op "..", range braces),
      (.word "_", .word "_"),
      (.at [.lifetime], .all [.read .lifetime, .op ":", loop])]
    .never

/-- A block. -/
def block : Rule Phrase :=
  .inside .brace (.all [.call .innerAttributes, .call .statements])

/-- A value with another way to go on after it, which it has only if it does not end with a brace. -/
def valueOrElse : Rule Phrase :=
  .reading fun meaning tokens => do
    let (value, rest) ← meaning (.expression true) tokens
    if (Look.word "else").holds rest then
      if value.getLast? = some (.closed .brace) then none
      else
        let (block, rest) ← meaning .block (rest.drop 1)
        some (value ++ .word "else" :: block, rest)
    else some (value, rest)

/-- A declaration of a name. -/
def declaration : Rule Phrase :=
  .all [.word "let", .call .pattern, .opt (.op ":") (.all [.op ":", .call (.type true)]),
    .opt (.op "=") (.all [.op "=", valueOrElse]), .op ";"]

/-- A statement that is a macro with its braces. -/
def macroStatement : Rule Phrase :=
  .all [.call .wordPath, .op "!", .choose (.group .brace) (.call .tree) .never, .forbid goesOn,
    .optOp ";"]

/-- The end of a statement that is an expression. -/
def statementEnd : Rule Phrase := .choose .finish .done (.op ";")

/-- A statement that is an expression. -/
def expressionStatement : Rule Phrase :=
  .choose blockAhead
    (.all [.call (.atom true),
      .choose goesOn (.all [expressionFrom true trailers, statementEnd]) (.optOp ";")])
    (.all [.call (.expression true), statementEnd])

/-- Whether a statement that is an item stands at the front. -/
def itemAhead : Look :=
  .either
    (.either
      (.oneOf [[.word "pub"], [.word "extern"], [.word "use"], [.word "fn"], [.word "mod"],
        [.word "type"], [.word "struct"], [.word "enum"], [.word "union", .name],
        [.word "auto", .word "trait"], [.word "trait"], [.word "default", .word "unsafe"],
        [.word "default", .word "impl"], [.word "impl"], [.word "macro"]])
      (.both (.word "crate") (.negate (.at [.word "crate", .op "::"]))))
    (.either
      (.either
        (.either (.at [.word "static", .word "mut"])
          (.both (.at [.word "static", .name]) (.negate (.at [.word "static", .word "async"]))))
        (.both (.word "const")
          (.negate (.oneOf [[.word "const", .opened .brace], [.word "const", .word "static"],
            [.word "const", .word "move"], [.word "const", .op "|"]]))))
      (.either
        (.both (.word "unsafe") (.negate (.at [.word "unsafe", .opened .brace])))
        (.oneOf [[.word "async", .word "unsafe"], [.word "async", .word "extern"],
          [.word "async", .word "fn"]])))

/-- An item after its attributes. -/
def visibleItem : Rule Phrase :=
  .choose (.word "pub") (.all [.call .visibility, .call (.itemTail true)]) (.call (.itemTail false))

/-- An item that is a macro with the name of what it declares. -/
def namedMacro : Rule Phrase :=
  .all [.call .wordPath, .op "!", .read .name,
    .choose (.group .brace) (.call .tree) (.all [delimited, .op ";"])]

/-- A statement. -/
def statement : Rule Phrase :=
  .choose (.op ";") (.op ";") <|
    .all [.call .outerAttributes,
      .switch
        [(.word "let", declaration),
          (itemAhead, visibleItem)]
        (.orElse macroStatement (.orElse namedMacro expressionStatement))]

/-- All statements of a block. -/
def statements : Rule Phrase := .repeatWhile .more statement

end Rules

end Source

end Chronicle
