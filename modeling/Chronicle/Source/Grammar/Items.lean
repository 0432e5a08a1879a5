import Chronicle.Source.Grammar.Expressions
import Chronicle.Source.ImplBlock
import Chronicle.Source.Struct

/-!
# Items

The rules of items and of the items inside implementations and traits.
-/

namespace Chronicle

namespace Source

namespace Rules

/-- The signature of a function. -/
def signature : Rule Phrase :=
  .reading fun meaning tokens => do
    let (signature, rest) ← Signature.read meaning tokens
    some (signature.tokens, rest)

/-- Generic parameters. -/
def generics : Rule Phrase :=
  .opt (.op "<") <| .reading fun meaning tokens => do
    let (generics, rest) ← Generics.read meaning tokens
    some (generics.declared, rest)

/-- A struct after its visibility. -/
def structTail : Rule Phrase :=
  .reading fun meaning tokens => do
    let (struct, rest) ← Struct.readAfter meaning [] .inherited tokens
    some (struct.tokens, rest)

/-- An implementation after its attributes; one with a visibility keeps its tokens as they are written,
and so does one that is read as tokens only. -/
def implTail (visible : Bool) : Rule Phrase :=
  .reading fun meaning tokens => do
    let (block, rest) ← ImplBlock.readAfter meaning [] tokens
    match visible, block with
    | false, some block => some (block.tokens, rest)
    | _, _ => some (tokens.take (tokens.length - rest.length), rest)

/-- Follows a rule or, where it fails, a looser one that keeps the tokens as they are written. -/
def orVerbatim (strict loose : Rule Phrase) : Rule Phrase := .orElse strict (.verbatim loose)

/-- A function; one without a body keeps its tokens as they are written. -/
def function : Rule Phrase :=
  orVerbatim (.all [.call .signature, .call .block]) (.all [.call .signature, .op ";"])

/-- A tree of names in use. -/
def useTree : Rule Phrase :=
  .switch
    [(.op "*", .op "*"),
      (.group .brace, .inside .brace
        (.commaList (.all [.optOp "::", .call .useTree])))]
    (.all [.read .anyWord,
      .switch
        [(.op "::", .all [.op "::", .call .useTree]),
          (.word "as", .all [.word "as", .read .anyWord])]
        .done])

/-- A field with its name. -/
def namedField : Rule Phrase :=
  .all [.call .outerAttributes, .call .visibility, .read .name, .op ":", .call (.type true)]

/-- A field with a position only. -/
def positionalField : Rule Phrase :=
  .all [.call .outerAttributes, .call .visibility, .call (.type true)]

/-- A variant; a visibility before its name is dropped. -/
def variant : Rule Phrase :=
  .all [.call .outerAttributes, .skip (.call .visibility), .read .name,
    .switch
      [(.group .brace, .inside .brace (.commaList namedField)),
        (.group .paren, .inside .paren (.commaList positionalField))]
      .done,
    .opt (.op "=") (.all [.op "=", .call (.expression true)])]

/-- A sign of equality and a value. -/
def value : Rule Phrase := .all [.op "=", .call (.expression true)]

/-- A colon and a type. -/
def typing : Rule Phrase := .all [.op ":", .call (.type true)]

/-- A constant, whose value may be left out where others give it; one with parameters keeps its tokens as
they are written. -/
def constant (isGiven : Bool) : Rule Phrase :=
  let start : Rule Phrase := .all [.word "const", .choose (.word "_") (.word "_") (.read .name)]
  orVerbatim
    (.all [start, typing, if isGiven then .opt (.op "=") value else value, .op ";"])
    (.all [start, .call .generics, typing, .opt (.op "=") value, .call .whereClause, .op ";"])

/-- A variable of the whole program. -/
def staticItem : Rule Phrase :=
  let start : Rule Phrase := .all [.word "static", .optWord "mut", .read .name]
  orVerbatim (.all [start, typing, value, .op ";"])
    (.all [start, .choose (.op "=") value typing, .op ";"])

/-- A variable of another language. -/
def foreignStatic : Rule Phrase :=
  let tail : Rule Phrase := .all [.word "static", .optWord "mut", .read .name, typing]
  orVerbatim (.all [tail, .op ";"])
    (.all [.opt (.words ["unsafe", "safe"]) (.read .anyWord), tail, .opt (.op "=") value, .op ";"])

/-- The bounds of a type that others give; a colon without any is dropped. -/
def optBounds : Rule Phrase :=
  .opt (.op ":") <|
    .choose (.oneOf [[.op ":", .op "="], [.op ":", .op ";"], [.op ":", .word "where"]])
      (.skip (.op ":")) (.all [.op ":", conditionBounds])

/-- What a name for a type stands for. -/
def definition : Rule Phrase := .all [.op "=", .call (.type true)]

/-- The beginning of a name for a type. -/
def typeStart : Rule Phrase := .all [.word "type", .read .name, .call .generics]

/-- A name for a type. -/
def typeItem : Rule Phrase :=
  orVerbatim (.all [typeStart, .call .whereClause, definition, .op ";"])
    (.all [typeStart, optBounds, .call .whereClause, .opt (.op "=") definition, .op ";"])

/-- A type that an implementation gives. -/
def memberType : Rule Phrase :=
  orVerbatim (.all [typeStart, definition, .call .whereClause, .op ";"])
    (.all [typeStart, optBounds, .opt (.op "=") definition, .call .whereClause, .op ";"])

/-- A type that implementations have to give. -/
def requiredType : Rule Phrase :=
  .all [typeStart, optBounds, .opt (.op "=") definition, .call .whereClause, .op ";"]

/-- A type of another language. -/
def foreignType : Rule Phrase :=
  orVerbatim (.all [typeStart, .call .whereClause, .op ";"])
    (.all [typeStart, optBounds, .call .whereClause, .opt (.op "=") definition, .call .whereClause,
      .op ";"])

/-- A macro as an item. -/
def macroItem : Rule Phrase :=
  .all [.call .wordPath, .op "!", .opt (.at [.anyWord]) (.read .anyWord),
    .choose (.group .brace) (.call .tree) (.all [delimited, .op ";"])]

/-- A trait, or another name for traits. -/
def traitItem : Rule Phrase :=
  .all [.optWord "unsafe", .optWord "auto", .word "trait", .read .name, .call .generics,
    .choose (.op "=")
      (.all [.op "=", .opt boundAhead (bounds true), .call .whereClause, .op ";"]) <|
      .all [.opt (.op ":") (.choose (.oneOf [[.op ":", .opened .brace], [.op ":", .word "where"]])
          (.skip (.op ":")) (.all [.op ":", bounds true])),
        .call .whereClause,
        .inside .brace (.all [.call .innerAttributes, .repeatWhile .more (.call .requirement)])]]

/-- A module. -/
def moduleItem : Rule Phrase :=
  .all [.optWord "unsafe", .word "mod", .choose (.word "try") (.word "try") (.read .name),
    .choose (.op ";") (.op ";") <|
      .inside .brace (.all [.call .innerAttributes, .repeatWhile .more (.call .item)])]

/-- A function of another language; one with a body and one that is declared to be safe keep their tokens
as they are written. -/
def foreignFunction : Rule Phrase :=
  .choose Signature.starts
    (orVerbatim (.all [.call .signature, .op ";"]) (.all [.call .signature, .call .block]))
    (.verbatim (.all [.call .signature, .choose (.op ";") (.op ";") (.call .block)]))

/-- Whether a variable of another language stands at the front. -/
def foreignStaticAhead : Look :=
  .oneOf [[.word "static"], [.word "unsafe", .word "static"], [.word "safe", .word "static"]]

/-- An item of another language; macros have no visibility. -/
def foreignItem : Rule Phrase :=
  .all [.call .outerAttributes, .choose (.word "pub")
    (.all [.call .visibility, .switch foreignCases .never]) (.switch foreignCases macroItem)]
where
  foreignCases : List (Look × Rule Phrase) :=
    [(Signature.foreignStarts, foreignFunction), (foreignStaticAhead, foreignStatic),
      (.word "type", foreignType)]

/-- Items of another language. -/
def foreignItems : Rule Phrase :=
  .all [.optWord "unsafe", binaryInterface,
    .inside .brace (.all [.call .innerAttributes, .repeatWhile .more foreignItem])]

/-- The use of another crate. -/
def externCrate : Rule Phrase :=
  .all [.word "extern", .word "crate", .read .anyWord,
    .opt (.word "as") (.all [.word "as", .read .anyWord]), .op ";"]

/-- A macro that is declared with its body. -/
def macroDeclaration : Rule Phrase :=
  .verbatim <| .all [.word "macro", .read .name, .opt (.group .paren) (.call .tree),
    .choose (.group .brace) (.call .tree) .never]

/-- An item without its attributes and its visibility; macros and items of another language have none
of their own. -/
def itemTail (visible : Bool) : Rule Phrase :=
  .switch
    [(Signature.starts, function),
      (.at [.word "extern", .word "crate"], externCrate),
      (.either (.word "extern") (.at [.word "unsafe", .word "extern"]),
        if visible then .never else foreignItems),
      (.word "use", .all [.word "use", .optOp "::", .call .useTree, .op ";"]),
      (.word "static", staticItem),
      (.word "const", constant false),
      (.either (.word "mod") (.at [.word "unsafe", .word "mod"]), moduleItem),
      (.word "type", typeItem),
      (.word "struct", structTail),
      (.word "enum", .all [.word "enum", .read .name, .call .generics, .call .whereClause,
        .inside .brace (.commaList variant)]),
      (.at [.word "union", .name], .all [.word "union", .read .name, .call .generics,
        .call .whereClause, .inside .brace (.commaList namedField)]),
      (.oneOf [[.word "trait"], [.word "auto", .word "trait"], [.word "unsafe", .word "trait"],
        [.word "unsafe", .word "auto", .word "trait"]], traitItem),
      (ImplBlock.starts, implTail visible),
      (.word "macro", macroDeclaration)]
    (if visible then .never else macroItem)

/-- An item. -/
def item : Rule Phrase :=
  .all [.call .outerAttributes, visibleItem]

/-- An item of an implementation without its attributes and what stands before its own word; nothing
stands before a macro. -/
def memberTail (marked : Bool) : Rule Phrase :=
  .switch [(.word "const", constant false), (.word "type", memberType)]
    (if marked then .never else macroItem)

/-- An item of an implementation. -/
def member : Rule Phrase :=
  .reading fun meaning tokens => do
    let (member, rest) ← Member.read meaning tokens
    some (member.tokens, rest)

/-- An item of a trait; one with a visibility and one that may be replaced keep their tokens as they are
written, and macros have neither. -/
def requirement : Rule Phrase :=
  .all [.call .outerAttributes,
    .choose (.words ["pub", "default"])
      (.verbatim (.all [.call .visibility, .optWord "default", .switch requirementCases .never]))
      (.switch requirementCases macroItem)]
where
  requirementCases : List (Look × Rule Phrase) :=
    [(Signature.starts, .all [.call .signature, .choose (.op ";") (.op ";") (.call .block)]),
      (.word "const", constant true), (.word "type", requiredType)]

end Rules

end Source

end Chronicle
