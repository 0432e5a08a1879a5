import Chronicle.Source.Grammar
import Chronicle.Source.Lexer

/-!
# Items

A program as its items: modules with their own items, structs, implementations, and all other items as
their tokens.

## Implementation notes

The number of tokens bounds how deep modules can stand in one another.
-/

namespace Chronicle

namespace Source

/-- What stands before the items of a module. -/
structure ModuleHead where
  attributes : List Attribute
  visibility : Visibility
  /-- The word of an unsafe module, if it is there. -/
  safety : Tokens
  name : String
  /-- Attributes that stand in the module. -/
  innerAttributes : List Attribute
deriving DecidableEq, Repr

/-- An item of a program. -/
inductive Item where
  | module (head : ModuleHead) (items : List Item)
  /-- A module whose items are written elsewhere. -/
  | outline (head : ModuleHead)
  | struct (declared : Struct)
  | implementation (block : ImplBlock)
  | other (tokens : Tokens)

/-- A program. -/
structure Program where
  attributes : List Attribute
  items : List Item

namespace ModuleHead

/-- The tokens up to the name. -/
def tokens (h : ModuleHead) : Tokens :=
  h.attributes.flatMap Attribute.tokens ++ h.visibility.tokens ++ h.safety ++
    [.word "mod", .word h.name]

end ModuleHead

mutual

/-- The tokens of an item. -/
def Item.tokens : Item → Tokens
  | .module head items =>
    head.tokens ++
      group .brace (head.innerAttributes.flatMap Attribute.tokens ++ Item.listTokens items)
  | .outline head => head.tokens ++ operator [';']
  | .struct declared => declared.tokens
  | .implementation block => block.tokens
  | .other tokens => tokens

/-- The tokens of items one after another. -/
def Item.listTokens : List Item → Tokens
  | [] => []
  | item :: items => item.tokens ++ Item.listTokens items

end

namespace Item

/-- Whether a module stands at the front. -/
def moduleStarts : Look := .either (.word "mod") (.at [.word "unsafe", .word "mod"])

/-- Reads what stands before the content of a module, after its visibility. -/
def readHead (attributes : List Attribute) (visibility : Visibility) : Reading ModuleHead := do
  let safety ← Reading.opt (.word "unsafe") (Reading.word "unsafe")
  let _ ← Reading.word "mod"
  let name ← if ← Reading.sees (.word "try") then Reading.terminal .anyWord else Reading.terminal .name
  match name with
  | [.word name] => return { attributes, visibility, safety, name, innerAttributes := [] }
  | _ => failure

/-- Reads an item after its attributes and its visibility, given how the items in it are read. -/
def readTail (meaning : Meaning) (readItem : Reading Item) (attributes : List Attribute)
    (visibility : Visibility) : Reading Item := do
  if ← Reading.sees moduleStarts then
    let head ← readHead attributes visibility
    if ← Reading.sees (.op ";") then
      let _ ← Reading.op ";"
      return .outline head
    else
      Reading.inside .brace do
        let innerAttributes ← Attribute.readAll meaning true
        return .module { head with innerAttributes } (← Reading.many .more readItem)
  else if ← Reading.sees (.word "struct") then
    return .struct (← Struct.readAfter meaning attributes visibility)
  else if (visibility = .inherited && (← Reading.sees ImplBlock.starts)) then
    let start ← get
    match ← ImplBlock.readAfter meaning attributes with
    | some block => return .implementation block
    | none =>
      let rest ← get
      return .other
        (attributes.flatMap Attribute.tokens ++ start.take (start.length - rest.length))
  else
    let tail ← Reading.phrase meaning (.itemTail (visibility ≠ .inherited))
    return .other (attributes.flatMap Attribute.tokens ++ visibility.tokens ++ tail)

/-- Reads an item; modules may stand in one another as deep as the fuel allows. -/
def read (meaning : Meaning) : Nat → Reading Item
  | 0 => failure
  | fuel + 1 => do
    let attributes ← Attribute.readAll meaning false
    let visibility ← Visibility.read meaning
    readTail meaning (read meaning fuel) attributes visibility

/-- The item that tokens write. -/
def ofTokens? (tokens : Tokens) : Option Item :=
  readAll? (fun meaning => read meaning (tokens.length + 1)) tokens

end Item

namespace Program

/-- The tokens of a program. -/
def tokens (p : Program) : Tokens :=
  p.attributes.flatMap Attribute.tokens ++ Item.listTokens p.items

/-- The printed form of a program. -/
def text (p : Program) : String := print p.tokens

/-- The program that tokens write. -/
def ofTokens? (tokens : Tokens) : Option Program :=
  readAll?
    (fun meaning => do
      let attributes ← Attribute.readAll meaning true
      return { attributes, items := ← Reading.many .more (Item.read meaning (tokens.length + 1)) })
    tokens

/-- The program that a text writes. -/
def ofText? (text : String) : Option Program := do
  ofTokens? (← lexFile? text.toList)

end Program

end Source

end Chronicle
