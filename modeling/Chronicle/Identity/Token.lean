import Chronicle.Identity.Uuid
import Chronicle.Json.Decode
import Chronicle.Text.Quoted

/-!
# Identity tokens

The key of an entity, and the token that stands for an entity wherever the entity itself must not be
held: its type name together with its key.

## Implementation notes

Keys of different variants are never equal, and come in the order of the variants. Texts are compared
by code points, which is also the order of their UTF-8 bytes.
-/

namespace Chronicle

/-- The key of an entity. -/
inductive Key where
  | int (value : Int64)
  | uint (value : UInt64)
  | text (value : String)
  | uuid (value : Uuid)
deriving DecidableEq

namespace Key

/-- The plain text of a key. -/
def written : Key → String
  | .int value => toString value.toInt
  | .uint value => toString value.toNat
  | .text value => value
  | .uuid value => value.text

/-- The dump of a key. -/
def dump : Key → String
  | .int value => s!"Int({toString value.toInt})"
  | .uint value => s!"UInt({toString value.toNat})"
  | .text value => s!"Text({Text.quoted value})"
  | .uuid value => s!"Uuid({value.text})"

/-- The position of a key's variant in the order of keys. -/
def rank : Key → Nat
  | .int _ => 0
  | .uint _ => 1
  | .text _ => 2
  | .uuid _ => 3

/-- Whether the first key comes before the second. -/
def before : Key → Key → Bool
  | .int a, .int b => a < b
  | .uint a, .uint b => a < b
  | .text a, .text b => a < b
  | .uuid a, .uuid b => a.bits < b.bits
  | a, b => a.rank < b.rank

/-- The JSON form of a key. -/
def toJson : Key → Json
  | .int value => .ofMembers [("Int", .ofInt value.toInt)]
  | .uint value => .ofMembers [("UInt", .ofInt value.toNat)]
  | .text value => .ofMembers [("Text", .ofText value)]
  | .uuid value => .ofMembers [("Uuid", .ofText value.text)]

end Key

/-- The 64-bit signed integer of a number in range. -/
def int64? (n : Int) : Option Int64 :=
  if -Int.pow 2 63 ≤ n ∧ n < Int.pow 2 63 then some (Int64.ofInt n) else none

/-- The 64-bit unsigned integer of a number in range. -/
def uint64? (n : Int) : Option UInt64 :=
  if 0 ≤ n ∧ n < Int.pow 2 64 then some (UInt64.ofNat n.toNat) else none

/-- Reads a key from its JSON form. -/
def Key.ofJson? (levels : Nat) (json : Json) : Option Key := do
  let variant ← json.variant? levels
  let content ← variant.content
  match variant.name with
  | "Int" => (content.integer?.bind int64?).map .int
  | "UInt" => (content.integer?.bind uint64?).map .uint
  | "Text" => content.text?.map .text
  | "Uuid" => (content.text?.bind Uuid.ofText?).map .uuid
  | _ => none

/-- The token that stands for an entity. -/
structure Token where
  /-- The name of the entity's type. -/
  name : String
  key : Key
deriving DecidableEq

namespace Token

/-- The plain text of a token. -/
def written (token : Token) : String :=
  token.name ++ "-" ++ token.key.written

/-- The dump of a token. -/
def dump (token : Token) : String :=
  "IdentityToken \x7b entity_name: " ++ Text.quoted token.name ++ ", key: " ++ token.key.dump ++
    " \x7d"

/-- Whether the first token comes before the second: by name, then by key. -/
def before (a b : Token) : Bool :=
  a.name < b.name || (a.name == b.name && a.key.before b.key)

/-- The JSON form of a token. -/
def toJson (token : Token) : Json :=
  .ofMembers [("entity_name", .ofText token.name), ("key", token.key.toJson)]

/-- Reads a token from its JSON form. -/
def ofJson? (levels : Nat) (json : Json) : Option Token := do
  let (levels, fields) ← json.record? ["entity_name", "key"] levels
  let name ← (← fields "entity_name").text?
  let key ← Key.ofJson? levels (← fields "key")
  some ⟨name, key⟩

/-- Tokens in their order. -/
def sort (tokens : List Token) : List Token :=
  tokens.mergeSort fun a b => !b.before a

/-- The tokens without repetitions. -/
def distinct (tokens : List Token) : List Token :=
  tokens.eraseDups

end Token

end Chronicle
