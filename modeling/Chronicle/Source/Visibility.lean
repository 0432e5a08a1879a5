import Chronicle.Source.Reading

/-!
# Visibility

From where an item can be used.
-/

namespace Chronicle

namespace Source

/-- From where an item can be used. -/
inductive Visibility where
  /-- Only from where the item stands. -/
  | inherited
  | everywhere
  /-- From inside a module, written as a path. -/
  | inside (place : Tokens)
deriving DecidableEq, Repr

namespace Visibility

/-- Visible in the whole crate and nowhere else. -/
def crate : Visibility := .inside [.word "crate"]

/-- The tokens of a visibility. -/
def tokens : Visibility → Tokens
  | .inherited => []
  | .everywhere => [.word "pub"]
  | .inside place => .word "pub" :: group .paren place

/-- The questions that a module named by one word answers with yes. -/
def nearPlace : Look :=
  .oneOf (["crate", "self", "super"].map fun word =>
    [.opened .paren, .word word, .closed .paren])

/-- Reads a visibility. -/
def read (meaning : Meaning) : Reading Visibility := do
  if ← Reading.sees (.word "pub") then
    let _ ← Reading.word "pub"
    if ← Reading.sees nearPlace then
      return .inside (← Reading.inside .paren (Reading.terminal .anyWord))
    else if ← Reading.sees (.at [.opened .paren, .word "in"]) then
      Reading.inside .paren do
        let word ← Reading.word "in"
        return .inside (word ++ (← Reading.phrase meaning .wordPath))
    else return .everywhere
  else return .inherited

end Visibility

end Source

end Chronicle
