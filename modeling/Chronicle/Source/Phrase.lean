import Chronicle.Source.Token

/-!
# Phrases

The names of the parts of a program that the grammar has a rule for.
-/

namespace Chronicle

namespace Source

/-- A part of a program. -/
inductive Phrase where
  /-- A token, or a group with all that is in it. -/
  | tree
  /-- All trees up to the end of the group. -/
  | trees
  | outerAttributes
  | innerAttributes
  | visibility
  /-- A path of plain words. -/
  | wordPath
  /-- A path whose segments may have arguments. -/
  | typePath
  /-- The arguments of a segment, between angles. -/
  | angleArguments
  | genericArgument
  /-- A type; `plus` tells whether more bounds may follow it. -/
  | type (plus : Bool)
  /-- One bound of a type. -/
  | bound
  | generics
  | whereClause
  /-- A pattern without alternatives. -/
  | pattern
  /-- A pattern with alternatives. -/
  | patterns
  /-- An expression; `braces` tells whether a path may be followed by a struct's fields. -/
  | expression (braces : Bool)
  /-- An operand with its signs, calls and accesses. -/
  | operand (braces : Bool)
  /-- An operand alone. -/
  | atom (braces : Bool)
  | block
  /-- All statements up to the end of the group. -/
  | statements
  | signature
  | useTree
  | item
  /-- An item without its attributes and its visibility; `visible` tells whether it has one. -/
  | itemTail (visible : Bool)
  /-- An item of an implementation. -/
  | member
  /-- An item of an implementation without its attributes and what stands before its own word; `marked`
  tells whether anything does. -/
  | memberTail (marked : Bool)
  /-- An item of a trait. -/
  | requirement
deriving DecidableEq, Repr

end Source

end Chronicle
