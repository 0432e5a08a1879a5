import Chronicle.Source.Grammar.Items

/-!
# The grammar

The rule of each phrase, and reading a whole text with it.
-/

namespace Chronicle

namespace Source

/-- The grammar of programs. -/
def grammar : Grammar Phrase where
  rule
    | .tree => Rules.tree
    | .trees => .repeatWhile .more (.call .tree)
    | .outerAttributes => Rules.attributes false
    | .innerAttributes => Rules.attributes true
    | .visibility => Rules.visibility
    | .wordPath => Rules.wordPath
    | .typePath => Rules.plainPath false
    | .angleArguments => Rules.angleArguments
    | .genericArgument => Rules.genericArgument
    | .type plus => Rules.type plus
    | .bound => Rules.bound
    | .generics => Rules.generics
    | .whereClause => Rules.whereClause
    | .pattern => Rules.pattern
    | .patterns => Rules.patterns
    | .expression braces => Rules.expressionFrom braces (.call (.operand braces))
    | .operand braces => Rules.operand braces
    | .atom braces => Rules.atom braces
    | .block => Rules.block
    | .statements => Rules.statements
    | .signature => Rules.signature
    | .useTree => Rules.useTree
    | .item => Rules.item
    | .itemTail visible => Rules.itemTail visible
    | .member => Rules.member
    | .memberTail marked => Rules.memberTail marked
    | .requirement => Rules.requirement

/-- What the phrases mean in a program with the given number of tokens: a phrase calls a few others
before it reads a token, so that the fuel suffices. -/
def meaning (size : Nat) : Meaning := grammar.follow (32 * (size + 4))

/-- Reads all tokens. -/
def readAll? {α : Type} (read : Meaning → Reading α) (tokens : Tokens) : Option α :=
  match read (meaning tokens.length) tokens with
  | some (value, []) => some value
  | _ => none

end Source

end Chronicle
