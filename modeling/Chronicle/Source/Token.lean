import Chronicle.Text.Numeral

/-!
# Tokens of source code

Source code as a flat list of tokens, and the text in which such a list is printed.

## Implementation notes

A group is a pair of delimiter tokens around its content, so that every part of a program is a list of
tokens and putting parts together is appending lists. Delimiters without a written form surround code
that was handed on as a whole.
-/

namespace Chronicle

namespace Source

/-- The delimiters of a group. -/
inductive Delimiter where
  | paren
  | bracket
  | brace
  /-- A group without written delimiters. -/
  | bare
deriving DecidableEq, Repr

/-- A token of source code. -/
inductive Token where
  /-- A word: a keyword, an identifier or a raw identifier with its mark. -/
  | word (text : String)
  /-- A punctuation character, and whether it is joined to the next token. -/
  | punct (char : Char) (joined : Bool)
  | literal (text : String)
  | opened (delimiter : Delimiter)
  | closed (delimiter : Delimiter)
deriving DecidableEq, Repr

/-- A program or a part of one. -/
abbrev Tokens := List Token

namespace Delimiter

/-- The written form at the beginning of a group. -/
def openText : Delimiter → String
  | .paren => "("
  | .bracket => "["
  | .brace => "\x7b"
  | .bare => ""

/-- The written form at the end of a group. -/
def closeText : Delimiter → String
  | .paren => ")"
  | .bracket => "]"
  | .brace => "\x7d"
  | .bare => ""

end Delimiter

namespace Token

/-- The written form of a token. -/
def text : Token → String
  | .word text => text
  | .punct char _ => char.toString
  | .literal text => text
  | .opened delimiter => delimiter.openText
  | .closed delimiter => delimiter.closeText

/-- Whether no blank follows a token. -/
def hugsNext : Token → Bool
  | .punct _ joined => joined
  | .opened .brace => false
  | .opened _ => true
  | _ => false

/-- Whether no blank precedes a token. -/
def hugsPrevious : Token → Bool
  | .closed .brace => false
  | .closed _ => true
  | _ => false

end Token

/-- The pieces of the printed form: tokens with one blank between them unless one hugs the other. -/
def pieces : Tokens → List String
  | [] => []
  | [token] => [token.text]
  | token :: next :: rest =>
    if token.hugsNext || next.hugsPrevious then token.text :: pieces (next :: rest)
    else token.text :: " " :: pieces (next :: rest)

/-- The printed form of tokens. -/
def print (tokens : Tokens) : String :=
  String.join (pieces tokens)

/-- The tokens of an operator: its characters joined to one another. -/
def operator : List Char → Tokens
  | [] => []
  | [c] => [.punct c false]
  | c :: rest => .punct c true :: operator rest

/-- Tokens between delimiters. -/
def group (delimiter : Delimiter) (content : Tokens) : Tokens :=
  .opened delimiter :: (content ++ [.closed delimiter])

end Source

end Chronicle
