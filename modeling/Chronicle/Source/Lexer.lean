import Chronicle.Source.Scanner
import Chronicle.Source.Token

/-!
# The lexer

From the text of a program to its tokens.

## Implementation notes

Comments and blanks are dropped, except that a comment with documentation becomes an attribute. A
punctuation character is joined to the next one when nothing stands between the two, and an apostrophe
to the word of its lifetime. Every delimiter must be closed by its partner.
-/

namespace Chronicle

namespace Source

namespace Lexer

/-- The punctuation characters, without the apostrophe. -/
def punctuation : List Char :=
  ['~', '!', '@', '#', '$', '%', '^', '&', '*', '-', '=', '+', '|', ';', ':', ',', '<', '.', '>',
    '/', '?']

/-- Whether a punctuation character, an apostrophe included, stands at the front of a text. -/
def atPunctuation : List Char → Bool
  | '/' :: '/' :: _ => false
  | '/' :: '*' :: _ => false
  | c :: _ => c = '\'' || punctuation.contains c
  | [] => false

/-- The apostrophe of a lifetime, and the rest from its word on. -/
def lifetimeMark? (s : List Char) : Option (List Char) :=
  match s with
  | '\'' :: rest => do
    let after ← Scanner.word? rest
    match after with
    | '\'' :: _ => none
    | '#' :: _ => if ['r', '#'].isPrefixOf rest then some rest else none
    | _ => some rest
  | _ => none

/-- The characters of a text before its rest. -/
def taken (s rest : List Char) : String :=
  String.ofList (s.take (s.length - rest.length))

/-- The token at the front of a text that is neither a blank nor a delimiter. -/
def leaf? (s : List Char) : Option (Token × List Char) :=
  match Scanner.literal? s with
  | some rest => some (.literal (taken s rest), rest)
  | none =>
    match s with
    | '\'' :: _ => (lifetimeMark? s).map fun rest => (.punct '\'' true, rest)
    | c :: rest =>
      if atPunctuation s then some (.punct c (atPunctuation rest), rest)
      else (Scanner.bareWord? s).map fun rest => (.word (taken s rest), rest)
    | [] => none

/-- The delimiter that a character opens. -/
def opening? : Char → Option Delimiter
  | '(' => some .paren
  | '[' => some .bracket
  | '\x7b' => some .brace
  | _ => none

/-- The delimiter that a character closes. -/
def closing? : Char → Option Delimiter
  | ')' => some .paren
  | ']' => some .bracket
  | '\x7d' => some .brace
  | _ => none

/-- The attribute that carries documentation, unless a carriage return stands alone in it. -/
def documentation? (comment : Scanner.Documentation) : Option Tokens :=
  let rec bare : List Char → Bool
    | '\r' :: '\n' :: rest => bare rest
    | '\r' :: _ => true
    | _ :: rest => bare rest
    | [] => false
  if bare comment.text then none
  else
    some (.punct '#' false :: (if comment.inner then [.punct '!' false] else []) ++
      group .bracket
        [.word "doc", .punct '=' false, .literal (Scanner.textLiteral comment.text)])

/-- The tokens of a text; `stack` holds the delimiters that are open, the innermost first. -/
def tokens? : Nat → List Delimiter → List Char → Option Tokens
  | 0, _, _ => none
  | _ + 1, stack, [] => if stack.isEmpty then some [] else none
  | fuel + 1, stack, c :: rest =>
    match Scanner.trivia? (c :: rest) with
    | some (.blank, rest) => tokens? fuel stack rest
    | some (.documentation comment, rest) => do
      let documentation ← documentation? comment
      let tokens ← tokens? fuel stack rest
      some (documentation ++ tokens)
    | none =>
      match opening? c with
      | some delimiter =>
        (tokens? fuel (delimiter :: stack) rest).map (.opened delimiter :: ·)
      | none =>
        match closing? c with
        | some delimiter =>
          match stack with
          | top :: below =>
            if top = delimiter then (tokens? fuel below rest).map (.closed delimiter :: ·) else none
          | [] => none
        | none => do
          let (token, rest) ← leaf? (c :: rest)
          let tokens ← tokens? fuel stack rest
          some (token :: tokens)

end Lexer

/-- The text without a byte order mark. -/
def withoutMark : List Char → List Char
  | '\ufeff' :: rest => rest
  | s => s

/-- The tokens that a text writes, if every character belongs to one. -/
def lex? (text : List Char) : Option Tokens :=
  let s := withoutMark text
  Lexer.tokens? (s.length + 1) [] s

/-- The text after blanks and comments without documentation, given some fuel. -/
def skipTrivia : Nat → List Char → List Char
  | 0, s => s
  | fuel + 1, s =>
    match Scanner.trivia? s with
    | some (.blank, rest) => skipTrivia fuel rest
    | _ => s

/-- The text without a first line that names an interpreter. -/
def withoutInterpreter : List Char → List Char
  | '#' :: '!' :: rest =>
    match skipTrivia rest.length rest with
    | '[' :: _ => '#' :: '!' :: rest
    | _ => rest.dropWhile (· ≠ '\n')
  | s => s

/-- The tokens of a whole file. -/
def lexFile? (text : List Char) : Option Tokens :=
  lex? (withoutInterpreter (withoutMark text))

end Source

end Chronicle
