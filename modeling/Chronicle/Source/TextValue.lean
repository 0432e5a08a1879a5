import Chronicle.Source.Scanner
import Chronicle.Text.Numeral

/-!
# The value of a text literal

From a text literal as it is written in a program to the text it stands for.

## Implementation notes

The literal is one that the lexer has accepted, so that only what it accepts has to be understood.
Between marks of a raw literal every character stands for itself.
-/

namespace Chronicle

namespace Source

namespace TextValue

/-- Blank characters that a backslash at the end of a line skips. -/
def isBlankOnLine (c : Char) : Bool :=
  c ≠ '\u200e' && c ≠ '\u200f' && Scanner.isBlank c

/-- The value of base-sixteen digits up to a closing brace, and the rest after it. -/
def codePoint : Nat → List Char → Nat × List Char
  | value, '\x7d' :: rest => (value, rest)
  | value, c :: rest => codePoint (((Text.hexValue? c).map (16 * value + ·)).getD value) rest
  | value, [] => (value, [])

/-- The character that a letter stands for after a backslash. -/
def simple (c : Char) : Char :=
  match c with
  | 'n' => '\n'
  | 'r' => '\r'
  | 't' => '\t'
  | '0' => '\x00'
  | c => c

/-- The text up to the closing quote, given some fuel. -/
def quotedBody : Nat → List Char → List Char
  | 0, _ => []
  | fuel + 1, s =>
    match s with
    | [] | '"' :: _ => []
    | '\r' :: '\n' :: rest => '\n' :: quotedBody fuel rest
    | '\\' :: 'x' :: a :: b :: rest =>
      let digit := fun c => (Text.hexValue? c).getD 0
      Char.ofNat (16 * digit a + digit b) :: quotedBody fuel rest
    | '\\' :: 'u' :: _ :: rest =>
      let (value, rest) := codePoint 0 rest
      Char.ofNat value :: quotedBody fuel rest
    | '\\' :: '\n' :: rest => quotedBody fuel (rest.dropWhile isBlankOnLine)
    | '\\' :: '\r' :: rest => quotedBody fuel (rest.dropWhile isBlankOnLine)
    | '\\' :: c :: rest => simple c :: quotedBody fuel rest
    | c :: rest => c :: quotedBody fuel rest

/-- The text between the quotes of a raw literal. -/
def rawBody (s : List Char) : List Char :=
  let marks := (s.takeWhile (· = '#')).length
  let content := s.drop (marks + 1)
  let closing := (content.reverse.dropWhile (· ≠ '"')).drop 1
  closing.reverse

end TextValue

/-- The text that a literal stands for, if it is a text literal. -/
def textValue? (literal : String) : Option String :=
  match literal.toList with
  | '"' :: rest => some (String.ofList (TextValue.quotedBody rest.length rest))
  | 'r' :: rest => some (String.ofList (TextValue.rawBody rest))
  | _ => none

end Source

end Chronicle
