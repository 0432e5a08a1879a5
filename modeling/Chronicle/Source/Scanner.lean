import Chronicle.Text.Identifier
import Chronicle.Text.Quoted

/-!
# Scanning words, literals and comments

The pieces of the lexer: each scanner takes one kind of token or comment from the front of a text and
says how many characters it takes, or that the text does not begin with one.

## Implementation notes

Scanners return the rest of the text. The token is the part of the text before that rest, kept as it is
written.
-/

namespace Chronicle

namespace Source

namespace Scanner

/-- Whether a character may begin a word. -/
def startsWord (c : Char) : Bool :=
  c.isAlpha || c = '_' || (127 < c.toNat && Text.identifierStart.contains c)

/-- Whether a character may continue a word. -/
def continuesWord (c : Char) : Bool :=
  c.isAlphanum || c = '_' || (127 < c.toNat && Text.identifierContinue.contains c)

/-- Whether the text begins with a word character of the first kind. -/
def atWord : List Char → Bool
  | c :: _ => startsWord c
  | [] => false

/-- The rest after a word without a mark. -/
def plainWord? : List Char → Option (List Char)
  | c :: rest => if startsWord c then some (rest.dropWhile continuesWord) else none
  | [] => none

/-- Words that cannot be raw identifiers. -/
def neverRaw : List String := ["_", "super", "self", "Self", "crate"]

/-- The rest after a word, which may carry the mark of a raw identifier. -/
def word? (s : List Char) : Option (List Char) :=
  match s with
  | 'r' :: '#' :: rest => do
    let after ← plainWord? rest
    if neverRaw.contains (String.ofList (rest.take (rest.length - after.length))) then none
    else some after
  | _ => plainWord? s

/-- The beginnings of literals that look like words. -/
def literalHeads : List String :=
  ["r\"", "r#\"", "r##", "b\"", "b'", "br\"", "br#", "c\"", "cr\"", "cr#"]

/-- The rest after a word that is not the beginning of a literal. -/
def bareWord? (s : List Char) : Option (List Char) :=
  if literalHeads.any fun head => head.toList.isPrefixOf s then none else word? s

/-- The rest after the suffix of a literal, if there is one. -/
def skipSuffix (s : List Char) : List Char :=
  (plainWord? s).getD s

/-- The rest after two base-sixteen digits, the first below eight where `ascii` asks for it. -/
def hexEscape? (ascii : Bool) : List Char → Option (List Char)
  | a :: b :: rest =>
    match Text.hexValue? a, Text.hexValue? b with
    | some high, some _ => if ascii && 8 ≤ high then none else some rest
    | _, _ => none
  | _ => none

/-- The rest after the digits of a braced code point, given how many were read and their value. -/
def unicodeDigits? : List Char → Nat → Nat → Option (List Char)
  | '\x7d' :: rest, count, value =>
    if 0 < count ∧ (value < 0xD800 ∨ (0xDFFF < value ∧ value < 0x110000)) then some rest else none
  | '_' :: rest, count, value => if 0 < count then unicodeDigits? rest count value else none
  | c :: rest, count, value =>
    match Text.hexValue? c with
    | some digit => if count < 6 then unicodeDigits? rest (count + 1) (16 * value + digit) else none
    | none => none
  | [], _, _ => none

/-- The rest after a braced code point. -/
def unicodeEscape? : List Char → Option (List Char)
  | '\x7b' :: rest => unicodeDigits? rest 0 0
  | _ => none

/-- Letters that stand for one character after a backslash. -/
def simpleEscapes : List Char := ['n', 'r', 't', '\\', '\'', '"', '0']

/-- The kinds of quoted literals. -/
inductive Quotation where
  | text
  | bytes
  | cText
deriving DecidableEq

/-- The rest after what follows a backslash. -/
def escape? (kind : Quotation) : List Char → Option (List Char)
  | 'x' :: rest => hexEscape? (kind = .text) rest
  | 'u' :: rest => if kind = .bytes then none else unicodeEscape? rest
  | c :: rest => if simpleEscapes.contains c then some rest else none
  | [] => none

/-- Characters that a backslash at the end of a line skips. -/
def isLineBlank (c : Char) : Bool :=
  c = ' ' || c = '\t' || c = '\n' || c = '\r'

/-- The rest after a quoted literal's content and closing quote, given some fuel. -/
def quotedBody? (kind : Quotation) : Nat → List Char → Option (List Char)
  | 0, _ => none
  | fuel + 1, s =>
    match s with
    | '"' :: rest => some (skipSuffix rest)
    | '\r' :: '\n' :: rest => quotedBody? kind fuel rest
    | '\r' :: _ => none
    | '\\' :: '\n' :: rest => quotedBody? kind fuel (rest.dropWhile isLineBlank)
    | '\\' :: '\r' :: '\n' :: rest => quotedBody? kind fuel (rest.dropWhile isLineBlank)
    | '\\' :: rest =>
      match escape? kind rest with
      | some rest => quotedBody? kind fuel rest
      | none => none
    | c :: rest => if kind = .bytes && 127 < c.toNat then none else quotedBody? kind fuel rest
    | [] => none

/-- The rest after a raw literal's content and closing quote. -/
def rawBody? (hashes : List Char) : List Char → Option (List Char)
  | '"' :: rest =>
    if hashes.isPrefixOf rest then some (skipSuffix (rest.drop hashes.length))
    else rawBody? hashes rest
  | '\r' :: '\n' :: rest => rawBody? hashes rest
  | '\r' :: _ => none
  | _ :: rest => rawBody? hashes rest
  | [] => none

/-- The rest after a raw literal whose letters have been read. -/
def raw? (s : List Char) : Option (List Char) :=
  let hashes := s.takeWhile (· = '#')
  match s.dropWhile (· = '#') with
  | '"' :: rest => if hashes.length ≤ 255 then rawBody? hashes rest else none
  | _ => none

/-- The rest after a character and its closing quote. -/
def character? (kind : Quotation) (s : List Char) : Option (List Char) :=
  let closed (rest : List Char) : Option (List Char) :=
    match rest with
    | '\'' :: rest => some (skipSuffix rest)
    | _ => none
  match s with
  | '\\' :: rest => (escape? kind rest).bind closed
  | c :: rest => if kind = .bytes && 127 < c.toNat then none else closed rest
  | [] => none

/-- The rest after a literal in quotes. -/
def quotedLiteral? (s : List Char) : Option (List Char) :=
  let body (kind : Quotation) (rest : List Char) := quotedBody? kind (rest.length + 1) rest
  match s with
  | '"' :: rest => body .text rest
  | 'r' :: rest => raw? rest
  | 'b' :: '"' :: rest => body .bytes rest
  | 'b' :: 'r' :: rest => raw? rest
  | 'b' :: '\'' :: rest => character? .bytes rest
  | 'c' :: '"' :: rest => body .cText rest
  | 'c' :: 'r' :: rest => raw? rest
  | '\'' :: rest => character? .text rest
  | _ => none

/-- The rest after a suffix, if no word character follows. -/
def numberEnd? (s : List Char) : Option (List Char) :=
  let rest := skipSuffix s
  match rest with
  | c :: _ => if continuesWord c then none else some rest
  | [] => some rest

/-- Whether a character is a digit or the mark between digits. -/
def isDigitMark (c : Char) : Bool :=
  c.isDigit || c = '_'

/-- The rest after an exponent whose letter has been read. -/
def exponent? (s : List Char) : Option (List Char) :=
  let marks (s : List Char) := s.dropWhile (· = '_')
  let signed :=
    match marks s with
    | '+' :: rest => rest
    | '-' :: rest => rest
    | rest => rest
  match marks signed with
  | c :: rest => if c.isDigit then some (rest.dropWhile isDigitMark) else none
  | [] => none

/-- The rest after the digits, point and exponent of a number with a point or an exponent. -/
def floatDigits? (s : List Char) : Option (List Char) :=
  match s with
  | c :: rest =>
    if c.isDigit then
      match rest.dropWhile isDigitMark with
      | '.' :: after =>
        match after with
        | d :: _ =>
          if d = '.' || startsWord d then none
          else
            match after.dropWhile isDigitMark with
            | 'e' :: tail => some ((exponent? tail).getD ('e' :: tail))
            | 'E' :: tail => some ((exponent? tail).getD ('E' :: tail))
            | tail => some tail
        | [] => some []
      | 'e' :: tail => exponent? tail
      | 'E' :: tail => exponent? tail
      | _ => none
    else none
  | [] => none

/-- The rest after a floating-point literal. -/
def float? (s : List Char) : Option (List Char) :=
  (floatDigits? s).bind numberEnd?

/-- The rest after the digits of a base, of which there must be one. -/
def baseDigits? (base : Nat) : List Char → Bool → Option (List Char)
  | [], empty => if empty then none else some []
  | c :: rest, empty =>
    if c = '_' then
      if empty && base = 10 then none else baseDigits? base rest empty
    else
      match Text.hexValue? c with
      | some digit =>
        if digit < base then baseDigits? base rest false
        else if c.isDigit then none
        else if empty then none
        else some (c :: rest)
      | none => if empty then none else some (c :: rest)

/-- The rest after an integer literal. -/
def integer? (s : List Char) : Option (List Char) :=
  let digits :=
    match s with
    | '0' :: 'x' :: rest => baseDigits? 16 rest true
    | '0' :: 'o' :: rest => baseDigits? 8 rest true
    | '0' :: 'b' :: rest => baseDigits? 2 rest true
    | _ => baseDigits? 10 s true
  digits.bind numberEnd?

/-- The rest after a literal. -/
def literal? (s : List Char) : Option (List Char) :=
  match quotedLiteral? s with
  | some rest => some rest
  | none =>
    match float? s with
    | some rest => some rest
    | none => integer? s

/-- The text up to the end of the line, and the rest from there on. -/
def line : List Char → List Char × List Char
  | '\n' :: rest => ([], '\n' :: rest)
  | '\r' :: '\n' :: rest => ([], '\r' :: '\n' :: rest)
  | c :: rest => (c :: (line rest).1, (line rest).2)
  | [] => ([], [])

/-- The content of a block comment and the rest; comments nest, and `depth` of them are open. -/
def blockBody? : List Char → Nat → Option (List Char × List Char)
  | '/' :: '*' :: rest, depth =>
    (blockBody? rest (depth + 1)).map fun (content, rest) => ('/' :: '*' :: content, rest)
  | '*' :: '/' :: rest, 1 => some ([], rest)
  | '*' :: '/' :: rest, depth =>
    (blockBody? rest (depth - 1)).map fun (content, rest) => ('*' :: '/' :: content, rest)
  | c :: rest, depth => (blockBody? rest depth).map fun (content, rest) => (c :: content, rest)
  | [], _ => none

/-- A comment that documents what follows it or what it stands in. -/
structure Documentation where
  inner : Bool
  text : List Char

/-- What stands between two tokens. -/
inductive Trivia where
  | blank
  | documentation (comment : Documentation)

/-- Blank characters. -/
def isBlank (c : Char) : Bool :=
  c = ' ' || ('\t' ≤ c && c ≤ '\r') || c = '\x85' || c = '\xa0' || c = '\u1680' ||
    ('\u2000' ≤ c && c ≤ '\u200a') || c = '\u200e' || c = '\u200f' || c = '\u2028' ||
    c = '\u2029' || c = '\u202f' || c = '\u205f' || c = '\u3000'

/-- The comment or the blank at the front of a text. -/
def trivia? (s : List Char) : Option (Trivia × List Char) :=
  match s with
  | '/' :: '/' :: '/' :: '/' :: rest => some (.blank, (line rest).2)
  | '/' :: '/' :: '/' :: rest => some (.documentation ⟨false, (line rest).1⟩, (line rest).2)
  | '/' :: '/' :: '!' :: rest => some (.documentation ⟨true, (line rest).1⟩, (line rest).2)
  | '/' :: '/' :: rest => some (.blank, (line rest).2)
  | '/' :: '*' :: '*' :: '/' :: rest => some (.blank, rest)
  | '/' :: '*' :: '*' :: '*' :: rest =>
    (blockBody? ('*' :: '*' :: rest) 1).map fun (_, rest) => (.blank, rest)
  | '/' :: '*' :: '*' :: rest =>
    (blockBody? rest 1).map fun (content, rest) => (.documentation ⟨false, content⟩, rest)
  | '/' :: '*' :: '!' :: rest =>
    (blockBody? rest 1).map fun (content, rest) => (.documentation ⟨true, content⟩, rest)
  | '/' :: '*' :: rest => (blockBody? rest 1).map fun (_, rest) => (.blank, rest)
  | c :: rest => if isBlank c then some (.blank, rest) else none
  | [] => none

/-- The characters that stand for one character inside a text literal. -/
def literalChar (c : Char) (next : Option Char) : List Char :=
  if c = '\x00' then
    if next.any fun d => '0' ≤ d && d ≤ '7' then ['\\', 'x', '0', '0'] else ['\\', '0']
  else Text.quotedChar c

/-- The characters that stand for a text inside a text literal. -/
def literalChars : List Char → List Char
  | [] => []
  | c :: rest => literalChar c rest.head? ++ literalChars rest

/-- The literal that writes a text. -/
def textLiteral (text : List Char) : String :=
  String.ofList ('"' :: (literalChars text ++ ['"']))

end Scanner

end Source

end Chronicle
