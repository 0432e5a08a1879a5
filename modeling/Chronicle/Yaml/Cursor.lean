/-!
# Places in a YAML text

What is left of a text at a place, with the line and the column of the place.

## Implementation notes

Columns decide what belongs together, so that every reader keeps them up to date. Tabs may separate
tokens on a line but must not indent one, which is why skipping to the next token is told whether tabs
are allowed yet.
-/

namespace Chronicle

namespace Yaml

/-- What is left of a text at a place. -/
structure Cursor where
  rest : List Char
  line : Nat := 0
  column : Nat := 0

/-- Whether a character separates words on a line. -/
def isBlank (c : Char) : Bool := c = ' ' || c = '\t'

/-- Whether a text is at an end, at a line break or at a blank. -/
def endsWord : List Char → Bool
  | [] => true
  | c :: _ => isBlank c || c = '\n'

/-- Whether a line begins with the mark of a character that ends a document or begins one. -/
def hasMark (mark : Char) : List Char → Bool
  | a :: b :: c :: rest => a = mark && b = mark && c = mark && endsWord rest
  | _ => false

/-- Whether a line begins with the end of a document or with a new one. -/
def isMarked (s : List Char) : Bool := hasMark '-' s || hasMark '.' s

namespace Cursor

/-- The place after so many characters of one line. -/
def skip (c : Cursor) (count : Nat) : Cursor :=
  { c with rest := c.rest.drop count, column := c.column + count }

/-- The place of the next token, after blanks, comments and line breaks; `tabs` tells whether tabs are
allowed, `flow` whether they still are on the next line. -/
def seek (flow : Bool) : Bool → Bool → List Char → Nat → Nat → Cursor
  | _, _, [], line, column => ⟨[], line, column⟩
  | tabs, comment, c :: rest, line, column =>
    if c = '\n' then seek flow flow false rest (line + 1) 0
    else if comment then seek flow tabs true rest line (column + 1)
    else if c = ' ' || (tabs && c = '\t') then seek flow tabs false rest line (column + 1)
    else if c = '#' then seek flow tabs true rest line (column + 1)
    else ⟨c :: rest, line, column⟩

/-- The place of the next token outside brackets. -/
def toToken (c : Cursor) (tabs : Bool) : Cursor := seek false tabs false c.rest c.line c.column

/-- The place of the next token inside brackets. -/
def toFlowToken (c : Cursor) : Cursor := seek true true false c.rest c.line c.column

/-- The place after the blanks on a line. -/
def afterBlanks (c : Cursor) : Cursor := c.skip (c.rest.takeWhile isBlank).length

/-- Whether there is no token of the document any more. -/
def isAtEnd (c : Cursor) : Bool := c.rest.isEmpty || (c.column = 0 && isMarked c.rest)

/-- Whether a mark that must be followed by a blank stands at a place. -/
def isAt (c : Cursor) (mark : Char) : Bool :=
  match c.rest with
  | first :: rest => first = mark && endsWord rest
  | [] => false

end Cursor

end Yaml

end Chronicle
