import Chronicle.Text.Numeral
import Chronicle.Yaml.Cursor

/-!
# YAML scalars

Reading scalars in their four styles.

## Implementation notes

In plain and quoted scalars a line break is read as a blank, and more of them as one break less; what
stands between two words is therefore kept back until it is known what follows it.
-/

namespace Chronicle

namespace Yaml

/-- What stands between two words of a scalar. -/
inductive Gap where
  | none
  /-- Blanks, the last of them first. -/
  | blanks (reversed : List Char)
  /-- So many line breaks, with blanks around them that do not count. -/
  | breaks (count : Nat)
  /-- An escaped line break and so many others. -/
  | joined (count : Nat)

namespace Gap

/-- The gap after another blank. -/
def blank (c : Char) : Gap → Gap
  | .none => .blanks [c]
  | .blanks reversed => .blanks (c :: reversed)
  | gap => gap

/-- The gap after another line break. -/
def newline : Gap → Gap
  | .breaks count => .breaks (count + 1)
  | .joined count => .joined (count + 1)
  | _ => .breaks 1

/-- Whether there is a line break in a gap. -/
def isBroken : Gap → Bool
  | .breaks _ => true
  | .joined _ => true
  | _ => false

/-- Whether a gap is nothing at all. -/
def isNone : Gap → Bool
  | .none => true
  | _ => false

/-- What is read for a gap, the last character first. -/
def reading : Gap → List Char
  | .none => []
  | .blanks reversed => reversed
  | .breaks 1 => [' ']
  | .breaks count => List.replicate (count - 1) '\n'
  | .joined count => List.replicate count '\n'

end Gap

/-- Characters that end a plain scalar inside brackets. -/
def isFlowMark (c : Char) : Bool := [',', '[', ']', '\x7b', '\x7d'].contains c

/-- Whether a plain scalar ends before a character that is followed by some text; `none` if the
character must not stand there. -/
def endsPlain? (flow : Bool) (c : Char) (rest : List Char) : Option Bool :=
  if c = ':' && endsWord rest then some true
  else if flow && c = ':' && rest.head?.any fun next => next = '?' || isFlowMark next then none
  else some (flow && isFlowMark c)

/-- Reads a plain scalar, whose lines must not begin before a column outside brackets. The place is the
one after the blanks and line breaks that follow the scalar. -/
def plain? (flow : Bool) (least : Nat) :
    List Char → Gap → List Char → Nat → Nat → Option (List Char × Cursor)
  | text, _, [], line, column => some (text.reverse, ⟨[], line, column⟩)
  | text, gap, c :: rest, line, column =>
    if c = '\n' then plain? flow least text gap.newline rest (line + 1) 0
    else if isBlank c then
      if gap.isBroken && c = '\t' && column < least then none
      else plain? flow least text (gap.blank c) rest line (column + 1)
    else
      let outside := gap.isBroken && ((!flow && column < least) || (column = 0 && isMarked (c :: rest)))
      if outside || (!gap.isNone && c = '#') then some (text.reverse, ⟨c :: rest, line, column⟩)
      else
        match endsPlain? flow c rest with
        | none => none
        | some true => some (text.reverse, ⟨c :: rest, line, column⟩)
        | some false => plain? flow least (c :: (gap.reading ++ text)) .none rest line (column + 1)

/-- Reads what follows a single quote. -/
def singleQuoted? : List Char → Gap → List Char → Nat → Nat → Option (List Char × Cursor)
  | text, gap, '\'' :: '\'' :: rest, line, column =>
    singleQuoted? ('\'' :: (gap.reading ++ text)) .none rest line (column + 2)
  | text, gap, c :: rest, line, column =>
    if column = 0 && isMarked (c :: rest) then none
    else if c = '\'' then some ((gap.reading ++ text).reverse, ⟨rest, line, column + 1⟩)
    else if c = '\n' then singleQuoted? text gap.newline rest (line + 1) 0
    else if isBlank c then singleQuoted? text (gap.blank c) rest line (column + 1)
    else singleQuoted? (c :: (gap.reading ++ text)) .none rest line (column + 1)
  | _, _, [], _, _ => none

/-- The character that a letter after a backslash stands for. -/
def escaped? : Char → Option Char
  | '0' => some '\x00'
  | 'a' => some '\x07'
  | 'b' => some '\x08'
  | 't' => some '\t'
  | '\t' => some '\t'
  | 'n' => some '\n'
  | 'v' => some '\x0b'
  | 'f' => some '\x0c'
  | 'r' => some '\x0d'
  | 'e' => some '\x1b'
  | ' ' => some ' '
  | '"' => some '"'
  | '/' => some '/'
  | '\\' => some '\\'
  | 'N' => some '\u0085'
  | '_' => some '\u00a0'
  | 'L' => some '\u2028'
  | 'P' => some '\u2029'
  | _ => none

/-- The character of a code in base sixteen. -/
def coded? (digits : List Char) : Option Char := do
  let code ← Text.hexNumber? digits
  if code.isValidChar then some (Char.ofNat code) else none

/-- Reads what follows a double quote. -/
def doubleQuoted? : List Char → Gap → List Char → Nat → Nat → Option (List Char × Cursor)
  | text, gap, '\\' :: '\n' :: rest, line, _ =>
    doubleQuoted? (gap.reading ++ text) (.joined 0) rest (line + 1) 0
  | text, gap, '\\' :: 'x' :: a :: b :: rest, line, column => do
    doubleQuoted? ((← coded? [a, b]) :: (gap.reading ++ text)) .none rest line (column + 4)
  | text, gap, '\\' :: 'u' :: a :: b :: c :: d :: rest, line, column => do
    doubleQuoted? ((← coded? [a, b, c, d]) :: (gap.reading ++ text)) .none rest line (column + 6)
  | text, gap, '\\' :: 'U' :: a :: b :: c :: d :: e :: f :: g :: h :: rest, line, column => do
    doubleQuoted? ((← coded? [a, b, c, d, e, f, g, h]) :: (gap.reading ++ text)) .none rest line
      (column + 10)
  | text, gap, '\\' :: e :: rest, line, column => do
    doubleQuoted? ((← escaped? e) :: (gap.reading ++ text)) .none rest line (column + 2)
  | text, gap, c :: rest, line, column =>
    if column = 0 && isMarked (c :: rest) then none
    else if c = '"' then some ((gap.reading ++ text).reverse, ⟨rest, line, column + 1⟩)
    else if c = '\n' then doubleQuoted? text gap.newline rest (line + 1) 0
    else if isBlank c then doubleQuoted? text (gap.blank c) rest line (column + 1)
    else doubleQuoted? (c :: (gap.reading ++ text)) .none rest line (column + 1)
  | _, _, [], _, _ => none

/-! ### Block scalars -/

/-- What becomes of the line breaks at the end of a block. -/
inductive Chomping where
  | strip
  | clip
  | keep
deriving DecidableEq, Repr

/-- A line of a block. -/
inductive BlockLine where
  | empty
  /-- The text of a line after its indentation, and whether a line break ends it. -/
  | text (chars : List Char) (isEnded : Bool)

/-- The lines of a text, each with whether a line break ends it. -/
def lines : List Char → List (List Char × Bool)
  | [] => []
  | c :: rest =>
    if c = '\n' then ([], true) :: lines rest
    else
      match lines rest with
      | [] => [([c], false)]
      | (line, isEnded) :: others => (c :: line, isEnded) :: others

/-- The header of a block: what becomes of the last line breaks, and the indentation if it is given. -/
def header? : List Char → Option (Chomping × Option Nat)
  | s =>
    let chomping (c : Char) : Option Chomping :=
      if c = '+' then some .keep else if c = '-' then some .strip else none
    let width (c : Char) : Option Nat :=
      if '1' ≤ c ∧ c ≤ '9' then some (c.toNat - 48) else none
    let rest (s : List Char) : Bool :=
      match s.dropWhile isBlank with
      | [] => true
      | c :: _ => c = '#'
    match s with
    | a :: b :: s =>
      match chomping a, width b, width a, chomping b with
      | some c, some w, _, _ => if rest s then some (c, some w) else none
      | _, _, some w, some c => if rest s then some (c, some w) else none
      | some c, none, _, _ => if rest (b :: s) then some (c, none) else none
      | _, _, some w, none => if rest (b :: s) then some (.clip, some w) else none
      | none, _, none, _ => if rest (a :: b :: s) then some (.clip, none) else none
    | [a] =>
      match chomping a, width a with
      | some c, _ => some (c, none)
      | _, some w => some (.clip, some w)
      | none, none => if rest [a] then some (.clip, none) else none
    | [] => some (.clip, none)

/-- The number of blanks at the beginning of a line. -/
def leading (line : List Char) : Nat := (line.takeWhile (· = ' ')).length

/-- The indentation of a block that does not give it: that of its first line with text, or of the longest
line before it. -/
def indentation? (least : Nat) : List (List Char × Bool) → Nat → Option Nat
  | [], longest => some (max longest (max least 1))
  | (line, _) :: rest, longest =>
    let longest := max longest (leading line)
    match line.dropWhile (· = ' ') with
    | [] => indentation? least rest longest
    | c :: _ => if c = '\t' then none else some (max longest (max least 1))

/-- The lines of a block, and the number of characters and of lines that they take. -/
def blockLines? (indent : Nat) : List (List Char × Bool) → Option (List BlockLine × Nat × Nat)
  | [] => some ([], 0, 0)
  | (line, isEnded) :: rest =>
    let size := line.length + (if isEnded then 1 else 0)
    if indent ≤ leading line && indent < line.length then do
      let (others, chars, count) ← blockLines? indent rest
      some (.text (line.drop indent) isEnded :: others, chars + size, count + 1)
    else
      match line.dropWhile (· = ' ') with
      | [] => do
        let (others, chars, count) ← blockLines? indent rest
        some (if isEnded then .empty :: others else others, chars + size, count + 1)
      | c :: _ => if c = '\t' then none else some ([], 0, 0)

/-- The text of a block without its end: `before` tells of the line before whether it begins with a
blank, and `empties` how many empty lines have been passed. -/
def blockText (isFolded : Bool) : Option Bool → Nat → List BlockLine → List Char
  | _, _, [] => []
  | before, empties, .empty :: rest => blockText isFolded before (empties + 1) rest
  | before, empties, .text chars _ :: rest =>
    let isBlankFirst := chars.head?.any isBlank
    let passed := List.replicate empties '\n'
    let between :=
      match before with
      | none => passed
      | some isBlankBefore =>
        if isFolded && !isBlankBefore && !isBlankFirst then if empties = 0 then [' '] else passed
        else '\n' :: passed
    between ++ chars ++ blockText isFolded (some isBlankFirst) 0 rest

/-- The line breaks at the end of a block. -/
def blockEnd (chomping : Chomping) (lines : List BlockLine) : List Char :=
  let isEmpty : BlockLine → Bool
    | .empty => true
    | .text .. => false
  let empties := (lines.reverse.takeWhile isEmpty).length
  let last : List Char :=
    match lines.reverse.dropWhile isEmpty with
    | .text _ true :: _ => ['\n']
    | _ => []
  match chomping with
  | .strip => []
  | .clip => last
  | .keep => last ++ List.replicate empties '\n'

/-- Reads what follows the mark of a block scalar, whose lines must not begin before a column. -/
def blockScalar? (isFolded : Bool) (least : Nat) (c : Cursor) : Option (List Char × Cursor) := do
  let head := c.rest.takeWhile (· ≠ '\n')
  let (chomping, width) ← header? head
  let body := c.rest.drop (head.length + 1)
  let indent ←
    match width with
    | some width => some (if least = 0 then width else least - 1 + width)
    | none => indentation? least (lines body) 0
  let (read, chars, count) ← blockLines? indent (lines body)
  some (blockText isFolded none 0 read ++ blockEnd chomping read,
    ⟨body.drop chars, c.line + 1 + count, 0⟩)

end Yaml

end Chronicle
