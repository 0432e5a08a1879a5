import Chronicle.Text.Invisible
import Chronicle.Text.Numeral

/-!
# Quoted text

The form in which dumps and event texts show a text value: between double quotes, with the
characters that would not be seen as themselves replaced by escapes.

## Implementation notes

The single quote stays as it is, because the text stands between double quotes.
-/

namespace Chronicle

namespace Text

/-- The characters that stand for one character inside quoted text. -/
def quotedChar (c : Char) : List Char :=
  if c = '\x00' then ['\\', '0']
  else if c = '\t' then ['\\', 't']
  else if c = '\r' then ['\\', 'r']
  else if c = '\n' then ['\\', 'n']
  else if c = '"' then ['\\', '"']
  else if c = '\\' then ['\\', '\\']
  else if invisibleChars.contains c then
    ['\\', 'u', '\x7b'] ++ Nat.toDigits 16 c.toNat ++ ['\x7d']
  else [c]

/-- A text between double quotes, with its escapes. -/
def quoted (text : String) : String :=
  String.ofList (['"'] ++ text.toList.flatMap quotedChar ++ ['"'])

end Text

end Chronicle
