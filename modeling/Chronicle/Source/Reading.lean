import Chronicle.Source.Phrase
import Chronicle.Source.Rule

/-!
# Reading structure

How a part of a program is read into a value of its own type: a reader takes tokens from the front of
what remains, and uses the grammar's phrases for the parts that are kept as tokens.

## Implementation notes

A reader is a function of the meaning of the phrases, so that the grammar's own rules can use readers
too.
-/

namespace Chronicle

namespace Source

/-- What the phrases mean. -/
abbrev Meaning := Phrase → Tokens → Option Step

/-- A reader of tokens. -/
abbrev Reading (α : Type) := StateT Tokens Option α

namespace Reading

/-- Reads one terminal. -/
def terminal (t : Terminal) : Reading Tokens := fun tokens => t.read? tokens

/-- Reads the given word. -/
def word (text : String) : Reading Tokens := terminal (.word text)

/-- Reads an operator. -/
def op (text : String) : Reading Tokens := terminal (.op text)

/-- Reads a phrase. -/
def phrase (meaning : Meaning) (p : Phrase) : Reading Tokens := fun tokens => meaning p tokens

/-- Follows a rule. -/
def rule (meaning : Meaning) (r : Rule Phrase) : Reading Tokens := fun tokens =>
  r.follow (tokens.length + 1) meaning tokens

/-- The answer to a question about the tokens at the front. -/
def sees (look : Look) : Reading Bool := fun tokens => some (look.holds tokens, tokens)

/-- Reads if a question is answered with yes. -/
def opt (look : Look) (body : Reading Tokens) : Reading Tokens := do
  if ← sees look then body else return []

/-- Reads a name. -/
def name : Reading String := fun tokens =>
  match tokens with
  | .word text :: rest => if keywords.contains text then none else some (text, rest)
  | _ => none

/-- Reads again and again as long as a question is answered with yes, at most `limit` times. -/
def whileTrue {α : Type} (look : Look) (body : Reading α) : Nat → Reading (List α)
  | 0 => failure
  | limit + 1 => do
    if ← sees look then
      let value ← body
      let values ← whileTrue look body limit
      return value :: values
    else return []

/-- Reads again and again as long as a question is answered with yes. -/
def many {α : Type} (look : Look) (body : Reading α) : Reading (List α) := fun tokens =>
  whileTrue look body (tokens.length + 1) tokens

/-- Reads inside delimiters. -/
def inside {α : Type} (delimiter : Delimiter) (body : Reading α) : Reading α := do
  let _ ← terminal (.opened delimiter)
  let value ← body
  let _ ← terminal (.closed delimiter)
  return value

/-- Reads up to a question, and says for each value whether a comma follows it. -/
def commaList {α : Type} (stop : Look) (body : Reading α) : Reading (List (α × Bool)) :=
  many (.negate stop) do
    let value ← body
    if ← sees stop then return (value, false)
    else
      let _ ← op ","
      return (value, true)

end Reading

/-- Tokens, and the comma that follows them if there is one. -/
def withComma (tokens : Tokens) (comma : Bool) : Tokens :=
  tokens ++ (if comma then operator [','] else [])

end Source

end Chronicle
