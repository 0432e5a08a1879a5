import Chronicle.Source.Token

/-!
# Grammar rules

A small language of grammar rules over tokens, and what it means to follow one: a rule reads tokens
from the front of a list and writes the same tokens with the spacing that the grammar gives them.

## Implementation notes

Rules are data. Following a rule needs the meaning of the phrases it calls, which `Grammar.follow`
supplies with one unit of fuel less; an operator's characters must be joined where the grammar reads
one operator, and the last character's joint does not matter, so that `>>` is read as one operator or as
two according to its place.
-/

namespace Chronicle

namespace Source

/-- What a rule may ask of the tokens at the front. -/
inductive Terminal where
  /-- The given word. -/
  | word (text : String)
  /-- A word that may name something. -/
  | name
  /-- Any word. -/
  | anyWord
  /-- A lifetime: its mark and its word. -/
  | lifetime
  | literal
  /-- A number with its sign, which becomes part of the literal. -/
  | signedNumber
  | textLiteral
  /-- The position of a tuple's field. -/
  | index
  /-- Two positions that were read as one number, with the point between them. -/
  | indexPair
  /-- A position that was read together with the point that follows it. -/
  | indexPoint
  /-- An operator, given by its joined characters. -/
  | op (text : String)
  /-- An operator that is written as another one. -/
  | opAs (text : String) (written : String)
  | opened (delimiter : Delimiter)
  | closed (delimiter : Delimiter)
  /-- Any token that is not a delimiter, with its own spacing. -/
  | any
  /-- The end of a group or of the list; nothing is read. -/
  | finish

/-- Words that cannot name anything unless they are raw. -/
def keywords : List String :=
  ["_", "abstract", "as", "async", "await", "become", "box", "break", "const", "continue", "crate",
    "do", "dyn", "else", "enum", "extern", "false", "final", "fn", "for", "if", "impl", "in", "let",
    "loop", "macro", "match", "mod", "move", "mut", "override", "priv", "pub", "ref", "return",
    "Self", "self", "static", "struct", "super", "trait", "true", "try", "type", "typeof", "unsafe",
    "unsized", "use", "virtual", "where", "while", "yield"]

/-- Tokens written, and the tokens that remain. -/
abbrev Step := Tokens × Tokens

namespace Terminal

/-- The rest after the joined characters of an operator. -/
def operator? : List Char → Tokens → Option Tokens
  | [], tokens => some tokens
  | [c], .punct d _ :: rest => if d = c then some rest else none
  | c :: more, .punct d true :: rest => if d = c then operator? more rest else none
  | _, _ => none

/-- Whether a literal is a number. -/
def isNumber (text : String) : Bool :=
  text.toList.head?.any Char.isDigit

/-- The parts of a literal at its points. -/
def splitPoint (text : String) : List String :=
  (text.toList.splitOn '.').map String.ofList

/-- Whether a text is the number of a position. -/
def isPosition (text : String) : Bool :=
  !text.isEmpty && text.toList.all Char.isDigit

/-- Reads one terminal. -/
def read? : Terminal → Tokens → Option Step
  | .word text, .word w :: rest => if w = text then some ([.word w], rest) else none
  | .name, .word w :: rest => if keywords.contains w then none else some ([.word w], rest)
  | .anyWord, .word w :: rest => some ([.word w], rest)
  | .lifetime, .punct '\'' true :: .word w :: rest => some ([.punct '\'' true, .word w], rest)
  | .literal, .literal text :: rest => some ([.literal text], rest)
  | .signedNumber, .punct '-' _ :: .literal text :: rest =>
    if isNumber text then some ([.literal ("-" ++ text)], rest) else none
  | .textLiteral, .literal text :: rest =>
    match text.toList with
    | '"' :: _ | 'r' :: _ => some ([.literal text], rest)
    | _ => none
  | .index, .literal text :: rest => if isPosition text then some ([.literal text], rest) else none
  | .indexPair, .literal text :: rest =>
    match splitPoint text with
    | [a, b] =>
      if isPosition a && isPosition b then some ([.literal a, .punct '.' false, .literal b], rest)
      else none
    | _ => none
  | .indexPoint, .literal text :: rest =>
    match splitPoint text with
    | [a, ""] => if isPosition a then some ([.literal a, .punct '.' false], rest) else none
    | _ => none
  | .op text, tokens =>
    (operator? text.toList tokens).map fun rest => (operator text.toList, rest)
  | .opAs text written, tokens =>
    (operator? text.toList tokens).map fun rest => (operator written.toList, rest)
  | .opened delimiter, .opened d :: rest =>
    if d = delimiter then some ([.opened d], rest) else none
  | .closed delimiter, .closed d :: rest =>
    if d = delimiter then some ([.closed d], rest) else none
  | .any, .word w :: rest => some ([.word w], rest)
  | .any, .punct c joined :: rest => some ([.punct c joined], rest)
  | .any, .literal text :: rest => some ([.literal text], rest)
  | .finish, [] => some ([], [])
  | .finish, .closed d :: rest => some ([], .closed d :: rest)
  | _, _ => none

end Terminal

/-- A question about the tokens at the front. -/
inductive Look where
  /-- Whether the terminals follow one another. -/
  | at (terminals : List Terminal)
  | negate (look : Look)
  | both (first second : Look)
  | either (first second : Look)

namespace Look

/-- Whether terminals follow one another at the front. -/
def follows : List Terminal → Tokens → Bool
  | [], _ => true
  | t :: more, tokens =>
    match t.read? tokens with
    | some (_, rest) => follows more rest
    | none => false

/-- The answer to a question. -/
def holds : Look → Tokens → Bool
  | .at terminals, tokens => follows terminals tokens
  | .negate look, tokens => !look.holds tokens
  | .both first second, tokens => first.holds tokens && second.holds tokens
  | .either first second, tokens => first.holds tokens || second.holds tokens

/-- Whether one of several sequences of terminals stands at the front. -/
def oneOf (options : List (List Terminal)) : Look :=
  options.foldr (fun option look => .either (.at option) look) (.negate (.at []))

/-- Whether the given word stands at the front. -/
def word (text : String) : Look := .at [.word text]

/-- Whether one of the given words stands at the front. -/
def words (texts : List String) : Look := oneOf (texts.map fun text => [.word text])

/-- Whether an operator stands at the front. -/
def op (text : String) : Look := .at [.op text]

/-- Whether one of several operators stands at the front. -/
def ops (texts : List String) : Look := oneOf (texts.map fun text => [.op text])

/-- Whether an operator stands at the front that is not the beginning of another one. -/
def opNot (text longer : String) : Look := .both (op text) (.negate (op longer))

/-- Whether a group with the given delimiters stands at the front. -/
def group (delimiter : Delimiter) : Look := .at [.opened delimiter]

/-- Whether nothing is left in the group. -/
def finish : Look := .at [.finish]

/-- Whether something is left in the group. -/
def more : Look := .negate finish

end Look

/-- A grammar rule that may call the phrases in `Φ`. -/
inductive Rule (Φ : Type) where
  /-- Reads nothing. -/
  | done
  /-- Never succeeds. -/
  | never
  | read (terminal : Terminal)
  | seq (first second : Rule Φ)
  /-- Follows one of two rules according to a question. -/
  | choose (look : Look) (yes no : Rule Φ)
  /-- Follows the second rule where the first one fails. -/
  | orElse (first second : Rule Φ)
  /-- Follows a rule again and again as long as a question is answered with yes. -/
  | repeatWhile (look : Look) (body : Rule Φ)
  | call (phrase : Φ)
  /-- Follows a rule and writes nothing. -/
  | skip (body : Rule Φ)
  /-- Follows a rule and writes its tokens with their own spacing. -/
  | verbatim (body : Rule Φ)
  /-- Reads in a way of its own, given the meaning of the phrases. -/
  | reading (reader : (Φ → Tokens → Option Step) → Tokens → Option Step)

namespace Rule

/-- Follows several rules one after another. -/
def all {Φ : Type} (rules : List (Rule Φ)) : Rule Φ :=
  rules.foldr Rule.seq .done

/-- Follows a rule if a question is answered with yes, and otherwise reads nothing. -/
def opt {Φ : Type} (look : Look) (body : Rule Φ) : Rule Φ :=
  .choose look body .done

/-- Reads the given word. -/
def word {Φ : Type} (text : String) : Rule Φ := .read (.word text)

/-- Reads an operator. -/
def op {Φ : Type} (text : String) : Rule Φ := .read (.op text)

/-- Reads an operator if it is there. -/
def optOp {Φ : Type} (text : String) : Rule Φ := opt (.op text) (op text)

/-- Reads the given word if it is there. -/
def optWord {Φ : Type} (text : String) : Rule Φ := opt (.word text) (word text)

/-- Follows a rule inside delimiters. -/
def inside {Φ : Type} (delimiter : Delimiter) (body : Rule Φ) : Rule Φ :=
  all [.read (.opened delimiter), body, .read (.closed delimiter)]

/-- Reads nothing, and only where a question is answered with no. -/
def forbid {Φ : Type} (look : Look) : Rule Φ := .choose look .never .done

/-- Follows a rule up to the end of the group, with commas in between and possibly at the end. -/
def commaList {Φ : Type} (body : Rule Φ) : Rule Φ :=
  .repeatWhile .more (.seq body (.choose .finish .done (op ",")))

/-- Follows a rule up to an operator, with commas in between and possibly before the operator. -/
def commaListUntil {Φ : Type} (stop : String) (body : Rule Φ) : Rule Φ :=
  .repeatWhile (.negate (.op stop)) (.seq body (.choose (.op stop) .done (op ",")))

/-- Follows the rule of the first question that is answered with yes. -/
def switch {Φ : Type} (cases : List (Look × Rule Φ)) (otherwise : Rule Φ) : Rule Φ :=
  cases.foldr (fun (look, body) rest => .choose look body rest) otherwise

/-- Repeats a step while a question is answered with yes, given some fuel. -/
def iterate (look : Look) (step : Tokens → Option Step) : Nat → Tokens → Option Step
  | 0, _ => none
  | fuel + 1, tokens =>
    if look.holds tokens then
      match step tokens with
      | some (written, rest) =>
        (iterate look step fuel rest).map fun (more, rest) => (written ++ more, rest)
      | none => none
    else some ([], tokens)

/-- Follows a rule, given the meaning of the phrases it calls and a limit for repetitions. -/
def follow {Φ : Type} (limit : Nat) (meaning : Φ → Tokens → Option Step) :
    Rule Φ → Tokens → Option Step
  | .done, tokens => some ([], tokens)
  | .never, _ => none
  | .read terminal, tokens => terminal.read? tokens
  | .seq first second, tokens =>
    match first.follow limit meaning tokens with
    | some (written, rest) =>
      (second.follow limit meaning rest).map fun (more, rest) => (written ++ more, rest)
    | none => none
  | .choose look yes no, tokens =>
    if look.holds tokens then yes.follow limit meaning tokens else no.follow limit meaning tokens
  | .orElse first second, tokens =>
    match first.follow limit meaning tokens with
    | some step => some step
    | none => second.follow limit meaning tokens
  | .repeatWhile look body, tokens =>
    iterate look (body.follow limit meaning) limit tokens
  | .call phrase, tokens => meaning phrase tokens
  | .skip body, tokens => (body.follow limit meaning tokens).map fun (_, rest) => ([], rest)
  | .verbatim body, tokens =>
    (body.follow limit meaning tokens).map fun (_, rest) =>
      (tokens.take (tokens.length - rest.length), rest)
  | .reading reader, tokens => reader meaning tokens

end Rule

/-- A grammar: the rule of each of its phrases. -/
structure Grammar (Φ : Type) where
  rule : Φ → Rule Φ

namespace Grammar

/-- Follows the rule of a phrase; phrases may call phrases as deep as the fuel allows, and as often
in a row. -/
def follow {Φ : Type} (grammar : Grammar Φ) : Nat → Φ → Tokens → Option Step
  | 0, _, _ => none
  | fuel + 1, phrase, tokens => (grammar.rule phrase).follow fuel (grammar.follow fuel) tokens

end Grammar

end Source

end Chronicle
