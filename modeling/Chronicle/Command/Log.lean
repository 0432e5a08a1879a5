/-!
# Logging

Log lines, and the filter that decides which of them are shown.

## Implementation notes

A filter is a list of directives. Of those whose target begins the target of a line the longest decides;
whatever a filter says about all targets at once, they are shown from warnings on.
-/

namespace Chronicle

namespace Command

/-- How much a log line matters. -/
inductive LogLevel where
  | error
  | warn
  | info
  | debug
  | trace
deriving DecidableEq, Repr

namespace LogLevel

/-- The place of a level in the order of verbosity, from one on. -/
def rank : LogLevel → Nat
  | .error => 1
  | .warn => 2
  | .info => 3
  | .debug => 4
  | .trace => 5

/-- The written form of a level. -/
def written : LogLevel → String
  | .error => "ERROR"
  | .warn => "WARN"
  | .info => "INFO"
  | .debug => "DEBUG"
  | .trace => "TRACE"

end LogLevel

/-- A log line. -/
structure LogLine where
  level : LogLevel
  target : String
  text : String
deriving DecidableEq, Repr

/-- The written form of a log line. -/
def LogLine.written (line : LogLine) : String :=
  line.level.written ++ " " ++ line.target ++ ": " ++ line.text

/-- A part of a filter: lines of some targets are shown up to a rank. -/
structure LogDirective where
  /-- What the targets begin with. -/
  target : String
  limit : Nat
deriving DecidableEq, Repr

/-- The rank that a word names. -/
def rankOf? (word : String) : Option Nat :=
  ["off", "error", "warn", "info", "debug", "trace"].findIdx? (· = word.toLower) <|>
    ["0", "1", "2", "3", "4", "5"].findIdx? (· = word)

/-- Whether a text may begin a target. -/
def isTarget (text : String) : Bool :=
  match text.toList with
  | c :: rest => (c.isAlphanum || c = '_' || c = ':' || c = '-' || 128 ≤ c.toNat) && !rest.contains '['
  | [] => false

/-- The directive that a text writes; one that says something about all targets is left out, and so is
one that is not understood. -/
def LogDirective.ofText? (text : String) : Option LogDirective :=
  match text.splitOn "=" with
  | [target] =>
    if isTarget target && (rankOf? target).isNone then some ⟨target, LogLevel.trace.rank⟩ else none
  | [target, level] =>
    if !isTarget target then none
    else if level.isEmpty then some ⟨target, LogLevel.trace.rank⟩
    else (rankOf? level).map (⟨target, ·⟩)
  | _ => none

/-- The filter that a text writes: directives with commas between them. -/
def filterOf (text : String) : List LogDirective :=
  (text.splitOn ",").filterMap LogDirective.ofText?

/-- The rank up to which lines of a target are shown: by the longest directive, and by the last one of
several with one target. -/
def limitFor (filter : List LogDirective) (target : String) : Nat :=
  let best := filter.foldl (fun (best : Option LogDirective) d =>
    if target.startsWith d.target && best.all fun b => b.target.length ≤ d.target.length then some d
    else best) none
  (best.map LogDirective.limit).getD LogLevel.warn.rank

/-- The log lines that a filter shows. -/
def shown (filter : List LogDirective) (lines : List LogLine) : List LogLine :=
  lines.filter fun line => line.level.rank ≤ limitFor filter line.target

end Command

end Chronicle
