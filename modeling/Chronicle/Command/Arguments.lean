/-!
# Arguments

What the arguments of a command ask for.

## Implementation notes

Arguments are read from left to right, so that a request for help is granted unless something before it
is wrong. An option may be given once; its value may follow it at once, after a sign of equality or as
the next argument.
-/

namespace Chronicle

namespace Command

/-- What a run is asked to do. -/
structure Invocation where
  input : String
  output : Option String := none
  config : Option String := none
  /-- Whether to report only and to write nothing. -/
  check : Bool := false
  /-- Whether to name every setter. -/
  verbose : Bool := false
deriving DecidableEq, Repr

/-- What the arguments ask for. -/
inductive Request where
  | run (invocation : Invocation)
  | help
  | version
deriving DecidableEq, Repr

/-- What is known of the arguments so far. -/
structure Draft where
  positions : List String := []
  config : Option String := none
  check : Bool := false
  verbose : Bool := false

namespace Draft

/-- The draft with another position; there are two at most, and none is empty. -/
def withPosition? (d : Draft) (value : String) : Option Draft :=
  if value = "" ∨ 2 ≤ d.positions.length then none
  else some { d with positions := d.positions ++ [value] }

/-- The draft with a configuration file. -/
def withConfig? (d : Draft) (value : String) : Option Draft :=
  if value = "" ∨ d.config.isSome then none else some { d with config := some value }

/-- The draft with nothing to write. -/
def withCheck? (d : Draft) : Option Draft := if d.check then none else some { d with check := true }

/-- The draft with every setter named. -/
def withVerbose? (d : Draft) : Option Draft :=
  if d.verbose then none else some { d with verbose := true }

/-- What a draft asks for when there are no more arguments. -/
def finish? (d : Draft) : Option Request :=
  match d.positions with
  | [] => none
  | input :: rest => some (.run ⟨input, rest.head?, d.config, d.check, d.verbose⟩)

end Draft

/-- Whether an argument is an option rather than a value. -/
def isOption (argument : String) : Bool := argument.startsWith "-" && argument ≠ "-"

/-- What single-letter options ask for. -/
inductive Letters where
  | done (draft : Draft)
  /-- The next argument is the configuration file. -/
  | awaiting (draft : Draft)
  | answer (request : Request)

/-- Reads single-letter options. -/
def Letters.read? (d : Draft) : List Char → Option Letters
  | [] => some (.done d)
  | 'v' :: rest => do read? (← d.withVerbose?) rest
  | 'h' :: _ => some (.answer .help)
  | 'V' :: _ => some (.answer .version)
  | ['c'] => some (.awaiting d)
  | 'c' :: '=' :: rest => (d.withConfig? (String.ofList rest)).map .done
  | 'c' :: rest => (d.withConfig? (String.ofList rest)).map .done
  | _ => none

/-- Reads arguments after some others. -/
def Draft.read? (d : Draft) : List String → Option Request
  | [] => d.finish?
  | "--" :: rest => do (← rest.foldlM Draft.withPosition? d).finish?
  | "--help" :: _ => some .help
  | "--version" :: _ => some .version
  | "--check" :: rest => do read? (← d.withCheck?) rest
  | "--verbose" :: rest => do read? (← d.withVerbose?) rest
  | ["--config"] => none
  | "--config" :: value :: rest =>
    if isOption value then none else do read? (← d.withConfig? value) rest
  | argument :: rest =>
    if argument.startsWith "--config=" then do
      read? (← d.withConfig? (String.ofList (argument.toList.drop 9))) rest
    else if argument.startsWith "--" then none
    else if isOption argument then
      match Letters.read? d (argument.toList.drop 1), rest with
      | some (.done d), rest => read? d rest
      | some (.answer request), _ => some request
      | some (.awaiting d), value :: rest =>
        if isOption value then none else do read? (← d.withConfig? value) rest
      | _, _ => none
    else do read? (← d.withPosition? argument) rest

/-- What arguments ask for; `none` if they are not understood. -/
def Request.ofArguments? (arguments : List String) : Option Request := ({} : Draft).read? arguments

/-- The answer to a request for the version. -/
def versionText : String := "entity_enhance 0.1.0"

/-- How the command is used. -/
def usage : String := "Usage: entity_enhance [OPTIONS] <INPUT> [OUTPUT]"

/-- The answer to arguments that are not understood. -/
def usageLines : List String := [usage, "", "For more information, try '--help'."]

/-- The answer to a request for help. -/
def helpLines : List String :=
  ["Rewrite entity setters so every assignment notifies property listeners",
    "",
    usage,
    "",
    "Arguments:",
    "  <INPUT>   源文件，或包含 .rs 文件的目录",
    "  [OUTPUT]  输出文件；输入为目录时为输出目录，保持相对路径",
    "",
    "Options:",
    "  -c, --config <FILE>  YAML 配置文件（setter/getter/持久化方法前缀）",
    "      --check          只检查并报告，不写出文件",
    "  -v, --verbose        输出每个被改写的 setter",
    "  -h, --help           Print help",
    "  -V, --version        Print version"]

end Command

end Chronicle
