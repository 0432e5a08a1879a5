import Chronicle.Command.Arguments
import Chronicle.Command.Log
import Chronicle.Command.Settings
import Chronicle.Command.Sources
import Chronicle.Enhance.Scope

/-!
# Runs of the command

What the command does to a tree of files, and what it prints.

## Implementation notes

A run that fails keeps what it wrote and printed before: failures are raised above the state of the
run. The configuration is read before the files are looked for, and all files are found before the
first one is enhanced, so that a run never takes its own output for input.
-/

namespace Chronicle

namespace Command

open Enhance

/-- Why a run fails: what it could not do, and what was behind it. -/
structure Failure where
  message : String
  cause : Option String := none
deriving DecidableEq, Repr

/-- The lines that tell of a failure. -/
def Failure.lines (f : Failure) : List String :=
  ("Error: " ++ f.message) ::
    match f.cause with
    | some cause => ["", "Caused by:", "    " ++ cause]
    | none => []

/-- A line of output. -/
inductive Printed where
  | line (text : String)
  | log (line : LogLine)
deriving DecidableEq, Repr

/-- A run so far. -/
structure Progress where
  files : FileTree
  output : List Printed := []

/-- A step of a run. -/
abbrev Step := ExceptT Failure (StateM Progress)

/-- Prints a line of output. -/
def print (printed : Printed) : Step Unit :=
  modify fun p => { p with output := p.output ++ [printed] }

/-- Logs a line. -/
def log (level : LogLevel) (target text : String) : Step Unit :=
  print (.log ⟨level, target, text⟩)

/-- Reads a file; the failure is named by what the file is read for. -/
def readFile (path : String) (failure : FileError → Failure) : Step String := do
  match (← get).files.read path with
  | .ok content => return content
  | .error error => throw (failure error)

/-- Changes the tree of files. -/
def change (path : String) (edit : FileTree → Except FileError FileTree) : Step Unit := do
  match edit (← get).files with
  | .ok files => modify fun p => { p with files }
  | .error error => throw ⟨"I/O error on " ++ path ++ ": " ++ error.message, error.message⟩

/-- The naming that a configuration file chooses. -/
def loadSettings (path : String) : Step Naming := do
  let content ← readFile path fun error =>
    ⟨"Failed to read config file " ++ path, error.message⟩
  match namingOfText? content with
  | some naming =>
    log .debug "entity_enhance::config" ("Loaded config from " ++ path ++ ": " ++ settingsDump naming)
    return naming
  | none => throw ⟨"Invalid config file " ++ path, none⟩

/-- A file to enhance, and the file for the result. -/
structure Job where
  input : String
  output : Option String
deriving DecidableEq, Repr

/-- The jobs of a run. -/
def jobsOf (i : Invocation) (files : FileTree) : Except Failure (List Job) := do
  if i.output.isNone && !i.check then
    throw ⟨"OUTPUT is required unless --check is given", none⟩
  if files.isDirectory i.input then
    (sources files i.input).mapM fun path => do
      match i.output with
      | none => return ⟨path, none⟩
      | some root =>
        match Path.relativeTo? path i.input with
        | some rest => return ⟨path, some (Path.join root rest)⟩
        | none => throw ⟨"prefix not found", none⟩
  else return [⟨i.input, i.output⟩]

/-- Logs a note. -/
def logNote (note : Note) : Step Unit :=
  let target := "entity_enhancer::step"
  match note with
  | .untracked className field =>
    log .trace target ("Skip untracked field " ++ className ++ "." ++ field)
  | .alreadyEnhanced className =>
    log .debug target ("Setters Enhancer: " ++ className ++ " is already enhanced")
  | .enhanced className setters =>
    log .debug target
      ("Setters Enhancer: enhanced " ++ toString setters ++ " setters of " ++ className)

/-- Enhances the text of a file. -/
def enhance (naming : Naming) (path source : String) : Step (String × Report) := do
  let run := enhanceText naming source path
  run.notes.forM logNote
  match run.result with
  | .ok done => return done
  | .error error => throw ⟨error.message, none⟩

/-- Reports on a file and writes nothing. -/
def checkFile (naming : Naming) (input : String) : Step Report := do
  let source ← readFile input fun error => ⟨"Failed to read " ++ input, error.message⟩
  return (← enhance naming input source).2

/-- Enhances a file into another one. -/
def enhanceFile (naming : Naming) (input output : String) : Step Report := do
  let source ← readFile input fun error =>
    ⟨"I/O error on " ++ input ++ ": " ++ error.message, error.message⟩
  let (enhanced, report) ← enhance naming input source
  if let some dir := Path.parent? output then
    change dir (·.makeDirectories dir)
  change output (·.write output enhanced)
  log .info "entity_enhancer::enhancer"
    ("Enhanced " ++ input ++ " -> " ++ output ++ ": " ++ toString report.enhanced.length ++
      " classes, " ++ toString report.total ++ " setters")
  return report

/-- The lines that tell what was done to a file. -/
def reportLines (path : String) (r : Report) : List String :=
  (r.enhanced.map fun (className, setters) =>
    path ++ ": " ++ className ++ " [" ++ ", ".intercalate setters ++ "]") ++
  r.skipped.map fun className => path ++ ": " ++ className ++ " (already enhanced)"

/-- Does a job. -/
def Job.run (job : Job) (i : Invocation) (naming : Naming) : Step Report := do
  let report ←
    match i.check, job.output with
    | false, some output => enhanceFile naming job.input output
    | _, _ => checkFile naming job.input
  if i.verbose then
    (reportLines job.input report).forM fun line => print (.line line)
  return report

/-- The line that sums up a run. -/
def summary (jobs : Nat) (r : Report) : String :=
  toString jobs ++ " files: " ++ toString r.enhanced.length ++ " classes enhanced, " ++
    toString r.skipped.length ++ " already enhanced, " ++ toString r.total ++ " setters rewritten"

/-- Does what is asked for. -/
def Invocation.run (i : Invocation) : Step Unit := do
  let naming ← (i.config.elim (pure {}) loadSettings : Step Naming)
  let jobs ← (jobsOf i (← get).files : Except Failure (List Job))
  if jobs.isEmpty then
    log .warn "entity_enhance" ("No .rs files found under " ++ i.input)
  let report ← jobs.foldlM (fun report job => return report.append (← job.run i naming)) {}
  print (.line (summary jobs.length report))

/-- What a command leaves behind. -/
structure Outcome where
  code : Nat
  files : FileTree
  output : List Printed := []
  errors : List String := []

namespace Outcome

/-- The printed lines, without the log. -/
def lines (o : Outcome) : List String :=
  o.output.filterMap fun
    | .line text => some text
    | .log _ => none

/-- The lines of the log that a filter shows, as they are written. -/
def shown (o : Outcome) (filter : String) : List String :=
  let log := o.output.filterMap fun
    | .line _ => none
    | .log line => some line
  (Command.shown (filterOf filter) log).map LogLine.written

end Outcome

/-- Runs the command with some arguments on a tree of files. -/
def run (arguments : List String) (files : FileTree) : Outcome :=
  match Request.ofArguments? arguments with
  | none => { code := 2, files, errors := usageLines }
  | some .help => { code := 0, files, output := helpLines.map .line }
  | some .version => { code := 0, files, output := [.line versionText] }
  | some (.run i) =>
    let (result, done) := i.run.run { files }
    match result with
    | .ok _ => { code := 0, files := done.files, output := done.output }
    | .error failure =>
      { code := 1, files := done.files, output := done.output, errors := failure.lines }

end Command

end Chronicle
