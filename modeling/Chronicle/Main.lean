import Chronicle.Command.Run

/-!
# The command line

Takes from the file system what a run looks at, runs the command on it, and puts back what was written.

## Implementation notes

Only source files and files that the arguments name are read; of all others it matters that they are
there. Nothing here decides what is done or said: that is the run's own work.
-/

namespace Chronicle

namespace Command

/-- How many levels of directories below one that is named are looked at. -/
def depthLimit : Nat := 64

/-- The file at the end of a path; its text is left out unless it is needed. -/
def fileAt (path : String) (isNeeded : Bool) : IO FileEntry := do
  if !isNeeded then return .text ""
  match ← (IO.FS.readBinFile path).toBaseIO with
  | .ok bytes => return .ofBytes bytes.toList
  | .error error => return .unreadable (.other (toString error))

/-- Adds what is at the end of a path, and so many levels of what lies below. -/
def capture (isNamed : Bool) : Nat → FileTree → String → IO FileTree
  | depth, files, path => do
    let .ok found ← (IO.FS.realPath path).toBaseIO | return files
    if ← found.isDir then
      let files := (files.makeDirectories path).toOption.getD files
      match depth with
      | 0 => return files
      | depth + 1 =>
        (← found.readDir).foldlM
          (fun files entry => capture false depth files (Path.join path entry.fileName)) files
    else return files.add path (← fileAt path (isNamed || isSourceName path))

/-- The paths above a path, the topmost first, of which there are so many at most. -/
def pathsAbove : Nat → String → List String
  | 0, _ => []
  | limit + 1, path =>
    match Path.parent? path with
    | some dir => if dir = "" then [] else pathsAbove limit dir ++ [dir]
    | none => []

/-- Adds what is at the end of a path that is named, above it and below it. -/
def captureNamed (files : FileTree) (path : String) : IO FileTree := do
  let files ← (pathsAbove path.length path).foldlM (capture true 0) files
  capture true depthLimit files path

/-- Writes the files that differ from what they were. -/
def putBack (before after : FileTree) : IO Unit := do
  for (place, content) in after.changesSince before do
    if let some dir := Path.parent? place.path then
      if dir ≠ "" then IO.FS.createDirAll dir
    IO.FS.writeFile place.path content

/-- Prints a line of output, if it is shown. -/
def printOut (filter : List LogDirective) : Printed → IO Unit
  | .line text => IO.println text
  | .log line => (shown filter [line]).forM fun line => IO.println line.written

end Command

end Chronicle

open Chronicle Chronicle.Command in
/-- Runs the command with the arguments of the program. -/
def main (arguments : List String) : IO UInt32 := do
  let named :=
    match Request.ofArguments? arguments with
    | some (.run i) => [i.input] ++ i.output.toList ++ i.config.toList
    | _ => []
  let files ← named.foldlM captureNamed {}
  let outcome := Command.run arguments files
  putBack files outcome.files
  let filter := filterOf ((← IO.getEnv "RUST_LOG").getD "")
  outcome.output.forM (printOut filter)
  outcome.errors.forM fun line => IO.eprintln line
  return UInt32.ofNat outcome.code
