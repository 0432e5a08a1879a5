import Chronicle.Files.Tree

/-!
# Source files below a directory

## Implementation notes

Names are taken in their order, and what lies below a directory comes at its place. A directory whose
name looks like a source file's counts as one. The path of a file keeps the way in which the directory
was named, except that single dots in front are left out; a directory that is named by such dots and
nothing else but slashes has no files.
-/

namespace Chronicle

namespace Command

/-- Whether a name is that of a source file. -/
def isSourceName (name : String) : Bool := name.endsWith ".rs"

/-- The path of a name in a directory; the current directory is not named. -/
def below (dir name : String) : String := if dir = "." then name else Path.join dir name

/-- The source files below a directory, which is so many levels deep at most. -/
def sourcesWithin (t : FileTree) : Nat → String → List String
  | 0, _ => []
  | fuel + 1, dir =>
    match t.place dir with
    | .error _ => []
    | .ok place => (t.names place).flatMap fun name =>
      let path := below dir name
      (if isSourceName name then [path] else []) ++
        (if t.isDirectory path then sourcesWithin t fuel path else [])

/-- The way from a directory along some parts, as long as there is one. -/
def approach (t : FileTree) : String → List String → Option String
  | dir, [] => some dir
  | dir, part :: rest =>
    let next := below dir part
    let isThere := if Path.isDots part then t.isDirectory dir else t.contains next
    if isThere then approach t next rest else none

/-- The source files below a directory. -/
def sources (t : FileTree) (dir : String) : List String :=
  let way :=
    match Path.parts dir with
    | "" :: rest => approach t "/" rest
    | parts => approach t "." parts
  way.elim [] (sourcesWithin t (t.entries.length + 1))

end Command

end Chronicle
