import Chronicle.Files.Path

/-!
# Trees of files

Files and directories in memory: looking them up by paths, reading and writing them.

## Implementation notes

A place is where a path leads: a list of names, which begins with an empty one if it is counted from
the root and with double dots if it lies above the working directory. On its way to a place a path must
lead through directories; which error is met first decides what goes wrong.
-/

namespace Chronicle

/-- What goes wrong with a file. -/
inductive FileError where
  | notFound
  | alreadyExists
  | notDirectory
  | isDirectory
  /-- The bytes of the file are no text. -/
  | notText
  /-- Something else, in the words of the system. -/
  | other (message : String)
deriving DecidableEq, Repr

namespace FileError

/-- The message for an error. -/
def message : FileError → String
  | .notFound => "No such file or directory (os error 2)"
  | .alreadyExists => "File exists (os error 17)"
  | .notDirectory => "Not a directory (os error 20)"
  | .isDirectory => "Is a directory (os error 21)"
  | .notText => "stream did not contain valid UTF-8"
  | .other message => message

end FileError

/-- What is at a place. -/
inductive FileEntry where
  | text (content : String)
  /-- A file that cannot be read, and why. -/
  | unreadable (error : FileError)
  | directory
deriving DecidableEq, Repr

/-- A file with some bytes. -/
def FileEntry.ofBytes (bytes : List UInt8) : FileEntry :=
  match String.fromUTF8? ⟨bytes.toArray⟩ with
  | some content => .text content
  | none => .unreadable .notText

/-- Where a path leads. -/
abbrev Place := List String

namespace Place

/-- Whether a place is the working directory, one above it, or the root. -/
def isGiven (place : Place) : Bool := place.all (· = "..") || place = [""]

/-- Whether a place is below the working directory. -/
def isInside : Place → Bool
  | first :: _ => first ≠ "" && first ≠ ".."
  | [] => false

/-- The directory of a place. -/
def above (place : Place) : Place :=
  if place = [""] then place
  else if place.all (· = "..") then place ++ [".."]
  else place.dropLast

/-- The path of a place. -/
def path (place : Place) : String := if place = [] then "." else Path.ofParts place

end Place

/-- Files and directories by their places; those that are given are always there. -/
structure FileTree where
  entries : List (Place × FileEntry) := []

namespace FileTree

/-- What is at a place. -/
def get? (t : FileTree) (place : Place) : Option FileEntry :=
  if place.isGiven then some .directory else t.entries.lookup place

/-- The tree with something put at a place. -/
def put (t : FileTree) (place : Place) (entry : FileEntry) : FileTree :=
  ⟨(place, entry) :: t.entries.filter (·.1 != place)⟩

/-- What is put last at a place is there. -/
theorem get?_put (t : FileTree) (place : Place) (entry : FileEntry)
    (h : place.isGiven = false) : (t.put place entry).get? place = some entry := by
  simp [get?, put, h]

theorem lookup_filter_ne (entries : List (Place × FileEntry)) (place other : Place)
    (h : other ≠ place) :
    (entries.filter (·.1 != place)).lookup other = entries.lookup other := by
  induction entries with
  | nil => rfl
  | cons e rest ih =>
    obtain ⟨first, entry⟩ := e
    by_cases hp : first = place
    · have ho : (other == first) = false := by simpa [hp] using h
      simp [hp, List.lookup_cons, ih, hp ▸ ho]
    · simp [hp, List.lookup_cons, ih]

/-- Putting something at a place leaves all other places as they are. -/
theorem get?_put_of_ne (t : FileTree) (place other : Place) (entry : FileEntry)
    (h : other ≠ place) : (t.put place entry).get? other = t.get? other := by
  have hb : (other == place) = false := by simpa using h
  simp [get?, put, List.lookup_cons, hb, lookup_filter_ne _ _ _ h]

/-- The place that the parts of a path lead to from a place. -/
def follow (t : FileTree) : Place → List String → Except FileError Place
  | place, [] => .ok place
  | place, part :: rest =>
    match t.get? place with
    | none => .error .notFound
    | some .directory =>
      if Path.isVoid part then t.follow place rest
      else if part = ".." then t.follow place.above rest
      else t.follow (place ++ [part]) rest
    | some _ => .error .notDirectory

/-- The place where a path begins, and the parts that are left. -/
def start (path : String) : Place × List String :=
  match Path.parts path with
  | "" :: rest => ([""], rest)
  | parts => ([], parts)

/-- The place of a path whose last part may be missing from the tree. -/
def place (t : FileTree) (path : String) : Except FileError Place :=
  if path = "" then .error .notFound else t.follow (start path).1 (start path).2

/-- What is at the end of a path. -/
def look (t : FileTree) (path : String) : Except FileError FileEntry := do
  match t.get? (← t.place path) with
  | some entry => .ok entry
  | none => .error .notFound

/-- Whether a path leads to a directory. -/
def isDirectory (t : FileTree) (path : String) : Bool :=
  match t.look path with
  | .ok .directory => true
  | _ => false

/-- Whether a path leads to anything. -/
def contains (t : FileTree) (path : String) : Bool := (t.look path).toBool

/-- The text of the file at the end of a path. -/
def read (t : FileTree) (path : String) : Except FileError String := do
  match ← t.look path with
  | .text content => .ok content
  | .unreadable error => .error error
  | .directory => .error .isDirectory

/-- The place of something new, with or without a slash at its end: the directory above it must be
there. -/
def newPlace (t : FileTree) (path : String) : Except FileError Place := do
  let place ← t.place (Path.trimSlashes path)
  match t.get? place.above with
  | some .directory => .ok place
  | some _ => .error .notDirectory
  | none => .error .notFound

/-- The tree with a new directory. -/
def makeDirectory (t : FileTree) (path : String) : Except FileError FileTree := do
  let place ← t.newPlace path
  match t.get? place with
  | some _ => .error .alreadyExists
  | none => .ok (t.put place .directory)

/-- The tree with a directory and with the directories above it, of which so many may be missing. -/
def makeDirectoriesUpTo : Nat → FileTree → String → Except FileError FileTree
  | 0, _, _ => .error .notFound
  | fuel + 1, t, path =>
    if path = "" then .ok t
    else
      let settle (t : FileTree) (error : FileError) : Except FileError FileTree :=
        if t.isDirectory path then .ok t else .error error
      match t.makeDirectory path with
      | .ok t => .ok t
      | .error .notFound => do
        let t ← (Path.parent? path).elim (.error .notFound) (makeDirectoriesUpTo fuel t)
        match t.makeDirectory path with
        | .ok t => .ok t
        | .error error => settle t error
      | .error error => settle t error

/-- The tree with a directory and with the directories above it. -/
def makeDirectories (t : FileTree) (path : String) : Except FileError FileTree :=
  makeDirectoriesUpTo (path.length + 1) t path

/-- The tree with a text written to the file at the end of a path; what ends with a slash or with dots
is no file. -/
def write (t : FileTree) (path content : String) : Except FileError FileTree := do
  let place ← t.newPlace path
  let last := (Path.parts path).getLast?.getD ""
  if last = "" then .error .isDirectory
  else
    match t.get? place with
    | some .directory => .error .isDirectory
    | none => if Path.isDots last then .error .notFound else .ok (t.put place (.text content))
    | some _ => .ok (t.put place (.text content))

/-- The names in the directory at a place, in their order. -/
def names (t : FileTree) (place : Place) : List String :=
  let below := t.entries.filterMap fun (other, _) =>
    if other.dropLast = place ∧ ¬ other.isGiven then other.getLast? else none
  below.mergeSort fun a b => !(b < a)

/-- The tree with something put at the end of a path, in directories that are made for it. -/
def add (t : FileTree) (path : String) (entry : FileEntry) : FileTree :=
  let t := ((Path.parent? path).bind fun dir => (t.makeDirectories dir).toOption).getD t
  (t.newPlace path).toOption.elim t (t.put · entry)

/-- The files whose texts are new or differ from those in an earlier tree. -/
def changesSince (t before : FileTree) : List (Place × String) :=
  t.entries.filterMap fun (place, entry) =>
    match entry with
    | .text content => if before.get? place = some entry then none else some (place, content)
    | _ => none

end FileTree

end Chronicle
