/-!
# Paths

Paths as texts: their parts, the directory above, one path below another, and one path seen from
another.

## Implementation notes

Empty parts and single dots after the first part do not count; a single dot in front counts as a part,
which is why `./a` is not below `a` and `a` not below `.`.
-/

namespace Chronicle

namespace Path

/-- The texts between the slashes of a path. -/
def parts (path : String) : List String := (path.toList.splitOn '/').map String.ofList

/-- Whether a part says nothing. -/
def isVoid (part : String) : Bool := part = "" || part = "."

/-- Whether a part names a directory by its position. -/
def isDots (part : String) : Bool := part = "." || part = ".."

/-- Parts without void ones at their end; the first part stays. -/
def trimEnd : List String → List String
  | [] => []
  | first :: rest => first :: (rest.reverse.dropWhile isVoid).reverse

/-- The path of some parts. -/
def ofParts : List String → String
  | [""] => "/"
  | parts => "/".intercalate parts

/-- A path without slashes at its end; the root stays. -/
def trimSlashes (path : String) : String :=
  match parts path with
  | [] => ""
  | first :: rest => ofParts (first :: (rest.reverse.dropWhile (· = "")).reverse)

/-- The directory above a path; `none` above the root. -/
def parent? (path : String) : Option String :=
  match trimEnd (parts path) with
  | [] => none
  | [""] => none
  | [_] => some ""
  | parts => some (ofParts (trimEnd parts.dropLast))

/-- A path below another one. -/
def join (base path : String) : String :=
  if path.startsWith "/" then path
  else if base = "" || base.endsWith "/" then base ++ path
  else base ++ "/" ++ path

/-- The parts of a path that count. -/
def components (path : String) : List String :=
  match parts path with
  | [] => []
  | [""] => []
  | first :: rest => first :: rest.filter (!isVoid ·)

/-- What follows the parts of a base in the parts of a path. -/
def dropBase : List String → List String → Option (List String)
  | [], rest => some rest
  | _ :: _, [] => none
  | part :: base, first :: rest => if part = first then dropBase base rest else none

/-- A path as seen from a base that it begins with. -/
def relativeTo? (path base : String) : Option String :=
  (dropBase (components base) (components path)).map ("/".intercalate ·)

end Path

end Chronicle
