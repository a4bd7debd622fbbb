/-!
# Paths

A path is written with slashes between its parts. Empty parts and single points add nothing, so
that different texts can be one path; two points lead up and are kept, since what they mean is up
to the file system. Where no part is a link to another place, they take away the part in front of
them.

## Main definitions

* `Path`, `Path.ofString`, `Path.toString`.
* `Path.child`, `Path.ancestors`, `Path.precedes`.
* `Path.resolveIn`: the path from the root, without two points.
-/

namespace PklSyntax

/-- A path by its parts, from the root or from the working directory. -/
structure Path where
  absolute : Bool
  parts : List String
  deriving Repr, DecidableEq, Inhabited

namespace Path

/-- The part says something. -/
def isProper (part : String) : Bool := part != "" && part != "."

/-- The path that is written so. -/
def ofString (text : String) : Path where
  absolute := text.startsWith "/"
  parts := (text.splitOn "/").filter isProper

/-- The path in its shortest form. -/
protected def toString (path : Path) : String :=
  let joined := "/".intercalate path.parts
  if path.absolute then "/" ++ joined else if path.parts.isEmpty then "." else joined

/-- The path of what has a name in the directory at a path. -/
def child (path : Path) (name : String) : Path := { path with parts := path.parts ++ [name] }

/-- The directory in which the path lies. -/
def parent (path : Path) : Path := { path with parts := path.parts.dropLast }

/-- The path and all directories above it, from the path upwards. -/
def ancestors (path : Path) : List Path :=
  (List.range (path.parts.length + 1)).map fun dropped =>
    { path with parts := path.parts.take (path.parts.length - dropped) }

/-- The order of paths: part by part, so that what lies in a directory stands together. -/
def precedes (a b : Path) : Bool := !decide (b.parts < a.parts)

/-- The parts of a path from the root without two points. Nothing lies above the root. -/
def withoutAscents (parts : List String) : List String :=
  (parts.foldl (fun taken part => if part = ".." then taken.tail else part :: taken) []).reverse

/-- The path from the root that a path means in a directory, where no part is a link. -/
def resolveIn (directory path : Path) : Path where
  absolute := true
  parts := withoutAscents (if path.absolute then path.parts else directory.parts ++ path.parts)

end Path

end PklSyntax
