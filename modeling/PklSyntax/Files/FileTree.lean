import PklSyntax.Files.FileSystem

/-!
# Files in memory

A file system that is a plain value: a tree of directories with files, and no links. It bounds the
length of names and of paths.

## Main definitions

* `FileTree`, `FileTree.addFile`, `FileTree.addDirectory`.
* `FileTree.Walk`, `FileTree.follow`: what a path leads to, part by part.
* `FileTree.fileSystem`: a tree as a file system, with a working directory.
-/

namespace PklSyntax

/-- A file with its bytes, or a directory with what is in it. -/
inductive FileTree where
  | file (bytes : ByteArray)
  | directory (entries : List (String × FileTree))
  deriving Inhabited

namespace FileTree

/-- What a tree is. -/
def kind : FileTree → EntryKind
  | file _ => .file
  | directory _ => .directory

/-- What has a name in a directory. -/
def entry? (name : String) : FileTree → Option FileTree
  | file _ => none
  | directory entries => entries.lookup name

/-- The names in a directory. -/
def names : FileTree → List String
  | file _ => []
  | directory entries => entries.map Prod.fst

/-- The bytes of a file. -/
def bytes : FileTree → ByteArray
  | file bytes => bytes
  | directory _ => .empty

/-! ### Building trees -/

/-- What is at a path after a change, if `old?` is what the path begins at. Directories are made as
they are needed. -/
def update (change : Option FileTree → FileTree) : List String → Option FileTree → FileTree
  | [], old? => change old?
  | name :: path, old? =>
    let entries := match old? with
      | some (directory entries) => entries
      | _ => []
    directory ((name, update change path (entries.lookup name)) ::
      entries.filter fun entry => entry.1 != name)

/-- The tree with a file at a path. -/
def addFile (path : Path) (bytes : ByteArray) (tree : FileTree) : FileTree :=
  update (fun _ => file bytes) path.parts (some tree)

/-- The tree with a directory at a path, which keeps what is in it. -/
def addDirectory (path : Path) (tree : FileTree) : FileTree :=
  update (fun old? => old?.getD (directory [])) path.parts (some tree)

/-! ### Following paths -/

/-- The greatest number of bytes of a name. -/
def nameLimit : Nat := 255

/-- The greatest number of bytes of a path as it is written. -/
def pathLimit : Nat := 4095

/-- Where a walk through a tree stands: the directories above, the nearest first, and what it has
come to. -/
structure Walk where
  above : List FileTree
  here : FileTree

/-- The walk after one more part of a path. Only directories can be walked through, and above the
root is the root again. -/
def Walk.step (walk : Walk) (part : String) : Except Absence Walk :=
  if walk.here.kind = .file then .error .missing
  else if !Path.isProper part then .ok walk
  else if part = ".." then
    match walk.above with
    | [] => .ok walk
    | tree :: above => .ok ⟨above, tree⟩
  else if nameLimit < part.utf8ByteSize then .error .tooLong
  else
    match walk.here.entry? part with
    | some next => .ok ⟨walk.here :: walk.above, next⟩
    | none => .error .missing

/-- What a path leads to from the working directory. -/
def follow (root : FileTree) (working : Path) (text : String) : Except Absence FileTree :=
  if text.isEmpty then .error .missing
  else if pathLimit < text.utf8ByteSize then .error .tooLong
  else do
    let start := if text.startsWith "/" then [] else working.parts
    let walk ← (start ++ text.splitOn "/").foldlM Walk.step ⟨[], root⟩
    return walk.here

/-- What a path leads to; an empty directory when it leads to nothing. -/
def followD (root : FileTree) (working : Path) (text : String) : FileTree :=
  match root.follow working text with
  | .ok tree => tree
  | .error _ => directory []

/-- A tree as a file system, with the path from its root to the working directory. -/
def fileSystem (root : FileTree) (working : Path) : FileSystem Id where
  status text := (root.follow working text).map kind
  resolve text := working.resolveIn (Path.ofString text)
  names text := (root.followD working text).names
  contents text := (root.followD working text).bytes

end FileTree

end PklSyntax
