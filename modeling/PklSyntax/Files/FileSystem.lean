import PklSyntax.Files.Path

/-!
# File systems

What is asked of a file system, for any way of answering. A path is asked about as it is written,
since only the file system knows what it leads to.

## Main definitions

* `EntryKind`, `Absence`: what a path can lead to, and why it can lead to nothing.
* `FileSystem`: the questions that are asked of a file system.
-/

namespace PklSyntax

/-- What a path can lead to. -/
inductive EntryKind where
  | file
  | directory
  deriving Repr, DecidableEq, Inhabited

/-- Why a path leads to nothing: nothing is there, or the path is too long to be followed. -/
inductive Absence where
  | missing
  | tooLong
  deriving Repr, DecidableEq, Inhabited

/-- The questions that are asked of a file system. `resolve` gives the path from the root, without
detours; `names` are those in a directory, in any order. -/
structure FileSystem (m : Type → Type) where
  status : String → m (Except Absence EntryKind)
  resolve : String → m Path
  names : String → m (List String)
  contents : String → m ByteArray

end PklSyntax
