import PklSyntax.Editor.Document
import PklSyntax.Files.Uri
import PklSyntax.Settings.Lookup

/-!
# Opening documents

A document comes from the editor with its text. Where its identifier names a file, the document is
read under the settings for this file, which need not exist; any other document is read without
settings.

## Main definitions

* `Document.settings`: the settings for the document with an identifier.
* `Document.read`: the document with an identifier and a text.
-/

namespace PklSyntax.Document

variable {m : Type → Type} [Monad m]

/-- The settings for the document with an identifier. -/
def settings (files : FileSystem m) (identifier : String) : ExceptT Obstacle m Settings :=
  match filePath? identifier with
  | some path => files.settings path
  | none => return {}

/-- The document with an identifier and a text. -/
def read (files : FileSystem m) (identifier text : String) : ExceptT Obstacle m Document := do
  let settings ← settings files identifier
  let source := SourceText.ofString text identifier
  match settings.parse? source with
  | some result => return ⟨source, result⟩
  | none => throw .limitIsNoNumber

end PklSyntax.Document
