import PklSyntax.Grammar.Module
import PklSyntax.Toml.Document

/-!
# Settings

The settings for the texts of a directory stand in a file of TOML, in the tables `parser` and
`output`. Values are taken as they are: a setting that is on or off is on when its value is neither
zero nor empty nor false, and the limit on errors can be any number. So a value of an unexpected
sort matters only where it is used.

## Main definitions

* `Settings`, `Settings.read`: the settings that a text describes.
* `SettingsError`: why a text describes none.
* `Settings.parse?`: a text read under settings.
-/

namespace PklSyntax

/-- The values that can be set. -/
structure Settings where
  styleWarnings : Toml.Value := .boolean true
  docCommentWarnings : Toml.Value := .boolean true
  maxErrors : Toml.Value := .integer 0
  color : Toml.Value := .boolean true
  showWarnings : Toml.Value := .boolean true
  deriving Inhabited

/-- Why a text describes no settings: it is refused as a document, or what should be a table is
another value. -/
inductive SettingsError where
  | refused (fault : Toml.Fault)
  | notATable (name : String) (found : Toml.Value)

/-- The name of the file in which settings stand. -/
def settingsFilename : String := "pklparse.toml"

namespace Settings

/-- The table with the given name, which is empty when it is missing. -/
def subtable (name : String) (table : Toml.Table) : Except SettingsError Toml.Table :=
  match Toml.find? name table with
  | none => .ok []
  | some (.table _ entries) => .ok entries
  | some found => .error (.notATable name found)

/-- The settings that stand in a table. -/
def ofTable (table : Toml.Table) : Except SettingsError Settings := do
  let parser ← subtable "parser" table
  let output ← subtable "output" table
  let default : Settings := {}
  return {
    styleWarnings := (Toml.find? "style_warnings" parser).getD default.styleWarnings
    docCommentWarnings :=
      (Toml.find? "doc_comment_warnings" parser).getD default.docCommentWarnings
    maxErrors := (Toml.find? "max_errors" parser).getD default.maxErrors
    color := (Toml.find? "color" output).getD default.color
    showWarnings := (Toml.find? "show_warnings" output).getD default.showWarnings }

/-- The settings that a text describes. -/
def read (text : String) : Except SettingsError Settings :=
  match Toml.parse text with
  | .ok table => ofTable table
  | .error fault => .error (.refused fault)

/-- The limit on errors that a value sets. A limit that is no integer is reached with the next
greater one, and an infinite one never. -/
def limit? : Toml.Value → Option Int
  | .integer limit => some limit
  | .boolean limit => some (if limit then 1 else 0)
  | .float limit => some (limit.ceiling?.getD 0)
  | _ => none

/-- The options of the parser, with the limit on errors given apart. -/
def options (settings : Settings) (maxErrors : Int) : Options where
  styleWarnings := settings.styleWarnings.isTrue
  docCommentWarnings := settings.docCommentWarnings.isTrue
  maxErrors := maxErrors

/-- The result of reading a source text. There is none when the limit on errors is no number and
the text has more than trivia, so that the limit matters. -/
def parse? (settings : Settings) (source : SourceText) : Option ParseResult :=
  match limit? settings.maxErrors with
  | some limit => some (source.parse (settings.options limit))
  | none => if source.isBlank then some (source.parse (settings.options 0)) else none

end Settings

end PklSyntax
