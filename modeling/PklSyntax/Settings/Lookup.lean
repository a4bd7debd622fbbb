import PklSyntax.Files.FileSystem
import PklSyntax.Settings

/-!
# The settings of a file

The settings for a file stand in its directory, or in the nearest one above that has any. Looking
for them can fail for reasons of the file system as well as for reasons of their text.

## Main definitions

* `Obstacle`: why a file or its settings cannot be used.
* `FileSystem.readText`: the text of a file.
* `FileSystem.settings`: the settings for a path.
-/

namespace PklSyntax

/-- Why a file or its settings cannot be used. -/
inductive Obstacle where
  | notText
  | isDirectory
  | pathTooLong
  | pathHoldsNul
  | badSettings (cause : SettingsError)
  | limitIsNoNumber

/-- What is said of an obstacle. -/
def Obstacle.message : Obstacle → String
  | notText => "a file is not encoded as UTF-8"
  | isDirectory => "a directory stands in place of a file"
  | pathTooLong => "a path is too long"
  | pathHoldsNul => "a path holds the character NUL"
  | badSettings (.refused .malformed) => "the settings are no TOML document"
  | badSettings (.refused (.tooManyDigits count)) =>
    "the settings have an integer of " ++ toString count ++ " digits"
  | badSettings (.refused .tooDeep) => "the settings are nested too deeply"
  | badSettings (.notATable name _) => "'" ++ name ++ "' is not a table of settings"
  | limitIsNoNumber => "'max_errors' is not a number"

namespace FileSystem

variable {m : Type → Type} [Monad m] (files : FileSystem m)

/-- Refuses a path that no file system can be asked about. -/
def requireNoNul (path : String) : ExceptT Obstacle m Unit :=
  if path.toList.contains '\x00' then throw .pathHoldsNul else return

/-- What a path leads to, if it can be followed. -/
def kind? (path : String) : ExceptT Obstacle m (Option EntryKind) := do
  match ← files.status path with
  | .ok kind => return some kind
  | .error .missing => return none
  | .error .tooLong => throw .pathTooLong

/-- The text of a file as it stands. -/
def readText (path : String) : ExceptT Obstacle m String := do
  if (← files.kind? path) = some .directory then throw .isDirectory
  match String.fromUTF8? (← files.contents path) with
  | some text => return text
  | none => throw .notText

/-- The first path of the list at which there is something. -/
def firstExisting? : List Path → ExceptT Obstacle m (Option Path)
  | [] => return none
  | path :: others => do
    match ← files.kind? path.toString with
    | some _ => return some path
    | none => firstExisting? others

/-- The file with the settings for a path, in the nearest directory that has one. -/
def settingsPath? (path : String) : ExceptT Obstacle m (Option Path) := do
  requireNoNul path
  let resolved ← files.resolve path
  let start := if (← files.kind? resolved.toString) = some .file then resolved.parent else resolved
  files.firstExisting? (start.ancestors.map fun directory => directory.child settingsFilename)

/-- The settings for a path. -/
def settings (path : String) : ExceptT Obstacle m Settings := do
  match ← files.settingsPath? path with
  | none => return {}
  | some settingsPath =>
    match Settings.read (← files.readText settingsPath.toString) with
    | .ok settings => return settings
    | .error cause => throw (.badSettings cause)

end FileSystem

end PklSyntax
