import PklSyntax.Command.Arguments
import PklSyntax.Diagnostic.Render
import PklSyntax.Settings.Lookup
import PklSyntax.Text.Terminal
import PklSyntax.Tree.Listing

/-!
# Running the program

The commands over any file system. Lines go to the output, for what was asked for, and to the
errors, for what is wrong. A command can be cut short by a file that cannot be used; what was
printed before stays printed.

## Main definitions

* `Environment`, `Outcome`: what a run is given, and what comes of it.
* `Environment.check`, `Environment.view`, `Environment.run`.
-/

namespace PklSyntax

/-- What ends a command before its end. -/
inductive Interruption where
  | usage (failure : UsageFailure)
  | obstacle (obstacle : Obstacle)

/-- What has been printed. -/
structure Printed where
  output : String := ""
  errors : String := ""
  deriving Repr, DecidableEq, Inhabited

/-- What a run is given. Where styles are not kept, they are deleted from each message. -/
structure Environment (m : Type → Type) where
  files : FileSystem m
  keepStyles : Bool

/-- What comes of a run. -/
structure Outcome where
  exitCode : Nat
  printed : Printed
  obstacle : Option Obstacle := none

/-- A command in progress. -/
abbrev Action (m : Type → Type) := ExceptT Interruption (StateT Printed m)

namespace Environment

variable {m : Type → Type} [Monad m] (env : Environment m)

/-! ### Printing -/

/-- A message as it is printed. -/
def printable (text : String) : String :=
  let line := text ++ "\n"
  if env.keepStyles then line else String.ofList (stripStyles line.toList)

/-- Prints a message as output. -/
def print (text : String) : Action m Unit :=
  modify fun printed => { printed with output := printed.output ++ env.printable text }

/-- Prints a message as an error. -/
def printError (text : String) : Action m Unit :=
  modify fun printed => { printed with errors := printed.errors ++ env.printable text }

/-! ### Files -/

/-- The answer of the file system to a question. -/
def ask {α : Type} (question : FileSystem m → m α) : Action m α :=
  monadLift (monadLift (question env.files) : StateT Printed m α)

/-- Work with files, of which an obstacle cuts the command short. -/
def attempt {α : Type} (work : FileSystem m → ExceptT Obstacle m α) : Action m α := do
  match ← env.ask fun files => (work files).run with
  | .ok value => return value
  | .error obstacle => throw (.obstacle obstacle)

/-- What a path leads to. -/
def status (path : String) : Action m (Except Absence EntryKind) := do
  env.attempt fun _ => FileSystem.requireNoNul path
  env.ask fun files => files.status path

/-- The path leads to a directory. -/
def isDirectory (path : String) : Action m Bool := do
  match ← env.status path with
  | .ok .directory => return true
  | _ => return false

/-- The greatest depth to which directories are searched; no path is that long. -/
def searchDepth : Nat := 4096

/-- The paths below a directory whose names end as those of modules do. -/
def modulePaths : Nat → Path → Action m (List Path)
  | 0, _ => return []
  | depth + 1, directory => do
    let names ← env.ask fun files => files.names directory.toString
    let found ← names.mapM fun name => do
      let path := directory.child name
      let below ← if ← env.isDirectory path.toString then modulePaths depth path else pure []
      return if name.endsWith ".pkl" then path :: below else below
    return found.flatten

/-- The files that an argument stands for: a directory stands for all modules below it. -/
def filesOf (argument : String) : Action m (List Path) := do
  let path := Path.ofString argument
  if ← env.isDirectory argument then
    return (← env.modulePaths searchDepth path).mergeSort Path.precedes
  else return [path]

/-! ### Commands -/

/-- The text of a file, read under its settings and reported by a name. What is wrong with it is
printed, except for warnings where they are not to be shown. -/
def parseFile (path name : String) (color : Bool) : Action m ParseResult := do
  let settings ← env.attempt fun files => files.settings path
  let text ← env.attempt fun files => files.readText path
  let source := SourceText.ofString (String.ofList (unifyLineEndings text.toList)) name
  match settings.parse? source with
  | none => throw (.obstacle .limitIsNoNumber)
  | some result =>
    for d in result.diagnostics do
      if d.isError || settings.showWarnings.isTrue then
        env.printError (d.render (color && settings.color.isTrue) source)
    return result

/-- The last line of a check. -/
def summary (files errors warnings : Nat) : String :=
  "checked " ++ toString files ++ " file(s): " ++ toString errors ++ " error(s), " ++
    toString warnings ++ " warning(s)"

/-- Refuses a path that leads to nothing. -/
def requirePath (path : String) : Action m Unit := do
  if let .error _ ← env.status path then
    throw (.usage ⟨.command .check, .notFound "PATHS..." "Path" path⟩)

/-- Checks files, and gives the exit code. -/
def check (paths : List String) (color : Bool) : Action m Nat := do
  paths.forM env.requirePath
  let files := (← paths.mapM env.filesOf).flatten
  if files.isEmpty then
    env.printError "warning: no .pkl files found"
    return 0
  let results ← files.mapM fun file => env.parseFile file.toString file.toString color
  let diagnostics := results.flatMap ParseResult.diagnostics
  let errors := Diagnostic.errorCount diagnostics
  let line := summary files.length errors (diagnostics.length - errors)
  if errors = 0 then
    env.print line
    return 0
  else
    env.printError line
    return 1

/-- Refuses a path that does not lead to a file. -/
def requireFile (path : String) : Action m Unit := do
  match ← env.status path with
  | .ok .file => return
  | .ok .directory => throw (.usage ⟨.command .view, .isDirectory "FILE" "File" path⟩)
  | .error _ => throw (.usage ⟨.command .view, .notFound "FILE" "File" path⟩)

/-- Shows the tree of a file, and gives the exit code. -/
def view (file : String) (others : List String) (spans color : Bool) : Action m Nat := do
  env.requireFile file
  if !others.isEmpty then throw (.usage ⟨.command .view, .extraArguments others⟩)
  let result ← env.parseFile (Path.ofString file).toString file color
  ((Node.module result.module).listing spans 0).forM env.print
  return if result.hasErrors then 1 else 0

/-- Does what is asked for, and gives the exit code. The language server is not part of this
program. -/
def perform : Request → Action m Nat
  | .overview => do
    env.printError Topic.program.help
    return 2
  | .help topic => do
    env.print topic.help
    return 0
  | .version => do
    env.print versionText
    return 0
  | .check paths color => env.check paths color
  | .view file others spans color => env.view file others spans color
  | .serve => do
    env.printError "the language server is not available"
    return 1

/-- The request that a command line makes, done. -/
def action (args : List String) : Action m Nat :=
  match Request.ofArguments args with
  | .ok request => env.perform request
  | .error failure => throw (.usage failure)

/-- What comes of a command line. -/
def run (args : List String) : m Outcome := do
  let (result, printed) ← ((env.action args).run).run {}
  return match result with
    | .ok exitCode => { exitCode, printed }
    | .error (.usage failure) =>
      { exitCode := 2
        printed := { printed with
          errors := printed.errors ++ env.printable failure.report } }
    | .error (.obstacle obstacle) => { exitCode := 1, printed, obstacle := some obstacle }

end Environment

end PklSyntax
