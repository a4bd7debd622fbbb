import PklSyntax.Command.Run

/-!
# The program

The command line over the files of the machine. Everything that is decided is decided in
`PklSyntax.Command.Run`; this module reads files and prints.

## Main definitions

* `localFiles`: the files of the machine.
* `main`: the program.
-/

namespace PklSyntax

/-- The files of the machine. What cannot be reached counts as missing. -/
def localFiles : FileSystem IO where
  status text := do
    try
      let path ← IO.FS.realPath text
      if ← path.isDir then return .ok .directory
      else if ← path.pathExists then return .ok .file
      else return .error .missing
    catch _ => return .error .missing
  resolve text := return Path.ofString (← IO.FS.realPath text).toString
  names text := do
    let entries ← (← IO.FS.realPath text).readDir
    return entries.toList.map fun entry => entry.fileName
  contents text := IO.FS.readBinFile text

end PklSyntax

open PklSyntax in
/-- Runs the program with its arguments. Styles are kept where the errors go to a terminal. -/
def main (args : List String) : IO UInt32 := do
  let errors ← IO.getStderr
  let env : Environment IO := ⟨localFiles, ← errors.isTty⟩
  let outcome ← env.run args
  IO.print outcome.printed.output
  IO.eprint outcome.printed.errors
  if let some obstacle := outcome.obstacle then
    IO.eprintln (programName ++ ": " ++ obstacle.message)
  return outcome.exitCode.toUInt32
