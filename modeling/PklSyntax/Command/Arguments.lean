import PklSyntax.Command.Usage
import PklSyntax.Text.Classes
import PklSyntax.Text.Similarity

/-!
# Arguments

A command line has options of the program, a command, and options and arguments of the command.
The options of the program stand in front of the command; those of a command may stand anywhere
behind it, up to `--`. Options are understood before anything else is looked at, and asking for
help or for the version wins over all other faults.

## Main definitions

* `Request`: what is asked for.
* `Request.ofArguments`: the request that a command line makes.
-/

namespace PklSyntax

/-- What a command line asks for. The files to view are not looked at yet, so that more than one may
be given. -/
inductive Request where
  | overview
  | help (topic : Topic)
  | version
  | check (paths : List String) (color : Bool)
  | view (file : String) (others : List String) (spans color : Bool)
  | serve
  deriving Repr, DecidableEq, Inhabited

/-- The argument is an option. -/
def isOption (arg : String) : Bool := arg.startsWith "-" && arg != "-"

/-- The option that an argument is, one of those in `known`. An argument with a single dash stands
for options of one letter each. -/
def readFlag (known : List Flag) (arg : String) : Except UsageError Flag :=
  let chars := arg.toList
  let name := String.ofList (chars.takeWhile (· != '='))
  match known.find? (·.name == name) with
  | some flag => if chars.contains '=' then .error (.unexpectedValue name) else .ok flag
  | none =>
    if arg.startsWith "--" then
      .error (.unknownOption name (similarWords (known.map Flag.name) name))
    else .error (.unknownOption (String.ofList (chars.take 2)) [])

/-- The options up to the first other argument, and the arguments from there on. -/
def leadingFlags (known : List Flag) : List String → Except UsageError (List Flag × List String)
  | [] => .ok ([], [])
  | "--" :: rest => .ok ([], rest)
  | arg :: rest =>
    if isOption arg then do
      let flag ← readFlag known arg
      let (flags, others) ← leadingFlags known rest
      return (flag :: flags, others)
    else .ok ([], arg :: rest)

/-- All options, and all other arguments. -/
def sortFlags (known : List Flag) : List String → Except UsageError (List Flag × List String)
  | [] => .ok ([], [])
  | "--" :: rest => .ok ([], rest)
  | arg :: rest =>
    if isOption arg then do
      let flag ← readFlag known arg
      let (flags, others) ← sortFlags known rest
      return (flag :: flags, others)
    else do
      let (flags, others) ← sortFlags known rest
      return (flags, arg :: others)

namespace Request

/-- The request that the options of the program make by themselves. -/
def ofFlags? (flags : List Flag) : Option Request :=
  flags.head?.map fun flag => if flag == .version then .version else .help .program

/-- The request that a command makes with its options and arguments. -/
def ofCommand (command : Subcommand) (args : List String) : Except UsageError Request := do
  let (flags, others) ← sortFlags command.flags args
  let color := !flags.contains .noColor
  if flags.contains .help then return .help (.command command)
  else match command, others with
    | .check, [] => .error (.missingArgument "PATHS...")
    | .check, paths => return .check paths color
    | .view, [] => .error (.missingArgument "FILE")
    | .view, file :: others => return .view file others (flags.contains .spans) color
    | .lsp, [] => return .serve
    | .lsp, others => .error (.extraArguments others)

/-- What comes of a word that is no command. One that could be an option is understood as an
option of the program first. -/
def ofUnknown (name : String) (args : List String) : Except UsageError Request := do
  let looksLikeOption := !(name.toList.take 1).all isWordPart
  let (flags, _) ← if looksLikeOption then leadingFlags Topic.program.flags args else .ok ([], [])
  match ofFlags? flags with
  | some request => return request
  | none => .error (.unknownCommand name (similarWords (Subcommand.all.map Subcommand.name) name))

/-- The request that a command line makes. -/
def ofArguments (args : List String) : Except UsageFailure Request :=
  if args.isEmpty then .ok .overview
  else
    match leadingFlags Topic.program.flags args with
    | .error e => .error ⟨.program, e⟩
    | .ok (flags, others) =>
      match ofFlags? flags, others with
      | some request, _ => .ok request
      | none, [] => .error ⟨.program, .missingCommand⟩
      | none, name :: rest =>
        match Subcommand.ofName? name with
        | some command => (ofCommand command rest).mapError (⟨.command command, ·⟩)
        | none => (ofUnknown name (name :: rest)).mapError (⟨.program, ·⟩)

end Request

end PklSyntax
