import PklSyntax.Text.Quoted

/-!
# Usage of the program

What can be written on the command line, what is said when help is asked for, and what is said when
something else is written.

## Main definitions

* `Subcommand`, `Topic`, `Flag`.
* `Topic.help`: the text of help.
* `UsageError`, `UsageError.message`: what can be wrong, with the words that may have been meant.
* `UsageFailure.report`: the lines that are shown for it.
-/

namespace PklSyntax

/-- What the program can be asked to do. -/
inductive Subcommand where
  | check
  | lsp
  | view
  deriving Repr, DecidableEq, Inhabited

/-- What help can be about: the program, or one of its commands. -/
inductive Topic where
  | program
  | command (subcommand : Subcommand)
  deriving Repr, DecidableEq, Inhabited

/-- An option that is there or not. -/
structure Flag where
  name : String
  description : String
  deriving Repr, DecidableEq, Inhabited

namespace Flag

/-- Shows the version. -/
def version : Flag := ⟨"--version", "Show the version and exit."⟩

/-- Shows help. -/
def help : Flag := ⟨"--help", "Show this message and exit."⟩

/-- Switches colours off. -/
def noColor : Flag := ⟨"--no-color", "Disable colored diagnostics."⟩

/-- Shows spans. -/
def spans : Flag := ⟨"--spans", "Show the source span of every node."⟩

end Flag

namespace Subcommand

/-- All commands, in the order of the alphabet. -/
def all : List Subcommand := [check, lsp, view]

/-- The word for a command. -/
def name : Subcommand → String
  | check => "check"
  | lsp => "lsp"
  | view => "view"

/-- The command that is written so. -/
def ofName? (text : String) : Option Subcommand := all.find? fun command => command.name == text

/-- What a command does. -/
def summary : Subcommand → String
  | check => "Parse Pkl files and report syntax errors and warnings."
  | lsp => "Start the pklparse language server."
  | view => "View the syntax tree of a Pkl file."

/-- The word for what a command is applied to; none when it is applied to nothing. -/
def argument? : Subcommand → Option String
  | check => some "PATHS..."
  | lsp => none
  | view => some "FILE"

/-- The options of a command. -/
def flags : Subcommand → List Flag
  | check => [.noColor, .help]
  | lsp => [.help]
  | view => [.spans, .noColor, .help]

end Subcommand

/-- The name of the program. -/
def programName : String := "pklparse"

/-- What is said about the version. -/
def versionText : String := programName ++ ", version 0.1.0"

namespace Topic

/-- The words with which a topic begins on the command line. -/
def words : Topic → String
  | program => programName
  | .command c => programName ++ " " ++ c.name

/-- What stands behind these words. -/
def arguments : Topic → List String
  | program => ["[OPTIONS]", "COMMAND", "[ARGS]..."]
  | .command c => "[OPTIONS]" :: c.argument?.toList

/-- What a topic is about. -/
def summary : Topic → String
  | program => "Parse and check Pkl configuration files."
  | .command c => c.summary

/-- The options of a topic. -/
def flags : Topic → List Flag
  | program => [.version, .help]
  | .command c => c.flags

/-- The line that shows how a topic is written. -/
def usageLine (topic : Topic) : String :=
  "Usage: " ++ " ".intercalate (topic.words :: topic.arguments)

/-- The commands that belong to a topic. -/
def subcommands : Topic → List Subcommand
  | program => Subcommand.all
  | .command _ => []

/-- The lines of a table with two columns. -/
def tableLines (rows : List (String × String)) : List String :=
  let width := (rows.map fun row => row.1.length).foldl max 0
  rows.map fun (left, right) =>
    "  " ++ left ++ String.ofList (List.replicate (width - left.length) ' ') ++ "  " ++ right

/-- A part of the help with its title, unless it is empty. -/
def helpPart (title : String) (rows : List (String × String)) : List String :=
  if rows.isEmpty then [] else ["", title ++ ":"] ++ tableLines rows

/-- The help on a topic. -/
def help (topic : Topic) : String :=
  "\n".intercalate ([topic.usageLine, "", "  " ++ topic.summary] ++
    helpPart "Options" (topic.flags.map fun flag => (flag.name, flag.description)) ++
    helpPart "Commands" (topic.subcommands.map fun c => (c.name, c.summary)))

end Topic

/-- What can be wrong with a command line. `argument` is the word for what a command is applied
to; `similar` are the words that may have been meant. -/
inductive UsageError where
  | missingCommand
  | unknownCommand (name : String) (similar : List String)
  | unknownOption (name : String) (similar : List String)
  | unexpectedValue (option : String)
  | missingArgument (argument : String)
  | notFound (argument sort path : String)
  | isDirectory (argument sort path : String)
  | extraArguments (arguments : List String)
  deriving Repr, DecidableEq, Inhabited

namespace UsageError

/-- The question whether one of some words was meant. -/
def hint : List String → String
  | [] => ""
  | [word] => " Did you mean " ++ quoted word ++ "?"
  | words => " (Did you mean one of: " ++ ", ".intercalate (words.map quoted) ++ "?)"

/-- What is wrong, in words. -/
def message : UsageError → String
  | missingCommand => "Missing command."
  | unknownCommand name similar => "No such command " ++ quoted name ++ "." ++ hint similar
  | unknownOption name similar => "No such option " ++ quoted name ++ "." ++ hint similar
  | unexpectedValue option => "Option " ++ quoted option ++ " does not take a value."
  | missingArgument argument => "Missing argument '" ++ argument ++ "'."
  | notFound argument sort path =>
    "Invalid value for '" ++ argument ++ "': " ++ sort ++ " " ++ quoted path ++ " does not exist."
  | isDirectory argument sort path =>
    "Invalid value for '" ++ argument ++ "': " ++ sort ++ " " ++ quoted path ++ " is a directory."
  | extraArguments arguments =>
    "Got unexpected extra argument" ++ (if arguments.length = 1 then "" else "s") ++ " (" ++
      " ".intercalate arguments ++ ")"

/-- The error is shown with the lines that lead to help. These would not help with a value that
does not belong there. -/
def leadsToHelp : UsageError → Bool
  | unexpectedValue _ => false
  | _ => true

end UsageError

/-- What is wrong with a command line, and the topic on which help is to be had. -/
structure UsageFailure where
  topic : Topic
  error : UsageError
  deriving Repr, DecidableEq, Inhabited

namespace UsageFailure

/-- The lines that lead to help on the topic. -/
def helpLines (failure : UsageFailure) : List String :=
  [failure.topic.usageLine, "Try '" ++ failure.topic.words ++ " --help' for help.", ""]

/-- The lines that are shown for a faulty command line. -/
def report (failure : UsageFailure) : String :=
  "\n".intercalate ((if failure.error.leadsToHelp then failure.helpLines else []) ++
    ["Error: " ++ failure.error.message])

end UsageFailure

end PklSyntax
