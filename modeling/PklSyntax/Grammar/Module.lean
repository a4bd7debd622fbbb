import PklSyntax.Grammar.Header
import PklSyntax.Grammar.Nesting
import PklSyntax.Source.SourceText

/-!
# Modules

A module is read declaration by declaration. One that fails is left out, and reading goes on at
the next line that can begin a declaration; so every text has a tree. Problems are reported beside
the tree, in the order of the text.

## Main definitions

* `declarationRestart`: where reading goes on after a failure.
* `Parser.declarations`: the declarations up to the end, or up to the limit on errors.
* `ParseResult`, `SourceText.parse`, `parse`: the tree of a text with what is wrong with it.
-/

namespace PklSyntax

/-- The declarations read so far, with what is known of the header. -/
structure Progress where
  declarations : Array Declaration := #[]
  header : Header := {}

/-- The characters that do not begin a declaration at the start of a line. -/
def continuationChars : List Char := " \t\r\n\x7d)]".toList

/-- The first offset from `i` on that begins a line with a character that may begin a
declaration. -/
def declarationRestart (text : Array Char) (i : Nat) : Nat :=
  if h : i < text.size then
    if charAt text (i - 1) == '\n' && !continuationChars.contains text[i] then i
    else declarationRestart text (i + 1)
  else i
termination_by text.size - i

namespace Parser

/-- How a parser ends. -/
def outcome {α : Type} (p : Parser α) : Parser (Except Stop α) := fun context s =>
  match p context s with
  | .ok a s => .ok (.ok a) s
  | .error stop s => .ok (.error stop) s

/-- Moves to where declarations go on after the one that began at `start` was given up. -/
def skipDeclaration (start : Nat) : Parser Unit := do
  if (← position) ≤ start then advance 1
  moveTo (declarationRestart (← theText) (← position))

/-- Drops all diagnostics but the first `count`. -/
def keepDiagnostics (count : Nat) : Parser Unit :=
  modify fun s => { s with diagnostics := s.diagnostics.take count }

/-- One more declaration. When it fails, nothing that it took stays taken; when it is nested too
deeply, this is all that is reported of it. -/
def nextDeclaration (progress : Progress) : Parser Progress := do
  let start ← position
  let before ← mark
  match ← outcome Grammar.full.declarationRule with
  | .ok decl =>
    (progress.header.problems decl).forM fun problem => report problem decl.span
    return ⟨progress.declarations.push decl, progress.header.add decl⟩
  | .error .stalled => throw .stalled
  | .error stop =>
    release before.attached
    if stop = .tooDeep then
      keepDiagnostics before.diagnosticCount
      report .nestingTooDeep (.ofNat start (start + 1))
    skipDeclaration start
    return progress

/-- The declarations up to the end of the text, or until there are errors enough. -/
def declarations : Parser (List Declaration) := do
  let progress ← repeating (fun (progress : Progress) => do
    skip
    if (← atEnd) || (← limitReached) then return .done progress
    else return .next (← nextDeclaration progress)) {}
  return progress.declarations.toList

/-- Warns of doc comments that no declaration has taken. -/
def reportOrphans : Parser Unit := do
  if (← theOptions).docCommentWarnings then
    (← get).orphans.forM fun doc => report .orphanedDocComment doc.span

/-- All declarations of a text, with the warnings that only its end brings. -/
def moduleDeclarations : Parser (List Declaration) := do
  let decls ← declarations
  reportOrphans
  return decls

end Parser

/-- The tree of a text, and what is wrong with the text. -/
structure ParseResult where
  module : Module
  diagnostics : List Diagnostic

namespace ParseResult

/-- The result has an error, and not only warnings. -/
def hasErrors (result : ParseResult) : Bool := result.diagnostics.any Diagnostic.isError

end ParseResult

/-- Diagnostics in the order of the text. Those at one place stay in the order in which they were
found. -/
def inTextOrder (ds : Array Diagnostic) : List Diagnostic :=
  ds.toList.mergeSort fun a b => a.offset ≤ b.offset

/-- The source text holds nothing but trivia. -/
def SourceText.isBlank (source : SourceText) : Bool :=
  source.chars.size ≤ (triviaFrom source.chars 0).2

/-- The result of reading the source text. -/
def SourceText.parse (source : SourceText) (options : Options) : ParseResult :=
  let result (decls : List Declaration) (s : State) : ParseResult :=
    { module := ⟨decls, source.filename, .ofNat 0 source.chars.size⟩
      diagnostics := inTextOrder s.diagnostics }
  match Parser.moduleDeclarations ⟨source.chars, options⟩ {} with
  | .ok decls s => result decls s
  | .error _ s => result [] s

/-- The result of reading a text under a name. -/
def parse (text : String) (filename : String) (options : Options) : ParseResult :=
  (SourceText.ofString text filename).parse options

/-- The result of a parse is what is read of the text, with all that is on record in the end. -/
theorem parse_of_run {text filename : String} {options : Options} {decls : List Declaration}
    {s : State} (h : Parser.moduleDeclarations ⟨text.toList.toArray, options⟩ {} = .ok decls s) :
    parse text filename options =
      { module := ⟨decls, filename, .ofNat 0 text.toList.toArray.size⟩
        diagnostics := inTextOrder s.diagnostics } := by
  rw [parse, SourceText.parse, SourceText.ofString]
  dsimp only
  rw [h]

end PklSyntax
