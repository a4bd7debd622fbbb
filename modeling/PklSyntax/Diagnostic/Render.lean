import PklSyntax.Diagnostic.Basic
import PklSyntax.Source.SourceText
import PklSyntax.Text.Terminal

/-!
# Rendering of diagnostics

A diagnostic is shown as its headline, a locator that names the place of its first label, a snippet
for every label, and its notes and suggestions:

    error[E100]: unterminated string literal
     --> app.pkl:3:8
      |
    3 | name = "web
      |        ^ string starts here
      = note: ...

Primary labels come first and are underlined with carets, secondary ones with hyphens. A label
that reaches over several lines shows the first and the last of them without an underline. Line
numbers stand right-aligned in a gutter that is as wide as the greatest of them.

## Main definitions

* `Diagnostic.orderedLabels`: the labels, primary ones first.
* `Diagnostic.gutterWidth`: the width of the line numbers.
* `Label.snippet`: the lines that show one label.
* `Diagnostic.render`: the whole text, with colours or without.
-/

namespace PklSyntax

/-- The colour of a severity. -/
def Severity.style : Severity → Style
  | .error => .red
  | .warning => .yellow
  | .note => .cyan

/-- As many copies of a character. -/
def repeatChar (c : Char) (n : Nat) : String := String.ofList (List.replicate n c)

/-- The number in decimal digits, right-aligned in a field of the given width. -/
def alignRight (width n : Nat) : String :=
  let digits := toString n
  repeatChar ' ' (width - digits.length) ++ digits

/-- The empty gutter with its bar. -/
def gutterBar (color : Bool) (width : Nat) : String :=
  repeatChar ' ' (width + 1) ++ Style.blue.paint color ++ "|" ++ Style.plain.paint color

/-- A display line behind its number. -/
def numberedLine (color : Bool) (source : SourceText) (width line : Nat) : String :=
  Style.blue.paint color ++ alignRight width line ++ " |" ++ Style.plain.paint color ++ " " ++
    source.displayLine line

namespace Label

/-- The position of the last character under the label. -/
def lastPosition (label : Label) (source : SourceText) : Position :=
  source.position label.span.lastOffset

/-- The style in which a label of a diagnostic with the given severity is drawn. -/
def markStyle (severity : Severity) (label : Label) : Style :=
  if label.isPrimary then severity.style else .blue

/-- The mark under the columns of a label within one line. -/
def underline (label : Label) (first last : Nat) : String :=
  repeatChar (if label.isPrimary then '^' else '-') (max 1 (last + 1 - first))

/-- The lines that show the label. -/
def snippet (color : Bool) (source : SourceText) (severity : Severity) (width : Nat)
    (label : Label) : List String :=
  let first := source.position label.span.start
  let last := label.lastPosition source
  let bar := gutterBar color width
  let mark := (label.markStyle severity).paint color
  let plain := Style.plain.paint color
  let opening := numberedLine color source width first.line
  if first.line = last.line then
    let text := if label.message.isEmpty then "" else " " ++ label.message
    [opening, bar ++ " " ++ repeatChar ' ' (first.column - 1) ++ mark ++
      label.underline first.column last.column ++ text ++ plain]
  else
    let closing := numberedLine color source width last.line
    let remark :=
      if label.message.isEmpty then [] else [bar ++ " " ++ mark ++ label.message ++ plain]
    opening :: closing :: remark

end Label

namespace Diagnostic

/-- The labels in the order in which they are shown: primary ones first. -/
def orderedLabels (d : Diagnostic) : List Label :=
  d.labels.filter Label.isPrimary ++ d.labels.filter (! Label.isPrimary ·)

/-- The number of digits of the greatest line number that is shown. -/
def gutterWidth (source : SourceText) (labels : List Label) : Nat :=
  let last := (labels.map fun label => (label.lastPosition source).line).foldl max 0
  (toString (if labels.isEmpty then 1 else last)).length

/-- The first line: severity, code and message. -/
def headline (color : Bool) (d : Diagnostic) : String :=
  d.severity.style.paint color ++ d.severity.name ++ "[" ++ d.code ++ "]" ++
    Style.plain.paint color ++ Style.bold.paint color ++ ": " ++ d.message ++
    Style.plain.paint color

/-- The line that names the place of the first label. -/
def locator (color : Bool) (source : SourceText) (width : Nat) (label : Label) : String :=
  let place := source.position label.span.start
  repeatChar ' ' width ++ Style.blue.paint color ++ "-->" ++ Style.plain.paint color ++ " " ++
    source.filename ++ ":" ++ toString place.line ++ ":" ++ toString place.column

/-- A line below the snippets, such as a note. -/
def footnote (color : Bool) (width : Nat) (kind text : String) : String :=
  repeatChar ' ' (width + 1) ++ Style.blue.paint color ++ "=" ++ Style.plain.paint color ++ " " ++
    kind ++ ": " ++ text

/-- The lines that locate and show the labels. -/
def labelLines (color : Bool) (source : SourceText) (d : Diagnostic) (width : Nat) :
    List String :=
  match d.orderedLabels with
  | [] => []
  | label :: rest =>
    locator color source width label :: gutterBar color width ::
      (label :: rest).flatMap (Label.snippet color source d.severity width)

/-- The lines of the rendered diagnostic. -/
def renderLines (color : Bool) (source : SourceText) (d : Diagnostic) : List String :=
  let width := gutterWidth source d.labels
  headline color d :: d.labelLines color source width ++
    d.notes.map (footnote color width "note") ++
    d.suggestions.map fun suggestion => footnote color width "try" suggestion.replacement

/-- The diagnostic as it is shown, with colours or without. -/
def render (color : Bool) (source : SourceText) (d : Diagnostic) : String :=
  "\n".intercalate (d.renderLines color source)

end Diagnostic

end PklSyntax
