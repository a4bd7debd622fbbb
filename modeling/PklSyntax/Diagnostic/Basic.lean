import PklSyntax.Source.Span

/-!
# Diagnostics

A diagnostic says what is wrong with a text and points at the places that show it. It is plain
data: which problems there are and how each is worded is the matter of
`PklSyntax.Diagnostic.Problem`, how a diagnostic is shown that of `PklSyntax.Diagnostic.Render`.

## Main definitions

* `Severity`, `Label`, `Suggestion`, `Diagnostic`.
* `Diagnostic.span?`: the span of the first primary label.
* `Diagnostic.raise?`: the one message that stands for the errors of a list of diagnostics.
-/

namespace PklSyntax

/-- How grave a diagnostic is. -/
inductive Severity where
  | error
  | warning
  | note
  deriving Repr, DecidableEq, Inhabited

/-- The word for a severity. -/
def Severity.name : Severity → String
  | .error => "error"
  | .warning => "warning"
  | .note => "note"

/-- A primary label marks the place of a problem, a secondary one a place that explains it. -/
inductive LabelStyle where
  | primary
  | secondary
  deriving Repr, DecidableEq, Inhabited

/-- A place in the text, with what is to be said about it. -/
structure Label where
  span : Span
  message : String
  style : LabelStyle := .primary
  deriving Repr, DecidableEq, Inhabited

namespace Label

/-- The label marks the place of the problem. -/
def isPrimary (label : Label) : Bool := label.style == .primary

end Label

/-- A text that could stand in place of the marked one. -/
structure Suggestion where
  message : String
  replacement : String
  deriving Repr, DecidableEq, Inhabited

/-- A message about a text, with the places it concerns. -/
structure Diagnostic where
  severity : Severity
  code : String
  message : String
  labels : List Label := []
  suggestions : List Suggestion := []
  notes : List String := []
  expected : Option String := none
  deriving Repr, DecidableEq, Inhabited

namespace Diagnostic

/-- The span of the first primary label. -/
def span? (d : Diagnostic) : Option Span :=
  (d.labels.find? Label.isPrimary).map Label.span

/-- The offset by which diagnostics are ordered: where the first primary label begins. -/
def offset (d : Diagnostic) : Int :=
  match d.span? with
  | some span => span.start
  | none => 0

/-- The diagnostic is an error. -/
def isError (d : Diagnostic) : Bool := d.severity == .error

/-- The number of errors among the diagnostics. -/
def errorCount (ds : List Diagnostic) : Nat := ds.countP isError

/-- The message that stands for all errors of the list, when there is any. -/
def raise? (ds : List Diagnostic) : Option String :=
  match ds.filter isError with
  | [] => none
  | errors =>
    some (toString errors.length ++ " error(s): " ++ "; ".intercalate (errors.map message))

end Diagnostic

end PklSyntax
