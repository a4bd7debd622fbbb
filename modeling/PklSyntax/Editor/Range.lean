import PklSyntax.Source.SourceText
import PklSyntax.Diagnostic.Basic

/-!
# Ranges for an editor

An editor counts lines and characters from zero.

## Main definitions

* `Location`, `Range`, `SourceText.range`.
* `Notice`, `Diagnostic.notice`: a diagnostic as an editor shows it.
-/

namespace PklSyntax

/-- A line and a character of it, both counted from zero. -/
structure Location where
  line : Nat
  character : Nat
  deriving Repr, DecidableEq, Inhabited

/-- The text from one location to another. -/
structure Range where
  start : Location
  stop : Location
  deriving Repr, DecidableEq, Inhabited

/-- The position, counted from zero. -/
def Position.location (p : Position) : Location := ⟨p.line - 1, p.column - 1⟩

/-- The range of a span. -/
def SourceText.range (source : SourceText) (span : Span) : Range :=
  ⟨(source.position span.start).location, (source.position span.stop).location⟩

/-- A diagnostic as an editor shows it. -/
structure Notice where
  range : Range
  severity : Severity
  code : String
  message : String
  deriving Repr, DecidableEq, Inhabited

namespace Diagnostic

/-- The message with the code in front and the notes on lines of their own. -/
def fullMessage (d : Diagnostic) : String :=
  "[" ++ d.code ++ "] " ++ d.message ++ String.join (d.notes.map ("\nnote: " ++ ·))

/-- The notice that shows a diagnostic. One that has no place is shown at the start of the text. -/
def notice (d : Diagnostic) (source : SourceText) : Notice where
  range := (d.span?.map source.range).getD ⟨⟨0, 0⟩, ⟨0, 0⟩⟩
  severity := d.severity
  code := d.code
  message := d.fullMessage

end Diagnostic

end PklSyntax
