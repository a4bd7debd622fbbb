import PklSyntax.Source.Span
import PklSyntax.Text.Lines

/-!
# Source texts

A text with a name, read by offsets. Positions count source lines, which end at line feeds only;
the lines that are shown are display lines, of which there may be more.

## Main definitions

* `SourceText`: a text with its filename, its line starts and its display lines.
* `SourceText.position`: the line and column of an offset, both counted from one.
* `SourceText.displayLine`: a display line by its number.
* `SourceText.slice`, `SourceText.byteSpan`: the text of a span, and its place in the UTF-8 bytes
  of the text.
-/

namespace PklSyntax

/-- A line and a column, both counted from one. -/
structure Position where
  line : Nat
  column : Nat
  deriving Repr, DecidableEq, Inhabited

/-- The offsets after the line feeds of a text whose first character is at `offset`. -/
def offsetsAfterLineFeeds (offset : Nat) : List Char → List Nat
  | [] => []
  | c :: rest =>
    if c = '\n' then (offset + 1) :: offsetsAfterLineFeeds (offset + 1) rest
    else offsetsAfterLineFeeds (offset + 1) rest

/-- The offsets at which the source lines of a text begin. -/
def lineStartsOf (chars : Array Char) : List Nat :=
  0 :: offsetsAfterLineFeeds 0 chars.toList

/-- A text with the name under which it is reported. Line starts and display lines are kept with
the text, since every position asks for them. -/
structure SourceText where
  chars : Array Char
  filename : String
  lineStarts : List Nat := lineStartsOf chars
  lines : Array String := (displayLines chars.toList).toArray
  lineStarts_eq : lineStarts = lineStartsOf chars := by rfl
  lines_eq : lines = (displayLines chars.toList).toArray := by rfl

namespace SourceText

/-- The source text with the given characters and name. -/
def ofString (text filename : String) : SourceText where
  chars := text.toList.toArray
  filename := filename

instance : Inhabited SourceText := ⟨ofString "" ""⟩

/-- The offset of the text that is nearest to `offset`. -/
def clamp (s : SourceText) (offset : Int) : Nat :=
  (max 0 (min offset s.chars.size)).toNat

/-- The line and column of an offset, which is clamped to the text first. -/
def position (s : SourceText) (offset : Int) : Position :=
  let o := s.clamp offset
  let begun := s.lineStarts.takeWhile (· ≤ o)
  { line := begun.length, column := o - begun.getLastD 0 + 1 }

/-- The display line with the number `n`, counted from one; empty when there is none. -/
def displayLine (s : SourceText) (n : Int) : String :=
  if 1 ≤ n then s.lines.getD (n.toNat - 1) "" else ""

/-- The characters of a span. -/
def slice (s : SourceText) (span : Span) : List Char :=
  (s.chars.extract span.start.toNat span.stop.toNat).toList

/-- The text of a span. -/
def sliceText (s : SourceText) (span : Span) : String :=
  String.ofList (s.slice span)

/-- The place of a span's text among the UTF-8 bytes of the text. -/
def byteSpan (s : SourceText) (span : Span) : Span :=
  let before := (String.ofList (s.slice ⟨0, span.start⟩)).utf8ByteSize
  .ofNat before (before + (s.sliceText span).utf8ByteSize)

end SourceText

end PklSyntax
