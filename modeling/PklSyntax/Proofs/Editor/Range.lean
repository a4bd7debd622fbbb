import PklSyntax.Editor.Range
import PklSyntax.Proofs.Layout.Row
import PklSyntax.Proofs.Source.Position

/-!
# Ranges in the order of the text

Locations are compared by line and then by character. Offsets that follow one another have
locations that do, so how two spans lie to one another is how their ranges lie, also where a span
reaches beyond the text.

## Main definitions

* `Location.key`: locations in the order of the text.
* `Range.Within`, `Range.Before`: how two ranges lie to one another.

## Main statements

* `SourceText.key_location_mono`, `SourceText.key_location_lt`: locations stand in the order of
  their offsets.
* `Span.Within.range`, `Span.Before.range`: ranges lie as their spans do.
-/

namespace PklSyntax

/-- Lines come one after another, and in a line characters do. -/
def Location.key (p : Location) : Nat ×ₗ Nat := toLex (p.line, p.character)

namespace Range

/-- The range ends where the other begins, or before. -/
def Before (a b : Range) : Prop := a.stop.key ≤ b.start.key

/-- The range lies in the other. -/
def Within (a b : Range) : Prop := b.start.key ≤ a.start.key ∧ a.stop.key ≤ b.stop.key

/-- The range holds something, and does not end before it begins. -/
def Proper (a : Range) : Prop := a.start.key < a.stop.key

end Range

/-- Counted from zero, positions stand in the order in which they stand counted from one. -/
theorem Position.key_location_lt {p q : Position} (hline : 1 ≤ p.line) (hcolumn : 1 ≤ p.column)
    (h : p.key < q.key) : p.location.key < q.location.key := by
  rw [key, key, Prod.Lex.toLex_lt_toLex] at h
  rw [Location.key, Location.key, Prod.Lex.toLex_lt_toLex, location, location]
  dsimp only at h ⊢
  omega

namespace SourceText

variable {source : SourceText}

/-- A later offset of the text has a later location. -/
theorem key_location_lt {o o' : Nat} (hlt : o < o') (ho' : o' ≤ source.chars.size) :
    (source.position o).location.key < (source.position o').location.key := by
  have hpos := @position_eq source o
  exact Position.key_location_lt (by rw [hpos]; exact Nat.le_add_left 1 _)
    (by rw [hpos]; exact Nat.le_add_left 1 _) (key_position_lt hlt ho')

/-- An offset has the position of the offset of the text that is nearest to it. -/
theorem position_clamp (offset : Int) :
    source.position (source.clamp offset) = source.position offset := by
  rw [position_eq offset, position_eq_of_le (source.clamp_le offset)]

/-- Of two offsets, in the text or not, the greater one has no earlier location. -/
theorem key_location_mono {offset offset' : Int} (h : offset ≤ offset') :
    (source.position offset).location.key ≤ (source.position offset').location.key := by
  have hclamp : source.clamp offset ≤ source.clamp offset' := by
    rw [clamp, clamp]
    omega
  rw [← position_clamp offset, ← position_clamp offset']
  rcases Nat.lt_or_eq_of_le hclamp with hlt | heq
  · exact Std.le_of_lt (key_location_lt hlt (source.clamp_le offset'))
  · rw [heq]

end SourceText

namespace Span

variable {a b : Span}

/-- A span that lies in another has a range that does. -/
theorem Within.range (h : a.Within b) (source : SourceText) :
    (source.range a).Within (source.range b) :=
  ⟨SourceText.key_location_mono h.1, SourceText.key_location_mono h.2⟩

/-- A span in front of another has a range in front of that one's. -/
theorem Before.range (h : a.Before b) (source : SourceText) :
    (source.range a).Before (source.range b) :=
  SourceText.key_location_mono h

end Span

/-- The range of a span that holds characters of the text. -/
theorem SourceText.proper_range {source : SourceText} {span : Span} (hstart : 0 ≤ span.start)
    (hlt : span.start < span.stop) (hstop : span.stop ≤ source.chars.size) :
    (source.range span).Proper := by
  obtain ⟨i, hi⟩ := Int.eq_ofNat_of_zero_le hstart
  obtain ⟨j, hj⟩ := Int.eq_ofNat_of_zero_le (Int.le_of_lt (Int.lt_of_le_of_lt hstart hlt))
  rw [Range.Proper, range, hi, hj]
  exact key_location_lt (by omega) (by omega)

end PklSyntax
