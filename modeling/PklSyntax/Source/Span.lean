/-!
# Spans

A span is a range of code-point offsets into a text, from `start` up to but excluding `stop`.
Offsets are integers and a span need not lie inside any text, nor end after it begins: whoever
reads a text through a span clamps it first. The spans that the parser makes are all proper.

## Main definitions

* `Span`, `Span.cover`: the least span around two spans.
* `Span.length?`: the number of offsets in a span that is not inverted.
* `Span.lastOffset`: the offset of the last character, or the start of an empty span.
-/

namespace PklSyntax

/-- The offsets from `start` up to but excluding `stop`. -/
structure Span where
  start : Int
  stop : Int
  deriving Repr, DecidableEq, Inhabited

namespace Span

/-- The span of the offsets from `start` up to but excluding `stop`. -/
def ofNat (start stop : Nat) : Span := ⟨start, stop⟩

/-- The least span around two spans. -/
def cover (a b : Span) : Span := ⟨min a.start b.start, max a.stop b.stop⟩

/-- The number of offsets in the span; none when it is inverted. -/
def length? (s : Span) : Option Nat :=
  if s.start ≤ s.stop then some (s.stop - s.start).toNat else none

/-- The offset of the last character of the span, or its start when it is empty. -/
def lastOffset (s : Span) : Int := max s.start (s.stop - 1)

/-- The two offsets with two points between them. -/
def render (s : Span) : String := toString s.start ++ ".." ++ toString s.stop

end Span

end PklSyntax
