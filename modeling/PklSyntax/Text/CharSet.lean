/-!
# Sets of characters given by their boundaries

A Unicode property is a set of code points, and as a rule it is a few hundred long runs. Such a
set is listed here by its *boundaries*: the ascending code points at which membership changes,
beginning outside the set. A character belongs to the set when the number of boundaries at or
below it is odd, so one search by halving answers a question.

## Main definitions

* `CharSet`: a set of characters by its boundaries.
* `CharSet.rank`: how many boundaries lie at or below a code point.
* `CharSet.contains`: membership.
-/

namespace PklSyntax

/-- A set of characters, by the ascending code points at which membership changes. The first
boundary is the first member. -/
structure CharSet where
  boundaries : Array Nat
  deriving Repr

namespace CharSet

/-- The number of entries of `a` at or below `x`, for an ascending array `a` in which all entries
before `lo` are at or below `x` and all entries from `hi` on are above it. -/
def rankBetween (a : Array Nat) (x : Nat) (lo hi : Nat) : Nat :=
  if lo < hi then
    let mid := (lo + hi) / 2
    if a.getD mid 0 ≤ x then rankBetween a x (mid + 1) hi else rankBetween a x lo mid
  else lo
termination_by hi - lo

/-- The number of boundaries at or below the code point `x`. -/
def rank (s : CharSet) (x : Nat) : Nat :=
  rankBetween s.boundaries x 0 s.boundaries.size

/-- Membership: an odd number of boundaries has been passed. -/
def contains (s : CharSet) (c : Char) : Bool :=
  s.rank c.toNat % 2 == 1

end CharSet

end PklSyntax
