import PklSyntax.Text.Classes

/-!
# Searching a text

Questions about a text at an offset. A text is an array of characters, and an offset is a natural
number that may lie past the end, where there is nothing to be found.

## Main definitions

* `charAt`: the character at an offset, NUL past the end.
* `matchesAt`: whether a word stands at an offset.
* `skipWhile`: the first offset from a given one at which a property of characters fails.
* `findFrom?`: the first offset from a given one at which a word stands.
* `sliceOf`: the text between two offsets.
* `hasLineFeed`: whether a line feed lies between two offsets.

## Main statements

* `le_skipWhile`, `skipWhile_le_size`: where `skipWhile` stops.
-/

namespace PklSyntax

/-- The character at an offset; NUL past the end. -/
def charAt (text : Array Char) (i : Nat) : Char := text.getD i '\x00'

/-- The characters of `word` stand in the text from offset `i` on. -/
def charsMatchAt (text : Array Char) (i : Nat) : List Char → Bool
  | [] => true
  | c :: rest => text[i]? == some c && charsMatchAt text (i + 1) rest

/-- The word stands in the text at offset `i`. -/
def matchesAt (text : Array Char) (word : String) (i : Nat) : Bool :=
  charsMatchAt text i word.toList

/-- The first offset from `i` on at which there is no character with the property. -/
def skipWhile (text : Array Char) (p : Char → Bool) (i : Nat) : Nat :=
  if h : i < text.size then
    if p text[i] then skipWhile text p (i + 1) else i
  else i
termination_by text.size - i

/-- The first offset from `i` on at which the word stands. -/
def findFrom? (text : Array Char) (word : String) (i : Nat) : Option Nat :=
  if matchesAt text word i then some i
  else if i < text.size then findFrom? text word (i + 1)
  else none
termination_by text.size - i

/-- The text from `start` up to `stop`, as far as there is any. -/
def sliceOf (text : Array Char) (start stop : Nat) : String :=
  String.ofList (text.extract start stop).toList

/-- A line feed lies between the two offsets. -/
def hasLineFeed (text : Array Char) (start stop : Nat) : Bool :=
  (text.extract start stop).contains '\n'

theorem le_skipWhile (text : Array Char) (p : Char → Bool) (i : Nat) : i ≤ skipWhile text p i := by
  fun_induction skipWhile text p i with
  | case1 i _ _ ih => omega
  | case2 => exact Nat.le_refl _
  | case3 => exact Nat.le_refl _

theorem skipWhile_le_size (text : Array Char) (p : Char → Bool) {i : Nat} (h : i ≤ text.size) :
    skipWhile text p i ≤ text.size := by
  fun_induction skipWhile text p i with
  | case1 i hi _ ih => exact ih hi
  | case2 => exact h
  | case3 => exact h

end PklSyntax
