import PklSyntax.Text.Letters
import PklSyntax.Text.Numerals

/-!
# Character classes

The classes that decide where a token begins and ends. Below code point 128 each class is given by
a formula, above it by a table, so that the common case needs no search and closed questions about
keywords and operators are settled by evaluation.

## Main definitions

* `isLetter`, `isNumeral`, `isDigitLike`, `isWordPart`: letters, characters with a numeric value,
  digits in the wide sense, and letters or numerals.
* `isBlank`: white space of all scripts.
* `startsName`, `continuesName`: the first and the further characters of a name.
* `isIndent`: the space and the tab.
-/

namespace PklSyntax

/-- A letter of any script. -/
def isLetter (c : Char) : Bool :=
  if c.toNat < 128 then c.isAlpha else CharSet.letters.contains c

/-- A character with a numeric value. -/
def isNumeral (c : Char) : Bool :=
  if c.toNat < 128 then c.isDigit else CharSet.numerals.contains c

/-- A digit in the wide sense: decimal digits of all scripts, and digits in superscript, in a
circle and the like. Only `0` to `9` occur in a number literal, but any of these begins one. -/
def isDigitLike (c : Char) : Bool :=
  if c.toNat < 128 then c.isDigit else CharSet.digits.contains c

/-- A letter or a numeral. -/
def isWordPart (c : Char) : Bool :=
  isLetter c || isNumeral c

/-- White space of all scripts: the separators, the bidirectional classes of white space and the
control characters among them. -/
def isBlank (c : Char) : Bool :=
  let n := c.toNat
  (9 ≤ n && n ≤ 13) || (28 ≤ n && n ≤ 32) || n == 0x85 || n == 0xA0 || n == 0x1680 ||
    (0x2000 ≤ n && n ≤ 0x200A) || n == 0x2028 || n == 0x2029 || n == 0x202F || n == 0x205F ||
    n == 0x3000

/-- A character that begins a plain name. -/
def startsName (c : Char) : Bool :=
  isLetter c || c == '_' || c == '$'

/-- A character that continues a plain name. -/
def continuesName (c : Char) : Bool :=
  isWordPart c || c == '_' || c == '$'

/-- The space and the tab, the blanks that indent a line. -/
def isIndent (c : Char) : Bool :=
  c == ' ' || c == '\t'

theorem continuesName_of_startsName {c : Char} (h : startsName c = true) :
    continuesName c = true := by
  simp only [startsName, continuesName, isWordPart, Bool.or_eq_true] at h ⊢
  rcases h with (h | h) | h <;> simp [h]

end PklSyntax
