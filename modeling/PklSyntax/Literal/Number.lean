import PklSyntax.Number.Decimal
import PklSyntax.Cursor.Basic

/-!
# Number literals

An integer is written in decimal digits, or after `0x`, `0o` and `0b` in hexadecimal, octal and
binary ones. A float has digits behind a point, or an exponent, or both; its integer part may be
missing. `NaN` and `Infinity` are floats too. Single underscores may separate digits, and a
literal may not run on into a name.

## Main definitions

* `IntBase.isDigit`: the digits of a base.
* `misplacedUnderscore?`: the first underscore of a run that does not separate two digits.
* `Parser.atNumber`, `Parser.number`.
-/

namespace PklSyntax

namespace IntBase

/-- A digit of the base. -/
def isDigit : IntBase → Char → Bool
  | decimal, c => c.isDigit
  | hexadecimal, c => isHexDigit c
  | octal, c => '0' ≤ c && c ≤ '7'
  | binary, c => c == '0' || c == '1'

/-- The base that a letter behind a zero announces. -/
def ofLetter? (c : Char) : Option IntBase :=
  if c == 'x' || c == 'X' then some hexadecimal
  else if c == 'o' || c == 'O' then some octal
  else if c == 'b' || c == 'B' then some binary
  else none

end IntBase

/-- The first misplaced underscore among characters of which the first is at offset `i` of its run,
with its offset. -/
def misplacedUnderscoreFrom? (i : Nat) : List Char → Option (Nat × UnderscorePlace)
  | [] => none
  | '_' :: rest =>
    if i = 0 then some (i, .leading)
    else match rest with
      | [] => some (i, .trailing)
      | '_' :: _ => some (i, .doubled)
      | _ => misplacedUnderscoreFrom? (i + 1) rest
  | _ :: rest => misplacedUnderscoreFrom? (i + 1) rest

/-- The first underscore of a run of digits that does not separate two digits, with its offset in
the run. -/
def misplacedUnderscore? (run : String) : Option (Nat × UnderscorePlace) :=
  misplacedUnderscoreFrom? 0 run.toList

namespace Parser

/-- A number begins at the cursor. Any digit in the wide sense begins one, though only `0` to `9`
can go on. -/
def atNumber : Parser Bool := do
  if isDigitLike (← peek) then return true
  else if (← peek) == '.' && isDigitLike (← peekAt 1) then return true
  else if ← atWord "NaN" then return true
  else atWord "Infinity"

/-- The run of digits and underscores at the cursor. -/
def digits (base : IntBase) : Parser String := do
  let start ← position
  moveTo (skipWhile (← theText) (fun c => base.isDigit c || c == '_') start)
  let run ← sliceFrom start
  match misplacedUnderscore? run with
  | some (i, place) =>
    failWith (.misplacedUnderscore place) (.ofNat (start + i) (start + i + 1))
  | none => return run

/-- Fails when the number that began at `start` runs on into a name. -/
def endOfNumber (start : Nat) : Parser Unit := do
  if continuesName (← peek) then
    let stop ← wordEnd
    failWith (.malformedNumber (← slice start stop)) (.ofNat start stop)

/-- The number after the mark of its base. -/
def basedNumber (start : Nat) (base : IntBase) : Parser NumberLiteral := do
  let letter ← peekAt 1
  advance 2
  let first ← peek
  if !base.isDigit first && first != '_' then
    failWith (.missingDigits base letter) (← spanFrom start)
  let run ← digits base
  endOfNumber start
  return .int ⟨base, run, ← spanFrom start⟩

/-- An exponent is at the cursor: its letter, perhaps a sign, and a digit. -/
def atExponent : Parser Bool := do
  let letter ← peek
  let next ← peekAt 1
  if letter != 'e' && letter != 'E' then return false
  else if isDigitLike next then return true
  else if next == '+' || next == '-' then return isDigitLike (← peekAt 2)
  else return false

/-- The fraction at the cursor, if there is one. -/
def fraction : Parser Bool := do
  if (← peek) == '.' && isDigitLike (← peekAt 1) then
    advance 1
    let _ ← digits .decimal
    return true
  else return false

/-- The exponent at the cursor, if there is one. -/
def exponent : Parser Bool := do
  if ← atExponent then
    advance 1
    let sign ← peek
    if sign == '+' || sign == '-' then advance 1
    let _ ← digits .decimal
    return true
  else return false

/-- The number without a mark of its base. -/
def decimalNumber (start : Nat) (styleWarnings : Bool) : Parser NumberLiteral := do
  let integer ← if (← peek) == '.' then pure "" else digits .decimal
  let hasFraction ← fraction
  let hasExponent ← exponent
  endOfNumber start
  let span ← spanFrom start
  if !hasFraction && !hasExponent then return .int ⟨.decimal, integer, span⟩
  else
    let text ← sliceFrom start
    if integer.isEmpty && styleWarnings then report (.missingIntegerPart text) span
    return .float ⟨text, span⟩

/-- One of the words that stand for a float. -/
def floatWord (start : Nat) (word : String) : Parser NumberLiteral := do
  advance word.length
  return .float ⟨word, ← spanFrom start⟩

/-- The number at the cursor, with a warning about its style or without. -/
def number (styleWarnings : Bool) : Parser NumberLiteral :=
  inMode .tight do
    let start ← position
    if ← atWord "NaN" then floatWord start "NaN"
    else if ← atWord "Infinity" then floatWord start "Infinity"
    else
      match (← peek) == '0', IntBase.ofLetter? (← peekAt 1) with
      | true, some base => basedNumber start base
      | _, _ => decimalNumber start styleWarnings

end Parser

end PklSyntax
