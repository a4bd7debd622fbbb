import PklSyntax.Number.Binary64

/-!
# Numbers from their digits

The values of digits and of decimals as they are written in source texts, where underscores may
stand between digits.

## Main definitions

* `digitsValue`: the value of digits in a base up to sixteen.
* `decimalDigitLimit`: the number of digits beyond which an integer is not worked out.
* `Binary64.ofDecimalText`: the number nearest to a decimal with point and exponent.
* `Binary64.negate`, `Binary64.isZero`, `Binary64.ceiling?`.
-/

namespace PklSyntax

/-- A digit in base sixteen, in either case. -/
def isHexDigit (c : Char) : Bool := c.isDigit || ('a' ≤ c && c ≤ 'f') || ('A' ≤ c && c ≤ 'F')

/-- The value of a digit in any base up to sixteen. -/
def digitValue (c : Char) : Nat :=
  if c.isDigit then c.toNat - '0'.toNat
  else if 'a' ≤ c && c ≤ 'f' then c.toNat - 'a'.toNat + 10
  else c.toNat - 'A'.toNat + 10

/-- The value of a list of digits. -/
def digitsValue (radix : Nat) (digits : List Char) : Nat :=
  digits.foldl (fun value c => value * radix + digitValue c) 0

/-- The greatest number of digits of an integer in base ten that is worked out. In the other bases
the digits stand for groups of bits, and there is no limit. -/
def decimalDigitLimit : Nat := 4300

/-- The characters of a number without its underscores. -/
def withoutUnderscores (text : String) : List Char := text.toList.filter (· != '_')

/-- The exponent that is written behind its letter. -/
def exponentValue : List Char → Int
  | '-' :: digits => -(digitsValue 10 digits : Int)
  | '+' :: digits => digitsValue 10 digits
  | digits => digitsValue 10 digits

namespace Binary64

/-- The number nearest to a decimal: digits, perhaps a point with digits, and perhaps a letter with
an exponent. -/
def ofDecimalText (text : String) : Binary64 :=
  let chars := withoutUnderscores text
  let integer := chars.takeWhile Char.isDigit
  let (fraction, rest) := match chars.dropWhile Char.isDigit with
    | '.' :: rest => (rest.takeWhile Char.isDigit, rest.dropWhile Char.isDigit)
    | rest => ([], rest)
  let exponent := exponentValue (rest.drop 1)
  ofDecimal (digitsValue 10 (integer ++ fraction)) (exponent - fraction.length)

/-- The bit that makes a number negative. -/
def signBit : Nat := 1 <<< 63

/-- The number with its sign changed; the number has to be without one. -/
def negate (x : Binary64) : Binary64 := ⟨x.bits + signBit⟩

/-- The number is zero, of either sign. -/
def isZero (x : Binary64) : Bool := x.bits % signBit == 0

/-- The least integer that is not below the number, if there is one. All negative numbers are
taken for zero. -/
def ceiling? (x : Binary64) : Option Nat :=
  if signBit ≤ x.bits then some 0
  else if infinity.bits ≤ x.bits then none
  else
    let exponent := x.bits / leadingBit
    let mantissa := x.bits % leadingBit + if exponent = 0 then 0 else leadingBit
    let (num, den) := scale mantissa 1 (1075 - max exponent 1)
    some ((num + den - 1) / den)

end Binary64

end PklSyntax
