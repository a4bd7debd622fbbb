/-!
# Rounding to binary64

A binary64 number is given by its 64 bits. Among the finite ones, the bits of a number that is not
negative are in the order of the numbers, and the number with the bits `(q + 1074) * 2 ^ 52 + m` is
`m * 2 ^ q`, where `m` has 53 bits unless `q` is the least exponent `-1074`. So a positive quotient
is rounded by finding the exponent at which its integral part has 53 bits, rounding there, and
adding: a carry into the next exponent comes out right by itself, and so does the overflow to
infinity, whose bits follow those of the greatest number.

## Main definitions

* `divideToEven`: the integer nearest to a quotient, an even one in a tie.
* `Binary64.ofQuotient`, `Binary64.ofDecimal`: the number nearest to a quotient or to a decimal.
-/

namespace PklSyntax

/-- The integer nearest to `num / den`; of two that are equally near, the even one. -/
def divideToEven (num den : Nat) : Nat :=
  let quotient := num / den
  let remainder := num % den
  if 2 * remainder < den then quotient
  else if den < 2 * remainder then quotient + 1
  else quotient + quotient % 2

/-- A number in the format binary64, by its bits. -/
structure Binary64 where
  bits : Nat
  deriving Repr, DecidableEq, Inhabited

namespace Binary64

/-- The bits of infinity, which follow those of the greatest finite number. -/
def infinity : Binary64 := ⟨0x7FF0000000000000⟩

/-- What is no number. -/
def nan : Binary64 := ⟨0x7FF8000000000000⟩

/-- Zero. -/
def zero : Binary64 := ⟨0⟩

/-- The first of the 53 bits of a mantissa. A number's bits hold the other 52, and above them the
exponent. -/
def leadingBit : Nat := 1 <<< 52

/-- The quotient `num / den` divided by `2 ^ q`. -/
def scale (num den : Nat) (q : Int) : Nat × Nat :=
  if 0 ≤ q then (num, den <<< q.toNat) else (num <<< (-q).toNat, den)

/-- The exponent of the greatest power of two that is at most `num / den`. -/
def floorLog2 (num den : Nat) : Int :=
  let k : Int := (num.log2 : Int) - den.log2
  let (n, d) := scale num den k
  if n < d then k - 1 else k

/-- The number nearest to the quotient of two positive numbers. -/
def ofQuotient (num den : Nat) : Binary64 :=
  let q := max (floorLog2 num den - 52) (-1074)
  let (n, d) := scale num den q
  let bits := (q + 1074).toNat * leadingBit + divideToEven n d
  if bits < infinity.bits then ⟨bits⟩ else infinity

/-- The number nearest to `mantissa * 10 ^ exponent`. A decimal that is far beyond the greatest
number, or far below the least, is not worked out. -/
def ofDecimal (mantissa : Nat) (exponent : Int) : Binary64 :=
  let magnitude : Int := exponent + (Nat.toDigits 10 mantissa).length
  if mantissa = 0 then zero
  else if 310 < magnitude then infinity
  else if magnitude < -330 then zero
  else if 0 ≤ exponent then ofQuotient (mantissa * Nat.pow 10 exponent.toNat) 1
  else ofQuotient mantissa (Nat.pow 10 (-exponent).toNat)

end Binary64

end PklSyntax
