import PklSyntax.Tree.Token
import PklSyntax.Number.Decimal

/-!
# The values of number literals

## Main definitions

* `IntLiteral.value?`: the value of an integer, unless it has no digits or too many decimal ones.
* `FloatLiteral.value`: the binary64 number nearest to a float.
-/

namespace PklSyntax

namespace IntLiteral

/-- The value of the integer; none when it has no digits, or too many decimal ones. -/
def value? (i : IntLiteral) : Option Nat :=
  let digits := withoutUnderscores i.digits
  if digits.isEmpty ∨ i.base = .decimal ∧ decimalDigitLimit < digits.length then none
  else some (digitsValue i.base.radix digits)

end IntLiteral

namespace FloatLiteral

/-- The binary64 number nearest to the float. -/
def value (f : FloatLiteral) : Binary64 :=
  if f.text == "NaN" then .nan
  else if f.text == "Infinity" then .infinity
  else .ofDecimalText f.text

end FloatLiteral

end PklSyntax
