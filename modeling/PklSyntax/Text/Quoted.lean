import PklSyntax.Text.Printable

/-!
# Quoted text

A text is shown between single quotes, or between double quotes when it holds a single quote and
no double quote. The quote in use and the backslash are escaped, line feed, carriage return and
tab have escapes of their own, and any other character that is not printable is given by its code
point in the shortest of the forms `\xhh`, `\uhhhh` and `\Uhhhhhhhh`.

## Main definitions

* `hexDigits`: a number in hexadecimal digits, padded with zeros.
* `quoteFor`: the quote in which a text is shown.
* `quoted`: the quoted text.
-/

namespace PklSyntax

/-- The number `n` in lower-case hexadecimal digits, with zeros in front up to `width`. -/
def hexDigits (width n : Nat) : String :=
  let digits := Nat.toDigits 16 n
  String.ofList (List.replicate (width - digits.length) '0' ++ digits)

/-- The quote in which a text is shown: the double quote when only the single quote occurs. -/
def quoteFor (text : List Char) : Char :=
  if text.contains '\'' && !text.contains '"' then '"' else '\''

/-- The form of one character between the quotes `quote`. -/
def escapeIn (quote c : Char) : String :=
  if c = quote || c = '\\' then String.ofList ['\\', c]
  else if c = '\n' then "\\n"
  else if c = '\r' then "\\r"
  else if c = '\t' then "\\t"
  else if CharSet.printable.contains c then String.singleton c
  else if c.toNat < 0x100 then "\\x" ++ hexDigits 2 c.toNat
  else if c.toNat < 0x10000 then "\\u" ++ hexDigits 4 c.toNat
  else "\\U" ++ hexDigits 8 c.toNat

/-- The text between quotes, with what needs an escape escaped. -/
def quoted (text : String) : String :=
  let quote := quoteFor text.toList
  String.singleton quote ++ String.join (text.toList.map (escapeIn quote)) ++
    String.singleton quote

end PklSyntax
