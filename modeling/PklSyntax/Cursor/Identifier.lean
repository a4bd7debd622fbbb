import PklSyntax.Cursor.Basic

/-!
# Identifiers

A plain identifier begins with a letter, `_` or `$` and goes on with letters, numerals, `_` and
`$`. Any text within one line can be an identifier between backticks.

## Main definitions

* `IdentifierKind.ofName`: the form of an identifier without backticks.
* `Parser.atIdentifier`: whether an identifier begins at the cursor.
* `Parser.identifier?`: the identifier at the cursor, if one begins there.
-/

namespace PklSyntax

/-- The mark on either side of an identifier that may be any text. -/
def backtick : Char := '\x60'

/-- The form of an identifier that begins with the character `first`. -/
def IdentifierKind.ofName (first : Char) (name : String) : IdentifierKind :=
  if name == "_" then .blank
  else if first == '_' || first == '$' then .symbol
  else .plain

namespace Parser

/-- An identifier begins at the cursor. -/
def atIdentifier : Parser Bool := do
  let c ← peek
  return c == backtick || startsName c

/-- The identifier between backticks at the cursor. -/
def quotedIdentifier : Parser Identifier := do
  let text ← theText
  let start ← position
  let stop := skipWhile text (fun c => c != backtick && c != '\n') (start + 1)
  if charAt text stop == backtick then
    moveTo (stop + 1)
    return ⟨← slice (start + 1) stop, .backtick, ← spanFrom start⟩
  else failWith .unterminatedQuotedName (.ofNat start (start + 1))

/-- The identifier at the cursor, if one begins there. -/
def identifier? : Parser (Option Identifier) := do
  let first ← peek
  if first == backtick then return some (← quotedIdentifier)
  else if startsName first then
    let start ← position
    moveTo (← wordEnd)
    let name ← sliceFrom start
    return some ⟨name, .ofName first name, ← spanFrom start⟩
  else return none

end Parser

end PklSyntax
