import PklSyntax.Literal.Number
import PklSyntax.Literal.Value
import PklSyntax.Tree.Basic

/-!
# String literals

A string stands between single or triple double quotes with the same number of `#`, perhaps none,
on either side. A backslash with that many `#` behind it introduces an escape: one of five short
forms, a code point in hexadecimal digits between braces, or an expression in parentheses, which
is interpolated. Without as many `#`, backslashes and quotes are text.

A string between single quotes lies within one line. A string between triple quotes ends at triple
quotes that stand first on a line, behind blanks at most.

The expression of an interpolation is read by a parser that the caller gives: it begins in loose
mode and is to stop in front of the closing parenthesis.

## Main definitions

* `shortEscape?`, `scalar?`: the character for a short escape, and for a code point.
* `Parser.atString`, `Parser.stringLiteral`.
-/

namespace PklSyntax

/-- The character for the letter of a short escape. -/
def shortEscape? (c : Char) : Option Char :=
  if c == 't' then some '\t'
  else if c == 'n' then some '\n'
  else if c == 'r' then some '\r'
  else if c == '"' then some '"'
  else if c == '\\' then some '\\'
  else none

/-- The character with the code point, unless it is a surrogate or too great. -/
def scalar? (n : Nat) : Option Char :=
  if h : n.isValidChar then some (Char.ofNatAux n h) else none

/-- The quotes of a string: how it was opened, and where. -/
structure Quotes where
  multiline : Bool
  pounds : Nat
  opening : Span

/-- What has been read of the body of a string: the finished segments, and the offset at which the
text begins that belongs to none of them. -/
structure StringBody where
  segments : Array Segment
  textStart : Nat

namespace Parser

/-- A string begins at the cursor. -/
def atString : Parser Bool := do
  let text ← theText
  return matchesAt text "\"" (skipWhile text (· == '#') (← position))

/-- Exactly as many `#` as around the string stand at offset `i`; without any, what stands there
does not matter. -/
def poundsAt (quotes : Quotes) (i : Nat) : Parser Bool := do
  return quotes.pounds == 0 || skipWhile (← theText) (· == '#') i - i == quotes.pounds

/-- The body with the text up to the cursor as a segment, if there is any. -/
def flush (body : StringBody) : Parser StringBody := do
  let pos ← position
  if body.textStart < pos then
    let text ← sliceFrom body.textStart
    return ⟨body.segments.push (.text text (.ofNat body.textStart pos)), pos⟩
  else return { body with textStart := pos }

/-- The code point between braces of an escape that began at `start`. -/
def unicodeEscape (quotes : Quotes) (start : Nat) : Parser Char := do
  if (← peek) != '\x7b' then
    failWith (.missingUnicodeBrace quotes.opening) (.ofNat start ((← position) + 1))
  advance 1
  let first ← position
  moveTo (skipWhile (← theText) isHexDigit first)
  let digits := (← sliceFrom first).toList
  if (← peek) != '\x7d' || digits.isEmpty || 6 < digits.length then
    failWith (.wrongUnicodeDigits quotes.opening) (.ofNat start ((← position) + 1))
  advance 1
  let value := digitsValue 16 digits
  match scalar? value with
  | some c => return c
  | none => failWith (.invalidScalar value quotes.opening) (← spanFrom start)

/-- The expression of an interpolation, behind its opening parenthesis. -/
def interpolation (interpolate : Parser Expr) : Parser Expr :=
  inMode .loose do
    skip
    let expr ← interpolate
    skip
    if (← peek) != ')' then
      let pos ← position
      failWith .unclosedInterpolation (.ofNat pos (pos + 1))
    advance 1
    return expr

/-- The escape whose backslash is at the cursor. -/
def escapeSequence (quotes : Quotes) (interpolate : Parser Expr) : Parser Segment := do
  let start ← position
  advance (1 + quotes.pounds)
  let c ← peek
  match shortEscape? c with
  | some value =>
    advance 1
    return .escape value (← spanFrom start)
  | none =>
    if c == 'u' then
      advance 1
      let value ← unicodeEscape quotes start
      return .escape value (← spanFrom start)
    else if c == '(' then
      advance 1
      let expr ← interpolation interpolate
      return .interpolation expr (← spanFrom start)
    else
      let pos ← position
      failWith (.invalidEscape (← slice start (pos + 1)) quotes.opening) (.ofNat start (pos + 1))

/-- The finished string whose content ends at `contentStop`. -/
def finishString (quotes : Quotes) (contentStart contentStop : Nat) (segments : Array Segment)
    (indent : Option String) : Parser StringLiteral := do
  return {
    multiline := quotes.multiline
    pounds := quotes.pounds
    segments := segments.toList
    contentSpan := .ofNat contentStart contentStop
    indent
    span := ⟨quotes.opening.start, ← position⟩ }

/-- The closing quotes at the beginning of a line, behind blanks: where they begin, if they are
there. -/
def closingLine? (quotes : Quotes) : Parser (Option Nat) := do
  let text ← theText
  let pos ← position
  let probe := skipWhile text isIndent pos
  if quotes.multiline && 0 < pos && charAt text (pos - 1) == '\n' then
    if matchesAt text "\"\"\"" probe && (← poundsAt quotes (probe + 3)) then return some probe
    else return none
  else return none

/-- One step through the body of a string: to its end, over an escape, or over one character. -/
def stringStep (quotes : Quotes) (contentStart : Nat) (interpolate : Parser Expr)
    (body : StringBody) : Parser (Round StringBody StringLiteral) := do
  match ← closingLine? quotes with
  | some probe =>
    let pos ← position
    let body ← flush body
    let indent ← slice pos probe
    moveTo (probe + 3 + quotes.pounds)
    return .done (← finishString quotes contentStart pos body.segments (some indent))
  | none =>
    let pos ← position
    let c ← peek
    if (← atEnd) || (!quotes.multiline && c == '\n') then
      failWith .unterminatedString quotes.opening
    else if c == '"' && !quotes.multiline && (← poundsAt quotes (pos + 1)) then
      let body ← flush body
      advance (1 + quotes.pounds)
      return .done (← finishString quotes contentStart pos body.segments none)
    else if c == '\\' && (← poundsAt quotes (pos + 1)) then
      let body ← flush body
      let segment ← escapeSequence quotes interpolate
      return .next ⟨body.segments.push segment, ← position⟩
    else
      advance 1
      return .next body

/-- Moves the cursor behind the line break that follows opening triple quotes, or warns that there
is none. -/
def openingLine (opening : Span) (styleWarnings : Bool) : Parser Unit := do
  let text ← theText
  let probe := skipWhile text isIndent (← position)
  if matchesAt text "\r\n" probe then moveTo (probe + 2)
  else if matchesAt text "\n" probe then moveTo (probe + 1)
  else if styleWarnings then report .contentOnOpeningLine opening

/-- The string at the cursor, with a warning about its style or without. -/
def stringLiteral (interpolate : Parser Expr) (styleWarnings : Bool) : Parser StringLiteral :=
  inMode .tight do
    let start ← position
    let quote := skipWhile (← theText) (· == '#') start
    moveTo quote
    let multiline ← startsWith "\"\"\""
    advance (if multiline then 3 else 1)
    let quotes : Quotes := ⟨multiline, quote - start, ← spanFrom start⟩
    if multiline then openingLine quotes.opening styleWarnings
    let contentStart ← position
    repeating (stringStep quotes contentStart interpolate) ⟨#[], contentStart⟩

end Parser

end PklSyntax
