import PklSyntax.Cursor.Documentation
import PklSyntax.Cursor.Identifier
import PklSyntax.Grammar.Keyword
import PklSyntax.Literal.String

/-!
# Tokens and names of the grammar

The productions read tokens straight off the text: a token is expected, accepted if it is there,
or asked for. All of these skip the trivia in front of it.

Expressions, types and object bodies nest in one another without bound. A production that meets
one of them inside its own text leaves it to a `Grammar`, which holds a parser for each of the
three; `PklSyntax.Grammar.Nesting` builds grammars that admit more and more nesting. So every
production is an ordinary definition, whatever it contains.

## Main definitions

* `Grammar`: parsers for what may stand inside a construct.
* `Parser.atToken`, `Parser.accept?`, `Parser.expect` and their likes for keywords.
* `Parser.failExpected`: the error that something else was expected.
* `Parser.expectName`, `Parser.qualifiedName`, `Parser.commaList`.
* `Grammar.string`, `Grammar.sourceString`.
-/

namespace PklSyntax

/-- Parsers for what may stand inside a construct. -/
structure Grammar where
  expr : Parser Expr
  type : Parser TypeExpr
  body : Parser ObjectBody

namespace Parser

/-! ### Errors at the cursor -/

/-- The character can neither begin nor continue a token. -/
def isStray (c : Char) : Bool :=
  !(isWordPart c || isBlank c || "\x7b\x7d[]()<>.,:;=+-*/%!?&|\"#@\x60_$~".toList.contains c)

/-- The span of the character at the cursor, empty at the end. -/
def here : Parser Span := do
  let pos ← position
  return .ofNat pos (if ← atEnd then pos else pos + 1)

/-- What stands at the cursor, for a message. -/
def describeCurrent : Parser String := do
  let c ← peek
  let word ← peekWord
  if ← atEnd then return "end of input"
  else if c == '\n' then return "end of line"
  else if !word.isEmpty then return "'" ++ word ++ "'"
  else return "'" ++ String.singleton c ++ "'"

/-- Fails because something else was expected at the cursor. -/
def failExpected {α : Type} (what : String) : Parser α := do
  let c ← peek
  if !(← atEnd) && isStray c then failWith (.strayCharacter c what) (← here)
  else failWith (.unexpected what (← describeCurrent)) (← here)

/-! ### Tokens -/

/-- The token stands behind the trivia at the cursor. -/
def atToken (token : String) : Parser Bool := do
  skip
  startsWith token

/-- The keyword stands behind the trivia at the cursor. -/
def atKeyword (word : String) : Parser Bool := do
  skip
  atWord word

/-- A sign of assignment stands behind the trivia at the cursor. -/
def atAssign : Parser Bool := do
  if ← atToken "=" then return !(← startsWith "==") else return false

/-- Moves over a token of the given length and gives its span. -/
def takeToken (length : Nat) : Parser Span := do
  let start ← position
  advance length
  spanFrom start

/-- The span of the token, if it stands here; the cursor is then behind it. -/
def accept? (token : String) : Parser (Option Span) := do
  if ← atToken token then return some (← takeToken token.length) else return none

/-- Whether the token stands here; the cursor is then behind it. -/
def accept (token : String) : Parser Bool := return (← accept? token).isSome

/-- Whether the keyword stands here; the cursor is then behind it. -/
def acceptKeyword (word : String) : Parser Bool := do
  if ← atKeyword word then
    advance word.length
    return true
  else return false

/-- The span of the token, which has to stand here. -/
def expect (token : String) : Parser Span := do
  match ← accept? token with
  | some span => return span
  | none => failExpected ("'" ++ token ++ "'")

/-- Moves over the keyword, which has to stand here. -/
def expectKeyword (word : String) : Parser Unit := do
  if !(← acceptKeyword word) then failExpected ("'" ++ word ++ "'")

/-- Items up to a closing token, with commas between them and perhaps one behind the last. The
closing token is not read. -/
def commaList {α : Type} (close : String) (item : Parser α) : Parser (List α) := do
  let items ← repeating (fun (items : Array α) => do
    if ← atToken close then return .done items
    else
      let next ← item
      if ← accept "," then return .next (items.push next)
      else return .done (items.push next)) #[]
  return items.toList

/-! ### Names -/

/-- The identifier at the cursor, which has to be one. -/
def identifier (what : String) : Parser Identifier := do
  match ← identifier? with
  | some name => return name
  | none => failExpected what

/-- An identifier that names something, so that a keyword needs backticks. -/
def expectName (what : String) : Parser Identifier := do
  skip
  let name ← identifier what
  if name.isReservedWord then failWith (.keywordAsName name.name what) name.span
  return name

/-- A point with a name behind it stands at the cursor. -/
def atPathStep : Parser Bool := do
  let c ← peek
  let next ← peekAt 1
  return c == '.' && (next == backtick || startsName next)

/-- Names with points between them, without trivia. -/
def qualifiedName (what : String) : Parser NamedType := do
  let first ← identifier what
  let path ← repeating (fun (path : Array Identifier) => do
    if ← atPathStep then
      advance 1
      return .next (path.push (← identifier what))
    else return .done path) #[first]
  return ⟨path.toList, ⟨first.span.start, (path.back?.getD first).span.stop⟩⟩

end Parser

namespace Grammar

open PklSyntax.Parser

/-- The string at the cursor. -/
def string (g : Grammar) : Parser StringLiteral := do
  stringLiteral g.expr (← theOptions).styleWarnings

/-- A string without interpolation, as the source of a clause. -/
def sourceString (g : Grammar) (keyword : String) : Parser StringLiteral := do
  skip
  if !(← atString) then failExpected ("a string literal after '" ++ keyword ++ "'")
  let literal ← g.string
  if !literal.isConstant then failWith (.interpolatedSource keyword) literal.span
  return literal

end Grammar

end PklSyntax
