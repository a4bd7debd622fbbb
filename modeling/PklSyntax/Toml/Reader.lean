import PklSyntax.Toml.Value

/-!
# Reading TOML

A reader takes characters from the front of a text, or refuses the text. A refusal does not say
where the text departs from the grammar, since a faulty document is refused as a whole; it only sets
apart what the grammar allows and what is still not followed.

## Main definitions

* `Toml.Fault`: why a text is refused.
* `Toml.Reader`, `Toml.iterate`, `Toml.many`.
* `Toml.basicString`, `Toml.literalString`, and their forms over several lines.
* `Toml.stringReader`: a string of any form.
-/

namespace PklSyntax.Toml

/-- Why a text is refused: it is no document, an integer has more digits than are worked out, or
values are nested deeper than is followed. -/
inductive Fault where
  | malformed
  | tooManyDigits (count : Nat)
  | tooDeep
  deriving Repr, DecidableEq, Inhabited

/-- A reader of characters. -/
abbrev Reader := StateT (List Char) (Except Fault)

/-- Refuses a text that is no document. -/
def refuse {α : Type} : Reader α := throw .malformed

/-- Refuses a text that does not meet a condition. -/
def require (condition : Bool) : Reader Unit := if condition then return () else refuse

/-- Refuses a text for which there is no value. -/
def found {α : Type} : Option α → Reader α
  | some value => return value
  | none => refuse

/-! ### Characters -/

/-- The next character, which stays where it is. -/
def peek? : Reader (Option Char) := return (← get).head?

/-- The next character. -/
def takeChar : Reader Char := do
  match ← get with
  | c :: rest =>
    set rest
    return c
  | [] => refuse

/-- The characters with a property from here on. -/
def takeWhile (p : Char → Bool) : Reader String :=
  modifyGet fun chars => (String.ofList (chars.takeWhile p), chars.dropWhile p)

/-- Leaves out the characters with a property from here on. -/
def skipWhile (p : Char → Bool) : Reader Unit := modify (List.dropWhile p)

/-- The word is next. -/
def isNext (word : String) : Reader Bool := return word.toList.isPrefixOf (← get)

/-- Whether the word is next; it is then taken. -/
def accept (word : String) : Reader Bool := do
  if ← isNext word then
    modify (List.drop word.length)
    return true
  else return false

/-- Takes the word, which has to be next. -/
def expect (word : String) : Reader Unit := do require (← accept word)

/-- What steps make of a value, up to the first that is not made. There must be fewer than `limit`
of them. -/
def iterateUpTo {α : Type} (step? : α → Reader (Option α)) : Nat → α → Reader α
  | 0, _ => refuse
  | limit + 1, value => do
    match ← step? value with
    | some next => iterateUpTo step? limit next
    | none => return value

/-- What steps make of a value, up to the first that is not made. Each of them takes characters, so
that there are no more of them than characters. -/
def iterate {α : Type} (step? : α → Reader (Option α)) (value : α) : Reader α := do
  iterateUpTo step? ((← get).length + 1) value

/-- The items up to the first that is missing. Each of them takes characters. -/
def many {α : Type} (item? : Reader (Option α)) : Reader (List α) := do
  let items ← iterate (fun items => do return (← item?).map (· :: items)) []
  return items.reverse

/-! ### Blanks and comments -/

/-- A blank within a line. -/
def isBlankChar (c : Char) : Bool := c == ' ' || c == '\t'

/-- A control character that may not stand in a line. -/
def isControl (c : Char) : Bool := (c.toNat < 32 && c != '\t') || c.toNat == 127

/-- Leaves out blanks within a line. -/
def blanks : Reader Unit := skipWhile isBlankChar

/-- Leaves out a comment up to the end of the line, if there is one. -/
def comment : Reader Unit := do
  if ← accept "#" then
    let text ← takeWhile (· != '\n')
    require (!text.toList.any isControl)

/-- Leaves out one line end with the blanks and the comment in front of it, if it is there. -/
def lineEnd? : Reader (Option Unit) := do
  blanks
  comment
  if ← accept "\n" then return some () else return none

/-- Leaves out blanks, comments and line ends. -/
def filler : Reader Unit := do
  let _ ← many lineEnd?
  blanks

/-! ### Strings -/

/-- A scalar value given by hexadecimal digits. -/
def scalarEscape (width : Nat) : Reader Char := do
  let digits := (← get).take width
  require (digits.length == width && digits.all isHexDigit)
  modify (List.drop width)
  let value := digitsValue 16 digits
  require (decide value.isValidChar)
  return Char.ofNat value

/-- The character that an escape stands for, of which the backslash is taken. -/
def escape : Reader Char := do
  match ← takeChar with
  | 'b' => return '\x08'
  | 't' => return '\t'
  | 'n' => return '\n'
  | 'f' => return '\x0c'
  | 'r' => return '\r'
  | '"' => return '"'
  | '\\' => return '\\'
  | 'u' => scalarEscape 4
  | 'U' => scalarEscape 8
  | _ => refuse

/-- A piece of a string between quotes; none when its end is taken. -/
def basicPiece : Reader (Option Char) := do
  let c ← takeChar
  if c == '"' then return none
  else if c == '\\' then return some (← escape)
  else
    require (!isControl c)
    return some c

/-- A string between quotes, of which the first is taken. -/
def basicString : Reader String := return String.ofList (← many basicPiece)

/-- A string between apostrophes, of which the first is taken. -/
def literalString : Reader String := do
  let text ← takeWhile (· != '\'')
  require (!text.toList.any isControl)
  expect "'"
  return text

/-- A line that ends in a backslash goes on at the next character that is not blank. -/
def continuation? : Reader (Option Unit) := do
  let rest := (← get).dropWhile isBlankChar
  match rest with
  | '\n' :: _ =>
    skipWhile fun c => isBlankChar c || c == '\n'
    return some ()
  | _ => return none

/-- A piece of a string over several lines; none when its end is taken. -/
def basicLinesPiece : Reader (Option (List Char)) := do
  if ← accept "\"\"\"" then return none
  let c ← takeChar
  if c == '\\' then
    match ← continuation? with
    | some _ => return some []
    | none => return some [← escape]
  else
    require (c == '\n' || !isControl c)
    return some [c]

/-- A piece of a literal string over several lines; none when its end is taken. -/
def literalLinesPiece : Reader (Option (List Char)) := do
  if ← accept "'''" then return none
  let c ← takeChar
  require (c == '\n' || !isControl c)
  return some [c]

/-- A string over several lines, of which the opening quotes are taken. A line end directly behind
them does not count, and up to two more quotes behind the closing ones do. -/
def stringLines (quote : Char) (piece? : Reader (Option (List Char))) : Reader String := do
  let _ ← accept "\n"
  let pieces ← many piece?
  let extra := ((← get).takeWhile (· == quote)).take 2
  modify (List.drop extra.length)
  return String.ofList (pieces.flatten ++ extra)

/-- A string of any form. -/
def stringReader : Reader String := do
  if ← accept "\"\"\"" then stringLines '"' basicLinesPiece
  else if ← accept "'''" then stringLines '\'' literalLinesPiece
  else if ← accept "\"" then basicString
  else
    expect "'"
    literalString

end PklSyntax.Toml
