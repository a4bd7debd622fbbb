import PklSyntax.Toml.Reader
import PklSyntax.Toml.Scalar
import PklSyntax.Toml.Table

/-!
# TOML documents

A document is a sequence of lines with at most one statement each: a header that names a table, a
header that names an array of tables, or a key with a value. A value can go on over several lines.

## Main definitions

* `Toml.value`: a value.
* `Toml.Statement`, `Toml.Draft`: the statements, and the document that they have made so far.
* `Toml.line`: a line with what it adds to the document.
* `Toml.parse`: the table that a text describes.
-/

namespace PklSyntax.Toml

/-! ### Keys -/

/-- A character of a name without quotes. -/
def isNameChar (c : Char) : Bool := c.isAlphanum || c == '-' || c == '_'

/-- One name of a key. -/
def name : Reader String := do
  if ← accept "\"" then basicString
  else if ← accept "'" then literalString
  else
    let word ← takeWhile isNameChar
    require (!word.isEmpty)
    return word

/-- The key, with the blanks behind it. -/
def key : Reader Key := do
  let first ← name
  blanks
  let others ← many do
    if ← accept "." then
      blanks
      let next ← name
      blanks
      return some next
    else return none
  let names := first :: others
  return ⟨names.dropLast, names.getLastD first⟩

/-! ### Values -/

/-- A number, a truth value, a date or a time. A time may stand behind a date with a blank between
them. An integer that is too long is refused whatever follows it. -/
def scalar : Reader Value := do
  let word ← takeWhile isWordChar
  let digits := integerDigits word.toList
  if decimalDigitLimit < digits then throw (.tooManyDigits digits)
  let rest ← get
  let time := (rest.drop 1).takeWhile isWordChar
  if isDate word.toList && rest.head? == some ' ' && !time.isEmpty then
    modify (List.drop (1 + time.length))
    require (isTimeWithOffset time)
    return .time .dateTime (word ++ " " ++ String.ofList time)
  else found (scalar? word)

/-- An array, of which the bracket is taken. -/
def array (value : Reader Value) : Reader Value := do
  let items ← many do
    filler
    if ← isNext "]" then return none
    else
      let item ← value
      filler
      if !(← accept ",") then require (← isNext "]")
      return some item
  expect "]"
  return .array items

/-- A key with its value, and the blanks behind it. -/
def assignment (value : Reader Value) : Reader (Key × Value) := do
  let key ← key
  expect "="
  blanks
  let value ← value
  blanks
  return (key, value)

/-- A complete table, of which the brace is taken. -/
def inlineTable (value : Reader Value) : Reader Value := do
  blanks
  if ← accept "\x7d" then return .table .inline []
  else
    let entry (table : Table) : Reader Table := do
      let (key, value) ← assignment value
      found (assign 0 key value table)
    let table ← iterate (fun table => do
      if ← accept "," then
        blanks
        return some (← entry table)
      else return none) (← entry [])
    expect "\x7d"
    return .table .inline table

/-- A value within the room that is left for the values it holds. An array takes up two parts of
it, and a table three. -/
def value : Nat → Reader Value
  | room + 3 => do
    let next ← peek?
    if next == some '"' || next == some '\'' then return .string (← stringReader)
    else if ← accept "[" then array (value (room + 1))
    else if ← accept "\x7b" then inlineTable (value room)
    else scalar
  | _ => throw .tooDeep

/-- The room for the values of one statement. -/
def valueRoom : Nat := 980

/-! ### Statements -/

/-- What a line says. -/
inductive Statement where
  | header (key : Key)
  | arrayHeader (key : Key)
  | assignment (key : Key) (value : Value)
  deriving Repr, Inhabited

/-- The header of a table or of an element of an array. -/
def header : Reader Statement := do
  if ← accept "[[" then
    blanks
    let key ← key
    expect "]]"
    return .arrayHeader key
  else
    expect "["
    blanks
    let key ← key
    expect "]"
    return .header key

/-- The statement of a line, if it has one. -/
def statement? : Reader (Option Statement) := do
  match ← peek? with
  | none | some '\n' | some '#' => return none
  | some '[' => return some (← header)
  | some _ =>
    let (key, value) ← assignment (value valueRoom)
    return some (.assignment key value)

/-! ### Documents -/

/-- A document as far as it has been read: its table, the path of the last header, and the number
of headers. -/
structure Draft where
  table : Table := []
  path : List String := []
  block : Nat := 0

/-- The document after one more statement. -/
def Draft.add (draft : Draft) : Statement → Option Draft
  | .header key => do
    return ⟨← openTable key draft.table, key.names, draft.block + 1⟩
  | .arrayHeader key => do
    return ⟨← addTable key draft.table, key.names, draft.block + 1⟩
  | .assignment key value => do
    let table ← inside .byHeader true (assign draft.block key value) draft.path draft.table
    return { draft with table }

/-- The document after one more line, which is taken with its end. -/
def line (draft : Draft) : Reader Draft := do
  blanks
  let draft ← match ← statement? with
    | some statement => found (draft.add statement)
    | none => pure draft
  blanks
  comment
  if !(← accept "\n") then require (← get).isEmpty
  return draft

/-- The document that all lines make. -/
def lines : Reader Draft :=
  iterate (fun draft => do
    if (← get).isEmpty then return none else return some (← line draft)) {}

/-- A carriage return with its line feed is a line feed. -/
def joinLineEnds : List Char → List Char
  | '\r' :: '\n' :: rest => '\n' :: joinLineEnds rest
  | c :: rest => c :: joinLineEnds rest
  | [] => []

/-- The table that a text describes, if it is a document. -/
def parse (text : String) : Except Fault Table := do
  let (draft, _) ← lines (joinLineEnds text.toList)
  return draft.table

end PklSyntax.Toml
