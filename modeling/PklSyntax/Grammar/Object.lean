import PklSyntax.Grammar.Declaration

/-!
# Object bodies

Between the braces of an object stand properties and functions, entries, generators, spread
values and elements, perhaps with semicolons between them. What begins like an expression is
first tried as a property: it is one when annotations or modifiers stand in front of it, or when
its name is followed by what belongs to a property.

## Main definitions

* `Grammar.propertyMember?`: the property or function at the cursor, if there is one.
* `Grammar.objectMember`, `Grammar.bodyRule`.
-/

namespace PklSyntax

namespace Parser

/-- The name at the cursor, unless it is a keyword or cannot be read. The cursor is left wherever
the reading of it ended. -/
def propertyName? : Parser (Option Identifier) := do
  let name? ← attempt identifier?
  return name?.join.filter fun name => !name.isKeyword

/-- The name of a property stands at the cursor, with what belongs to a property behind it. -/
def atPropertyHead : Parser Bool := do
  let before ← mark
  match ← propertyName? with
  | none =>
    rewind before
    return false
  | some _ =>
    skip
    let c ← peek
    let next ← peekAt 1
    rewind before
    return c == '\x7b' || c == ':' || (c == '=' && next != '=')

/-- The amendment of an element of `this` stands at the cursor. -/
def atFieldAmend : Parser Bool := do
  if !(← startsWith "(") then return false
  let before ← mark
  advance 1
  let found ← if ← acceptKeyword "this" then atToken "[" else pure false
  rewind before
  return found

end Parser

namespace Grammar

open PklSyntax.Parser

variable (g : Grammar)

/-! ### Entries and elements -/

/-- The value of an entry. -/
def entryValue : Parser EntryValue := do
  if ← atAssign then
    advance 1
    return .expr (← g.expr)
  else if ← atToken "\x7b" then return .object (← g.objectForm)
  else failExpected "'=' or '\x7b'"

/-- An entry with the key in brackets. -/
def mappingEntry : Parser ObjectMember := do
  let start ← position
  advance 1
  let key ← g.expr
  let _ ← expect "]"
  let value ← g.entryValue
  return .mappingEntry key value ⟨start, value.span.stop⟩

/-- An entry for all members with a property. -/
def predicateEntry : Parser ObjectMember := do
  let start ← position
  advance 2
  let predicate ← g.expr
  let _ ← expect "]]"
  let value ← g.entryValue
  return .predicateEntry predicate value ⟨start, value.span.stop⟩

/-- The members of another value. -/
def spread : Parser ObjectMember := do
  let start ← position
  advance 3
  let nullable := (← peek) == '?'
  if nullable then advance 1
  let expr ← g.expr
  return .spread expr nullable ⟨start, expr.span.stop⟩

/-- The amendment of an element of `this`. -/
def fieldAmend : Parser ObjectMember := do
  let start ← position
  advance 1
  expectKeyword "this"
  let _ ← expect "["
  let index ← g.expr
  let _ ← expect "]"
  let _ ← expect ")"
  let body ← g.body
  return .fieldAmend index body ⟨start, body.span.stop⟩

/-! ### Generators -/

/-- Members under a condition. -/
def whenGenerator : Parser ObjectMember := do
  let start ← position
  advance "when".length
  let _ ← expect "("
  let condition ← g.expr
  let _ ← expect ")"
  let thenBody ← g.body
  let elseBody ← if ← acceptKeyword "else" then some <$> g.body else pure none
  return .whenGenerator condition thenBody elseBody ⟨start, (elseBody.getD thenBody).span.stop⟩

/-- The names of a loop, one or two. -/
def loopNames : Parser (List Identifier) := do
  let first ← expectName "a loop variable"
  if ← accept "," then return [first, ← expectName "a loop variable"] else return [first]

/-- Members for each element of a value. -/
def forGenerator : Parser ObjectMember := do
  let start ← position
  advance "for".length
  let _ ← expect "("
  let names ← loopNames
  expectKeyword "in"
  let iterable ← g.expr
  let _ ← expect ")"
  let body ← g.body
  return .forGenerator names iterable body ⟨start, body.span.stop⟩

/-! ### Members -/

/-- The property or function at the cursor, if there is one. Otherwise nothing is read. -/
def propertyMember? : Parser (Option ObjectMember) := do
  let start ← mark
  let before ← g.preamble
  if ← atWord "function" then return some (.function (← g.functionRule before))
  else if !before.annotations.isEmpty || !before.modifiers.isEmpty || (← atPropertyHead) then
    return some (.property (← g.propertyRule before))
  else
    rewind start
    return none

/-- A property, a function or an element. -/
def namedMember : Parser ObjectMember := do
  match ← g.propertyMember? with
  | some member => return member
  | none =>
    let expr ← g.expr
    return .element expr expr.span

/-- A member of an object body. -/
def objectMember : Parser ObjectMember := do
  if ← startsWith "[[" then g.predicateEntry
  else if ← startsWith "[" then g.mappingEntry
  else if ← startsWith "..." then g.spread
  else if ← atFieldAmend then g.fieldAmend
  else if ← atWord "when" then g.whenGenerator
  else if ← atWord "for" then g.forGenerator
  else g.namedMember

/-- The members up to the closing brace, which is read too. -/
def objectMembers (opening : Span) : Parser (Array ObjectMember) :=
  repeating (fun (members : Array ObjectMember) => do
    skip
    let c ← peek
    if ← atEnd then failWith .unclosedObjectBody opening
    else if c == '\x7d' then
      advance 1
      return .done members
    else if c == ';' then
      advance 1
      return .next members
    else return .next (members.push (← g.objectMember))) #[]

/-- An object body. Between its braces trivia may stand even inside a string. -/
def bodyRule : Parser ObjectBody := do
  let opening ← expect "\x7b"
  let members ← inMode .loose (g.objectMembers opening)
  return ⟨members.toList, ⟨opening.start, ← position⟩⟩

end Grammar

end PklSyntax
