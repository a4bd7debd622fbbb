import PklSyntax.Grammar.Basic

/-!
# Types

A type is one segment, or several with `|` between them. A segment is an atom with suffixes, which
stand directly behind it, and perhaps a `*` in front; an atom is a name, perhaps with type
arguments, a string, a type in parentheses, or a function type.

## Main definitions

* `Grammar.typeAtom`, `Grammar.typeSegment`, `Grammar.typeRule`.
-/

namespace PklSyntax

namespace Grammar

open PklSyntax.Parser

variable (g : Grammar)

/-- The arguments behind the name of a generic type. An empty list is a warning, and the name then
stands for itself. -/
def typeArguments (base : NamedType) : Parser TypeExpr := do
  let opening ← takeToken 1
  let args ← commaList ">" g.type
  let close ← expect ">"
  let span : Span := ⟨base.span.start, close.stop⟩
  if args.isEmpty then
    report .emptyTypeArguments (opening.cover close)
    return .named { base with span }
  else return .generic base args span

/-- The arrow and the result of a function type, if an arrow follows. Otherwise nothing is read. -/
def arrowResult? : Parser (Option TypeExpr) := do
  let before ← mark
  skip
  if ← startsWith "->" then
    advance 2
    return some (← g.type)
  else
    rewind before
    return none

/-- A function type, or a type in parentheses. The latter takes the parentheses into its span. -/
def parenthesizedType : Parser TypeExpr := do
  let start ← position
  advance 1
  let params ← commaList ")" g.type
  let close ← expect ")"
  match ← g.arrowResult? with
  | some result => return .function params result ⟨start, result.span.stop⟩
  | none =>
    match params with
    | [type] => return type.withSpan ⟨start, close.stop⟩
    | _ => failExpected "'->' after function type parameters"

/-- A string as a type. -/
def stringType : Parser TypeExpr := do
  let literal ← g.string
  if !literal.isConstant then failWith .interpolatedType literal.span
  return .stringLiteral literal literal.span

/-- A type without suffixes. -/
def typeAtom : Parser TypeExpr := do
  if (← peek) == '(' then g.parenthesizedType
  else if ← atString then g.stringType
  else if ← atIdentifier then
    let name ← qualifiedName "a type"
    if (← peek) == '<' then g.typeArguments name else return .named name
  else failExpected "a type"

/-- The predicates in parentheses behind a type. -/
def constraints (base : TypeExpr) : Parser TypeExpr := do
  advance 1
  let first ← g.expr
  let predicates ← repeating (fun (predicates : Array Expr) => do
    if ← accept "," then return .next (predicates.push (← g.expr))
    else return .done predicates) #[first]
  let close ← expect ")"
  return .constrained base predicates.toList ⟨base.span.start, close.stop⟩

/-- The type is a function type. -/
def isFunctionType : TypeExpr → Bool
  | .function .. => true
  | _ => false

/-- A type with one more suffix, or with none left. -/
def typeSuffix (base : TypeExpr) : Parser (Round TypeExpr TypeExpr) := do
  let c ← peek
  let next ← peekAt 1
  if c == '?' && next != '?' && next != '.' then
    advance 1
    return .next (.nullable base ⟨base.span.start, ← position⟩)
  else if c == '(' && !isFunctionType base then return .next (← g.constraints base)
  else return .done base

/-- A member of a union: an atom with its suffixes, perhaps behind a `*`. -/
def typeSegment : Parser TypeExpr := do
  skip
  let start ← position
  let isDefault := (← peek) == '*'
  if isDefault then
    advance 1
    skip
  let base ← g.typeAtom
  let type ← repeating g.typeSuffix base
  if isDefault then return .default type ⟨start, type.span.stop⟩ else return type

/-- The members of a type within a union: a union in parentheses is dissolved. -/
def unionMembers : TypeExpr → List TypeExpr
  | .union members _ => members
  | type => [type]

/-- A `|` that continues a union stands behind the trivia at the cursor. -/
def atUnionBar : Parser Bool := do
  if !(← atToken "|") then return false
  else if ← startsWith "||" then return false
  else return !(← startsWith "|>")

/-- A type. -/
def typeRule : Parser TypeExpr := do
  skip
  let start ← position
  let first ← g.typeSegment
  let members ← repeating (fun (members : Array TypeExpr) => do
    if ← atUnionBar then
      advance 1
      return .next (members.push (← g.typeSegment))
    else return .done members) #[first]
  match members.toList with
  | [type] => return type
  | types =>
    return .union (types.flatMap unionMembers) ⟨start, (members.back?.getD first).span.stop⟩

end Grammar

end PklSyntax
