import PklSyntax.Grammar.Basic
import PklSyntax.Tree.Grouping

/-!
# Expressions

An expression is a sequence of operands with infix operators between them, which is then grouped.
An operand is a primary expression with prefix operators in front of it and, behind it, selections
and amendments, and then type tests.

Line breaks matter in two places: a `-` that begins a line begins a new member, and so does a `[`.
Braces amend whatever they follow, except a literal.

## Main definitions

* `Grammar.primary`, `Grammar.postfixes`, `Grammar.operand`, `Grammar.expressionRule`.
* `nestingLimit`: the greatest depth of nesting.
-/

namespace PklSyntax

/-- The greatest depth to which constructs may nest. -/
def nestingLimit : Nat := 500

namespace Grammar

open PklSyntax.Parser

variable (g : Grammar)

/-! ### Calls and members -/

/-- The call of `callee`, whose arguments begin at the cursor. -/
def call (callee : Identifier) (kind : CallKind) : Parser Call := do
  advance 1
  let args ← commaList ")" g.expr
  let close ← expect ")"
  return ⟨callee, kind, args, ⟨callee.span.start, close.stop⟩⟩

/-- A member, with its arguments when they stand directly behind the name. -/
def member : Parser Member := do
  skip
  let name ← identifier "a member name"
  if (← peek) == '(' then return .call (← g.call name .identifier)
  else return .identifier name

/-! ### Parameters and lambdas -/

/-- A parameter. -/
def param : Parser Param := do
  let name ← expectName "a parameter name"
  let type ← if ← accept ":" then some <$> g.type else pure none
  return ⟨name, type, ⟨name.span.start, (type.map TypeExpr.span).elim name.span.stop Span.stop⟩⟩

/-- Parameters in parentheses, with the offset behind them. -/
def params : Parser (List Param × Int) := do
  let _ ← expect "("
  let params ← commaList ")" g.param
  let close ← expect ")"
  return (params, close.stop)

/-- The lambda at the cursor, if there is one. Otherwise nothing is read. -/
def lambda? : Parser (Option Expr) := do
  let before ← mark
  let start ← position
  match ← attempt g.params with
  | none =>
    rewind before
    return none
  | some (params, _) =>
    if ← atToken "->" then
      advance 2
      let body ← g.expr
      return some (.lambda params body ⟨start, body.span.stop⟩)
    else
      rewind before
      return none

/-! ### Primary expressions -/

/-- A lambda, or an expression in parentheses. -/
def parenthesized : Parser Expr := do
  let start ← position
  match ← g.lambda? with
  | some lambda => return lambda
  | none =>
    advance 1
    let inner ← g.expr
    let close ← expect ")"
    return .paren inner ⟨start, close.stop⟩

/-- A conditional. -/
def conditional : Parser Expr := do
  let start ← position
  advance "if".length
  let _ ← expect "("
  let condition ← g.expr
  let _ ← expect ")"
  let thenBranch ← g.expr
  expectKeyword "else"
  let elseBranch ← g.expr
  return .conditional condition thenBranch elseBranch ⟨start, elseBranch.span.stop⟩

/-- An expression with a local name. -/
def letExpression : Parser Expr := do
  let start ← position
  advance "let".length
  let _ ← expect "("
  let name ← expectName "a variable name"
  let type ← if ← accept ":" then some <$> g.type else pure none
  if !(← atAssign) then failExpected "'='"
  advance 1
  let value ← g.expr
  let _ ← expect ")"
  let body ← g.expr
  return .letIn name type value body ⟨start, body.span.stop⟩

/-- A new object, perhaps of a type. -/
def newExpression : Parser Expr := do
  let start ← position
  advance "new".length
  let type ← if ← atToken "\x7b" then pure none else some <$> g.type
  let body ← g.body
  return .new type body ⟨start, body.span.stop⟩

/-- `read?` or `read*` with its parenthesis stands at the cursor. -/
def readKind? : Parser (Option CallKind) := do
  let word ← peekWord
  let mark ← peekAt 4
  let next ← peekAt 5
  if word == "read" && next == '(' then
    if mark == '?' then return some .nullableRead
    else if mark == '*' then return some .globbedRead
    else return none
  else return none

/-- A name, or the call of one. A keyword is a name only in some places. -/
def nameExpression : Parser Expr := do
  let name ← identifier "an expression"
  if (← peek) == '(' then
    if name.isReservedWord && !callableKeywords.contains name.name then
      failWith (.keywordInExpression name.name) name.span
    return .call (← g.call name .identifier)
  else
    if name.isReservedWord && !selfReferences.contains name.name then
      failWith (.keywordInExpression name.name) name.span
    return .identifier name

/-- An expression that begins with a name. -/
def identifierExpression : Parser Expr := do
  match ← readKind? with
  | some kind =>
    let start ← position
    let callee : Identifier := ⟨"read", .plain, .ofNat start (start + 4)⟩
    advance 5
    return .call (← g.call callee kind)
  | none => g.nameExpression

/-- A truth value or `null`, if one stands at the cursor. -/
def constant? : Parser (Option Expr) := do
  if ← atWord "true" then return some (.bool true (← takeToken 4))
  else if ← atWord "false" then return some (.bool false (← takeToken 5))
  else if ← atWord "null" then return some (.null (← takeToken 4))
  else return none

/-- An expression without operators around it and selections behind it. -/
def primary : Parser Expr := do
  skip
  if ← atWord "if" then g.conditional
  else if ← atWord "let" then g.letExpression
  else if ← startsWith "(" then g.parenthesized
  else if ← atWord "new" then g.newExpression
  else if ← atNumber then return .number (← number (← theOptions).styleWarnings)
  else if ← atString then return .string (← g.string)
  else match ← constant? with
    | some constant => return constant
    | none =>
      if ← atIdentifier then g.identifierExpression
      else failExpected "an expression"

/-! ### Selections and amendments -/

/-- The unit literal that an amount and a member directly behind it make together. -/
def unitLiteral? : Expr → Member → Option Expr
  | .number amount, .identifier name =>
    let span := amount.span.cover name.span
    if name.kind != .plain then none
    else match DurationUnit.ofSymbol? name.name, DataSizeUnit.ofSymbol? name.name with
      | some unit, _ => some (.duration amount unit span)
      | none, some unit => some (.dataSize amount unit span)
      | none, none => none
  | _, _ => none

/-- The expression is a literal. -/
def isLiteral : Expr → Bool
  | .bool .. | .null .. | .number .. | .duration .. | .dataSize .. | .string .. => true
  | _ => false

/-- The expression with an access behind it. -/
def select (target : Expr) (access : Access) : Expr :=
  .index target access (target.span.cover access.span)

/-- The amendment of a base by object bodies, of which the first is given apart. A base in
parentheses and the first body make a value of their own. -/
def amend (base : Expr) (first : ObjectBody) (others : List ObjectBody) (span : Span) : Expr :=
  match base, others with
  | .paren inner _, [] => .amend inner first ⟨base.span.start, first.span.stop⟩
  | .paren inner _, _ =>
    .amended (.amend inner first ⟨base.span.start, first.span.stop⟩) others span
  | _, _ => .amended base (first :: others) span

/-- The object bodies from the cursor on, as long as they follow one another. -/
def moreBodies (first : ObjectBody) : Parser (Array ObjectBody) :=
  repeating (fun (bodies : Array ObjectBody) => do
    if ← atToken "\x7b" then return .next (bodies.push (← g.body))
    else return .done bodies) #[first]

/-- The base with the object bodies behind it. -/
def amendments (base : Expr) : Parser Expr := do
  let first ← g.body
  let bodies ← g.moreBodies first
  let last := bodies.back?.getD first
  return amend base first (bodies.toList.drop 1) ⟨base.span.start, last.span.stop⟩

/-- The member behind a point. An amount with a unit directly behind it is one literal. -/
def dotAccess (target : Expr) : Parser Expr := do
  let start ← position
  advance 1
  let member ← g.member
  let unit? := if target.span.stop = start then unitLiteral? target member else none
  return unit?.getD (select target (.dot member ⟨start, member.span.stop⟩))

/-- The member behind `?.`. -/
def nullSafeAccess (target : Expr) : Parser Expr := do
  let start ← position
  advance 2
  let member ← g.member
  return select target (.nullSafe member ⟨start, member.span.stop⟩)

/-- The element in brackets. -/
def bracketAccess (target : Expr) : Parser Expr := do
  let start ← position
  advance 1
  let index ← g.expr
  let close ← expect "]"
  return select target (.bracket index ⟨start, close.stop⟩)

/-- The expression with one more selection or amendment, or with none left. -/
def postfixStep (target : Expr) : Parser (Round Expr Expr) := do
  skip
  if ← startsWith "?." then return .next (← g.nullSafeAccess target)
  else if (← startsWith ".") && !(← startsWith "...") then return .next (← g.dotAccess target)
  else if (← startsWith "[") && !(← newlineSince target.span) then
    return .next (← g.bracketAccess target)
  else if ← startsWith "!!" then
    advance 2
    return .next (.nonNull target ⟨target.span.start, ← position⟩)
  else if (← startsWith "\x7b") && !isLiteral target then return .next (← g.amendments target)
  else return .done target

/-! ### Operators -/

/-- The expression with one more type test or cast, or with none left. -/
def typeTestStep (expr : Expr) : Parser (Round Expr Expr) := do
  skip
  if ← atWord "is" then
    advance 2
    let type ← g.type
    return .next (.typeTest expr type (expr.span.cover type.span))
  else if ← atWord "as" then
    advance 2
    let type ← g.type
    return .next (.typeCast expr type (expr.span.cover type.span))
  else return .done expr

/-- One more prefix operator with its offset, or none left. -/
def prefixStep (operators : List (UnaryOperator × Nat)) :
    Parser (Round (List (UnaryOperator × Nat)) (List (UnaryOperator × Nat))) := do
  skip
  let start ← position
  if (← startsWith "-") && !(← startsWith "->") then
    advance 1
    return .next ((.negate, start) :: operators)
  else if (← startsWith "!") && !(← startsWith "!=") then
    advance 1
    return .next ((.not, start) :: operators)
  else return .done operators

/-- The operand behind prefix operators, of which the one nearest to it comes first. -/
def applyPrefixes (operators : List (UnaryOperator × Nat)) (operand : Expr) : Expr :=
  operators.foldl (fun expr (op, start) => .unary op expr ⟨start, expr.span.stop⟩) operand

/-- An operand of infix operators. -/
def operand : Parser Expr := do
  let operators ← repeating prefixStep []
  let primary ← g.primary
  let selected ← repeating g.postfixStep primary
  let tested ← repeating g.typeTestStep selected
  return applyPrefixes operators tested

/-- The first operator of the list that stands at the cursor. -/
def firstOperator? : List BinaryOperator → Parser (Option BinaryOperator)
  | [] => return none
  | op :: others => do
    if ← startsWith op.symbol then return some op else firstOperator? others

/-- The infix operator behind the trivia at the cursor, if one continues the expression of which
`left` is the last operand so far. -/
def infixOperator? (left : Expr) : Parser (Option BinaryOperator) := do
  skip
  match ← firstOperator? BinaryOperator.longestFirst with
  | some .subtract =>
    if (← startsWith "->") || (← newlineSince left.span) then return none
    else return some .subtract
  | op? => return op?

/-- The operators and operands behind the first operand. -/
def infixSteps (first : Expr) : Parser (Array InfixStep) :=
  repeating (fun (steps : Array InfixStep) => do
    match ← infixOperator? ((steps.back?.map InfixStep.operand).getD first) with
    | some op =>
      advance op.symbol.length
      return .next (steps.push ⟨op, ← g.operand⟩)
    | none => return .done steps) #[]

/-- An expression. -/
def expressionRule : Parser Expr := do
  let first ← g.operand
  let steps ← g.infixSteps first
  let expr := groupInfix first steps.toList
  if nestingLimit < expr.rightDepth then throw .tooDeep
  return expr

end Grammar

end PklSyntax
