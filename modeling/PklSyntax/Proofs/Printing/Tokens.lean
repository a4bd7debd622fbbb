import PklSyntax.Grammar.Expression
import PklSyntax.Proofs.Reading.Characters

/-!
# Plain expressions and their tokens

The expressions that are made of names, decimal integers, parentheses, calls, selections, type tests
and operators, and of nothing else, are *plain* when their operators bind as the tree says: the
operand of each is of a form that the operator takes without parentheses. A plain expression is
written on one line, as its tokens with one blank between them.

The parenthesis of a call belongs to the token of its callee, since a call is one only when no blank
stands there.

## Main definitions

* `Expr.Plain`: the plain expressions.
* `Expr.tokens`, `Expr.print`: how they are written.
* `Expr.nesting`: how deep constructs lie in constructs.

## Main statements

* `Expr.Plain.firstToken`: how a plain expression begins.
-/

namespace PklSyntax

/-! ### Names, integers and operators -/

/-- The word begins with a letter and goes on as a name. -/
def IsName (word : String) : Prop :=
  ∃ first rest, word.toList = first :: rest ∧ isLetter first = true ∧
    ∀ c ∈ rest, continuesName c = true

/-- A name that begins with a letter, without a meaning of its own anywhere in the grammar. -/
structure Identifier.IsPlain (i : Identifier) : Prop where
  kind_eq : i.kind = .plain
  isName : IsName i.name
  notReserved : isReserved i.name = false
  notFloat : i.name ≠ "NaN" ∧ i.name ≠ "Infinity"

/-- A decimal integer, perhaps with underscores between its digits. -/
structure IntLiteral.IsPlain (i : IntLiteral) : Prop where
  base_eq : i.base = .decimal
  ne_empty : i.digits ≠ ""
  digits : ∀ c ∈ i.digits.toList, c.isDigit = true ∨ c = '_'
  placed : misplacedUnderscore? i.digits = none

namespace BinaryOperator

/-- The left operand of `op` may be built with `other`. -/
def TakesLeft (op other : BinaryOperator) : Prop :=
  op.level < other.level ∨ op.level = other.level ∧ op.groupsRight = false

/-- The right operand of `op` may be built with `other`. -/
def TakesRight (op other : BinaryOperator) : Prop :=
  op.level < other.level ∨ op.level = other.level ∧ op.groupsRight = true

theorem TakesLeft.lt_rightLevel {op other : BinaryOperator} (h : op.TakesLeft other) :
    op.level < other.rightLevel ∧ op.level ≤ other.level := by
  rw [TakesLeft] at h
  revert h
  cases op <;> cases other <;> decide

theorem TakesRight.rightLevel_le {op other : BinaryOperator} (h : op.TakesRight other) :
    op.rightLevel ≤ other.level := by
  rw [TakesRight] at h
  revert h
  cases op <;> cases other <;> decide

theorem level_le_rightLevel (op : BinaryOperator) : op.level ≤ op.rightLevel := by
  cases op <;> decide

end BinaryOperator

/-! ### Plain expressions -/

namespace Expr

/-- The operator at the root of an expression. -/
def rootOperator? : Expr → Option BinaryOperator
  | .binary _ op _ _ => some op
  | _ => none

/-- The expression can be selected from: it is a primary expression, or a selection itself. -/
def IsPostfix : Expr → Prop
  | .number _ | .identifier _ | .paren .. | .call _ | .index .. | .nonNull .. => True
  | _ => False

/-- The type of the expression can be tested. -/
def IsTested : Expr → Prop
  | .typeTest .. | .typeCast .. => True
  | e => e.IsPostfix

end Expr

/-- The member as an expression of its own. -/
def Member.toExpr : Member → Expr
  | .identifier name => .identifier name
  | .call c => .call c

/-- A type that is a single name. -/
def TypeExpr.single (name : Identifier) (span : Span) : TypeExpr := .named ⟨[name], span⟩

/-- The expressions of names, decimal integers, parentheses, calls, selections, type tests and
operators, that respect how these bind. No operator stands more than `nestingLimit` right operands
deep. -/
inductive Expr.Plain : Expr → Prop
  | number {literal : IntLiteral} (hliteral : literal.IsPlain) : Plain (.number (.int literal))
  | identifier {name : Identifier} (hname : name.IsPlain) : Plain (.identifier name)
  | paren {inner : Expr} {span : Span} (hinner : Plain inner) : Plain (.paren inner span)
  | call {callee : Identifier} {args : List Expr} {span : Span} (hcallee : callee.IsPlain)
      (hargs : ∀ e ∈ args, Plain e) : Plain (.call ⟨callee, .identifier, args, span⟩)
  | dot {target : Expr} {member : Member} {span span' : Span} (htarget : Plain target)
      (hform : target.IsPostfix) (hmember : Plain member.toExpr) :
      Plain (.index target (.dot member span) span')
  | nullSafe {target : Expr} {member : Member} {span span' : Span} (htarget : Plain target)
      (hform : target.IsPostfix) (hmember : Plain member.toExpr) :
      Plain (.index target (.nullSafe member span) span')
  | bracket {target index : Expr} {span span' : Span} (htarget : Plain target)
      (hform : target.IsPostfix) (hindex : Plain index) :
      Plain (.index target (.bracket index span) span')
  | nonNull {operand : Expr} {span : Span} (hoperand : Plain operand)
      (hform : operand.IsPostfix) : Plain (.nonNull operand span)
  | typeTest {e : Expr} {name : Identifier} {span span' : Span} (he : Plain e)
      (htested : e.IsTested) (hname : name.IsPlain) : Plain (.typeTest e (.single name span) span')
  | typeCast {e : Expr} {name : Identifier} {span span' : Span} (he : Plain e)
      (htested : e.IsTested) (hname : name.IsPlain) : Plain (.typeCast e (.single name span) span')
  | unary {op : UnaryOperator} {operand : Expr} {span : Span} (hoperand : Plain operand)
      (hroot : operand.rootOperator? = none) : Plain (.unary op operand span)
  | binary {left right : Expr} {op : BinaryOperator} {span : Span} (hleft : Plain left)
      (hright : Plain right) (htakesLeft : ∀ other, left.rootOperator? = some other → op.TakesLeft other)
      (htakesRight : ∀ other, right.rootOperator? = some other → op.TakesRight other)
      (hdepth : (Expr.binary left op right span).rightDepth ≤ nestingLimit) :
      Plain (.binary left op right span)

/-! ### Tokens -/

mutual

/-- The tokens of an expression. Only plain expressions are written. -/
def Expr.tokens : Expr → List String
  | .number (.int literal) => [literal.digits]
  | .identifier name => [name.name]
  | .paren inner _ => "(" :: (inner.tokens ++ [")"])
  | .call c => c.tokens
  | .index target access _ => target.tokens ++ access.tokens
  | .nonNull operand _ => operand.tokens ++ ["!!"]
  | .typeTest e (.named type) _ => e.tokens ++ ["is", type.name]
  | .typeCast e (.named type) _ => e.tokens ++ ["as", type.name]
  | .unary op operand _ => op.symbol :: operand.tokens
  | .binary left op right _ => left.tokens ++ op.symbol :: right.tokens
  | _ => []

/-- The tokens of an access. -/
def Access.tokens : Access → List String
  | .dot member _ => "." :: member.tokens
  | .nullSafe member _ => "?." :: member.tokens
  | .bracket index _ => "[" :: (index.tokens ++ ["]"])

/-- The tokens of a selected member. -/
def Member.tokens : Member → List String
  | .identifier name => [name.name]
  | .call c => c.tokens

/-- The tokens of a call. -/
def Call.tokens : Call → List String
  | ⟨callee, _, args, _⟩ => (callee.name ++ "(") :: (argumentTokens args ++ [")"])

/-- The tokens of arguments, with commas between them. -/
def argumentTokens : List Expr → List String
  | [] => []
  | [e] => e.tokens
  | e :: es => e.tokens ++ "," :: argumentTokens es

end

theorem Expr.tokens_typeTest (e : Expr) (name : Identifier) (span span' : Span) :
    (Expr.typeTest e (.single name span) span').tokens = e.tokens ++ ["is", name.name] := rfl

theorem Expr.tokens_typeCast (e : Expr) (name : Identifier) (span span' : Span) :
    (Expr.typeCast e (.single name span) span').tokens = e.tokens ++ ["as", name.name] := rfl

/-- A member is written like the expression that it is. -/
theorem Member.tokens_toExpr (m : Member) : m.toExpr.tokens = m.tokens := by
  cases m <;> rfl

/-- A plain expression as it is written: its tokens on one line, with one blank between them. -/
def Expr.print (e : Expr) : String := " ".intercalate e.tokens

mutual

/-- How deep the constructs of an expression lie in one another: expressions in parentheses, in
brackets and among arguments, and types. -/
def Expr.nesting : Expr → Nat
  | .paren inner _ => inner.nesting + 1
  | .call c => c.nesting
  | .index target access _ => max target.nesting access.nesting
  | .nonNull operand _ => operand.nesting
  | .typeTest e _ _ | .typeCast e _ _ => max e.nesting 1
  | .unary _ operand _ => operand.nesting
  | .binary left _ right _ => max left.nesting right.nesting
  | _ => 0

/-- How deep the constructs of an access lie in one another. -/
def Access.nesting : Access → Nat
  | .dot member _ | .nullSafe member _ => member.nesting
  | .bracket index _ => index.nesting + 1

/-- How deep the constructs of a member lie in one another. -/
def Member.nesting : Member → Nat
  | .identifier _ => 0
  | .call c => c.nesting

/-- How deep the constructs of a call lie in one another. -/
def Call.nesting : Call → Nat
  | ⟨_, _, args, _⟩ => argumentNesting args

/-- How deep the constructs of arguments lie in one another. -/
def argumentNesting : List Expr → Nat
  | [] => 0
  | e :: es => max (e.nesting + 1) (argumentNesting es)

end

example : (Expr.binary (.identifier ⟨"a", .plain, ⟨0, 0⟩⟩) .add
    (.call ⟨⟨"f", .plain, ⟨0, 0⟩⟩, .identifier, [], ⟨0, 0⟩⟩) ⟨0, 0⟩).print = "a + f( )" := by
  decide +kernel

end PklSyntax
