import PklSyntax.Tree.Token
import PklSyntax.Tree.Operator

/-!
# Syntax trees

The tree of a module. Expressions, types, strings and object bodies hold one another, so their
types are declared together; declarations stand on top of them. Every part carries the span of
text it was read from, and the span of a part lies within the span of what it is part of.

## Main definitions

* `Expr`, `TypeExpr`, `StringLiteral`, `Segment`, `Access`, `Member`, `Call`, `Param`.
* `ObjectBody`, `ObjectForm`, `EntryValue`, `ObjectMember`, with `PropertyDecl`, `FunctionDecl`,
  `Annotation` and `TypeParameter`, which occur both inside object bodies and as declarations.
* `ClassMember`, `ClassDecl`, `TypeAliasDecl`, `ModuleClause`, `ImportDecl`, `ExtendsClause`,
  `AmendsClause`, `Declaration`, `Module`.
-/

namespace PklSyntax

/-- How a call is written: after a name, as `read?`, or as `read*`. -/
inductive CallKind where
  | identifier
  | nullableRead
  | globbedRead
  deriving Repr, DecidableEq, Inhabited

/-- The word for a kind of call. -/
def CallKind.name : CallKind → String
  | identifier => "identifier"
  | nullableRead => "nullable-read"
  | globbedRead => "globbed-read"

theorem CallKind.name_injective : Function.Injective name := by
  intro a b
  cases a <;> cases b <;> decide

/-- The variance of a type parameter. -/
inductive Variance where
  | plain
  | contravariant
  | covariant
  deriving Repr, DecidableEq, Inhabited

/-- The word for a variance. -/
def Variance.name : Variance → String
  | plain => "plain"
  | contravariant => "in"
  | covariant => "out"

theorem Variance.name_injective : Function.Injective name := by
  intro a b
  cases a <;> cases b <;> decide

/-- The forms of a string: on one line, between triple quotes, or with `#` around its quotes. -/
inductive StringKind where
  | basic
  | multiline
  | custom
  deriving Repr, DecidableEq, Inhabited

/-- The word for a form of string. -/
def StringKind.name : StringKind → String
  | basic => "basic"
  | multiline => "multiline"
  | custom => "custom"

/-- A possibly qualified name that stands for a type, a module or an annotation. -/
structure NamedType where
  path : List Identifier
  span : Span
  deriving Repr, DecidableEq, Inhabited

/-- The parts of the name with dots between them. -/
def NamedType.name (type : NamedType) : String :=
  ".".intercalate (type.path.map Identifier.name)

mutual

/-- An expression. -/
inductive Expr where
  | bool (value : Bool) (span : Span)
  | null (span : Span)
  | number (literal : NumberLiteral)
  | duration (amount : NumberLiteral) (unit : DurationUnit) (span : Span)
  | dataSize (amount : NumberLiteral) (unit : DataSizeUnit) (span : Span)
  | string (literal : StringLiteral)
  | identifier (name : Identifier)
  | unary (op : UnaryOperator) (operand : Expr) (span : Span)
  | binary (left : Expr) (op : BinaryOperator) (right : Expr) (span : Span)
  | typeTest (expr : Expr) (type : TypeExpr) (span : Span)
  | typeCast (expr : Expr) (type : TypeExpr) (span : Span)
  | nonNull (operand : Expr) (span : Span)
  | conditional (condition thenBranch elseBranch : Expr) (span : Span)
  | letIn (name : Identifier) (type : Option TypeExpr) (value body : Expr) (span : Span)
  | lambda (params : List Param) (body : Expr) (span : Span)
  | call (c : Call)
  | index (target : Expr) (access : Access) (span : Span)
  | new (type : Option TypeExpr) (body : ObjectBody) (span : Span)
  | amend (target : Expr) (body : ObjectBody) (span : Span)
  | paren (inner : Expr) (span : Span)
  | amended (base : Expr) (layers : List ObjectBody) (span : Span)

/-- A string literal: `pounds` is the number of `#` on either side. A string between triple quotes
keeps the blanks before its closing quotes as `indent`; taking these off its lines is left to the
evaluator. `contentSpan` is the text between the quotes. -/
structure StringLiteral where
  multiline : Bool
  pounds : Nat
  segments : List Segment
  contentSpan : Span
  indent : Option String
  span : Span

/-- A piece of a string: text as it stands, a character given by an escape, or an expression. -/
inductive Segment where
  | text (text : String) (span : Span)
  | escape (value : Char) (span : Span)
  | interpolation (expr : Expr) (span : Span)

/-- What is selected from a value: a member, a member if the value is there, or an element. -/
inductive Access where
  | dot (member : Member) (span : Span)
  | nullSafe (member : Member) (span : Span)
  | bracket (index : Expr) (span : Span)

/-- A member that is selected by its name, or called. -/
inductive Member where
  | identifier (name : Identifier)
  | call (c : Call)

/-- A call. -/
structure Call where
  callee : Identifier
  kind : CallKind
  args : List Expr
  span : Span

/-- A parameter of a function. -/
structure Param where
  name : Identifier
  type : Option TypeExpr
  span : Span

/-- A type. -/
inductive TypeExpr where
  | named (type : NamedType)
  | generic (base : NamedType) (args : List TypeExpr) (span : Span)
  | constrained (base : TypeExpr) (predicates : List Expr) (span : Span)
  | nullable (inner : TypeExpr) (span : Span)
  | default (inner : TypeExpr) (span : Span)
  | union (members : List TypeExpr) (span : Span)
  | function (params : List TypeExpr) (result : TypeExpr) (span : Span)
  | stringLiteral (value : StringLiteral) (span : Span)

/-- The members between two braces. -/
structure ObjectBody where
  members : List ObjectMember
  span : Span

/-- Object bodies, one or more, that stand as the value of a member. -/
structure ObjectForm where
  bodies : List ObjectBody
  span : Span

/-- The value of an entry. -/
inductive EntryValue where
  | expr (value : Expr)
  | object (form : ObjectForm)

/-- A member of an object body. -/
inductive ObjectMember where
  | property (decl : PropertyDecl)
  | function (decl : FunctionDecl)
  | mappingEntry (key : Expr) (value : EntryValue) (span : Span)
  | predicateEntry (predicate : Expr) (value : EntryValue) (span : Span)
  | fieldAmend (index : Expr) (body : ObjectBody) (span : Span)
  | spread (expr : Expr) (nullable : Bool) (span : Span)
  | whenGenerator (condition : Expr) (thenBody : ObjectBody) (elseBody : Option ObjectBody)
      (span : Span)
  | forGenerator (bindings : List Identifier) (iterable : Expr) (body : ObjectBody) (span : Span)
  | element (expr : Expr) (span : Span)

/-- A parameter of a type. -/
structure TypeParameter where
  variance : Variance
  type : TypeExpr
  span : Span

/-- An annotation. -/
structure Annotation where
  name : NamedType
  body : Option ObjectBody
  span : Span

/-- What follows the name of a property: object bodies, a value with or without a type, or a type
alone. -/
inductive PropertyForm where
  | object (form : ObjectForm)
  | init (type : Option TypeExpr) (value : Expr) (span : Span)
  | typeOnly (type : TypeExpr) (span : Span)

/-- A property. -/
structure PropertyDecl where
  modifiers : Modifiers
  name : Identifier
  form : PropertyForm
  doc : Option DocComment
  annotations : List Annotation
  span : Span

/-- A function. -/
structure FunctionDecl where
  modifiers : Modifiers
  name : Identifier
  typeParams : List TypeParameter
  params : List Param
  result : Option TypeExpr
  body : Option Expr
  doc : Option DocComment
  annotations : List Annotation
  span : Span

end

/-- A member of a class. -/
inductive ClassMember where
  | property (decl : PropertyDecl)
  | function (decl : FunctionDecl)

/-- A class. Without braces it has no body; with nothing between them it has an empty one. -/
structure ClassDecl where
  modifiers : Modifiers
  name : Identifier
  typeParams : List TypeParameter
  parent : Option TypeExpr
  body : Option (List ClassMember)
  doc : Option DocComment
  annotations : List Annotation
  span : Span

/-- A name for a type. -/
structure TypeAliasDecl where
  modifiers : Modifiers
  name : Identifier
  typeParams : List TypeParameter
  aliased : TypeExpr
  doc : Option DocComment
  annotations : List Annotation
  span : Span

/-- The clause that names the module. -/
structure ModuleClause where
  modifiers : Modifiers
  name : NamedType
  doc : Option DocComment
  annotations : List Annotation
  span : Span

/-- An import of one module, or of all modules that match a pattern. -/
structure ImportDecl where
  source : String
  globbed : Bool
  localName : Option Identifier
  doc : Option DocComment
  annotations : List Annotation
  span : Span

/-- The clause that names the module to extend. -/
structure ExtendsClause where
  source : String
  doc : Option DocComment
  annotations : List Annotation
  span : Span

/-- The clause that names the module to amend. -/
structure AmendsClause where
  source : String
  doc : Option DocComment
  annotations : List Annotation
  span : Span

/-- A declaration of a module. -/
inductive Declaration where
  | moduleClause (clause : ModuleClause)
  | importDecl (decl : ImportDecl)
  | extendsClause (clause : ExtendsClause)
  | amendsClause (clause : AmendsClause)
  | typeAlias (decl : TypeAliasDecl)
  | classDecl (decl : ClassDecl)
  | function (decl : FunctionDecl)
  | property (decl : PropertyDecl)

/-- A module: the declarations of one text. -/
structure Module where
  declarations : List Declaration
  filename : String
  span : Span

/-! ### Spans -/

namespace Segment

/-- The span of a segment. -/
def span : Segment → Span
  | text _ span | escape _ span | interpolation _ span => span

end Segment

namespace StringLiteral

/-- The form of the string. -/
def kind (literal : StringLiteral) : StringKind :=
  if literal.pounds ≠ 0 then .custom else if literal.multiline then .multiline else .basic

/-- The string has no interpolation. -/
def isConstant (literal : StringLiteral) : Bool :=
  literal.segments.all fun
    | .interpolation .. => false
    | _ => true

/-- The text of a string without its interpolations. -/
def constantValue (literal : StringLiteral) : String :=
  String.join (literal.segments.map fun
    | .text text _ => text
    | .escape value _ => String.singleton value
    | .interpolation .. => "")

end StringLiteral

/-- The span of an expression. -/
def Expr.span : Expr → Span
  | bool _ span | null span | duration _ _ span | dataSize _ _ span | unary _ _ span
  | binary _ _ _ span | typeTest _ _ span | typeCast _ _ span | nonNull _ span
  | conditional _ _ _ span | letIn _ _ _ _ span | lambda _ _ span | index _ _ span
  | new _ _ span | amend _ _ span | paren _ span | amended _ _ span => span
  | number literal => literal.span
  | string literal => literal.span
  | identifier name => name.span
  | call c => c.span

/-- The span of an access. -/
def Access.span : Access → Span
  | dot _ span | nullSafe _ span | bracket _ span => span

/-- The span of a selected member. -/
def Member.span : Member → Span
  | identifier name => name.span
  | call c => c.span

namespace TypeExpr

/-- The span of a type. -/
def span : TypeExpr → Span
  | named type => type.span
  | generic _ _ span | constrained _ _ span | nullable _ span | default _ span | union _ span
  | function _ _ span | stringLiteral _ span => span

/-- The type with another span. -/
def withSpan (type : TypeExpr) (span : Span) : TypeExpr :=
  match type with
  | named type => named { type with span }
  | generic base args _ => generic base args span
  | constrained base predicates _ => constrained base predicates span
  | nullable inner _ => nullable inner span
  | default inner _ => default inner span
  | union members _ => union members span
  | function params result _ => function params result span
  | stringLiteral value _ => stringLiteral value span

@[simp] theorem span_withSpan (type : TypeExpr) (span : Span) :
    (type.withSpan span).span = span := by
  cases type <;> rfl

end TypeExpr

/-- The span of the value of an entry. -/
def EntryValue.span : EntryValue → Span
  | expr value => value.span
  | object form => form.span

/-- The span of a member of an object body. -/
def ObjectMember.span : ObjectMember → Span
  | property decl => decl.span
  | function decl => decl.span
  | mappingEntry _ _ span | predicateEntry _ _ span | fieldAmend _ _ span | spread _ _ span
  | whenGenerator _ _ _ span | forGenerator _ _ _ span | element _ span => span

/-- The span of what follows the name of a property. -/
def PropertyForm.span : PropertyForm → Span
  | object form => form.span
  | init _ _ span | typeOnly _ span => span

/-- The span of a member of a class. -/
def ClassMember.span : ClassMember → Span
  | property decl => decl.span
  | function decl => decl.span

/-- The span of a declaration. -/
def Declaration.span : Declaration → Span
  | moduleClause clause => clause.span
  | importDecl decl => decl.span
  | extendsClause clause => clause.span
  | amendsClause clause => clause.span
  | typeAlias decl => decl.span
  | classDecl decl => decl.span
  | function decl => decl.span
  | property decl => decl.span

end PklSyntax
