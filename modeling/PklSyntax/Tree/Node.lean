import PklSyntax.Tree.Basic

/-!
# The uniform view of a tree

A tree is typed by what each part may hold. For what treats all parts alike, such as walking,
comparing and printing, every part is also a *node*: it has a kind, a span and a list of named
fields, which hold nodes or plain values. The fields stand in one fixed order for each kind, and
that order is the order of every walk and listing.

Spans are no fields, and neither is the name of the file that a module was read from: the fields
are what remains of a node when it is forgotten where it was read.

## Main definitions

* `Node`: any part of a tree.
* `NodeKind`, `NodeKind.name`, `Node.kind`, `Node.span`.
* `FieldValue`, `Field`, `Node.fields`, `Node.children`.
-/

namespace PklSyntax

/-- The kinds of nodes. -/
inductive NodeKind where
  | module
  | identifier
  | docComment
  | boolLit
  | nullLit
  | intLit
  | floatLit
  | durationLit
  | dataSizeLit
  | textSegment
  | escapeSegment
  | interpolation
  | stringLit
  | namedType
  | genericType
  | constrainedType
  | nullableType
  | defaultType
  | unionType
  | functionType
  | stringLiteralType
  | unaryExpr
  | binaryExpr
  | typeTestExpr
  | typeCastExpr
  | nonNullExpr
  | ifExpr
  | letExpr
  | param
  | lambdaExpr
  | callExpr
  | dotAccess
  | nullSafeAccess
  | bracketAccess
  | indexExpr
  | newExpr
  | amendExpr
  | parenExpr
  | amendedValue
  | objectBody
  | objectForm
  | mappingEntry
  | predicateEntry
  | fieldAmend
  | spreadMember
  | whenGenerator
  | forGenerator
  | elementMember
  | typeParameter
  | annotation
  | typedInit
  | typeOnly
  | propertyDecl
  | functionDecl
  | classDecl
  | typeAliasDecl
  | moduleClause
  | importDecl
  | extendsClause
  | amendsClause
  deriving Repr, DecidableEq, Inhabited

/-- The name under which nodes of a kind are listed. -/
def NodeKind.name : NodeKind → String
  | module => "Module"
  | identifier => "Identifier"
  | docComment => "DocComment"
  | boolLit => "BoolLit"
  | nullLit => "NullLit"
  | intLit => "IntLit"
  | floatLit => "FloatLit"
  | durationLit => "DurationLit"
  | dataSizeLit => "DataSizeLit"
  | textSegment => "TextSegment"
  | escapeSegment => "EscapeSegment"
  | interpolation => "Interpolation"
  | stringLit => "StringLit"
  | namedType => "NamedType"
  | genericType => "GenericType"
  | constrainedType => "ConstrainedType"
  | nullableType => "NullableType"
  | defaultType => "DefaultType"
  | unionType => "UnionType"
  | functionType => "FunctionType"
  | stringLiteralType => "StringLiteralType"
  | unaryExpr => "UnaryExpr"
  | binaryExpr => "BinaryExpr"
  | typeTestExpr => "TypeTestExpr"
  | typeCastExpr => "TypeCastExpr"
  | nonNullExpr => "NonNullExpr"
  | ifExpr => "IfExpr"
  | letExpr => "LetExpr"
  | param => "Param"
  | lambdaExpr => "LambdaExpr"
  | callExpr => "CallExpr"
  | dotAccess => "DotAccess"
  | nullSafeAccess => "NullSafeAccess"
  | bracketAccess => "BracketAccess"
  | indexExpr => "IndexExpr"
  | newExpr => "NewExpr"
  | amendExpr => "AmendExpr"
  | parenExpr => "ParenExpr"
  | amendedValue => "AmendedValue"
  | objectBody => "ObjectBody"
  | objectForm => "ObjectForm"
  | mappingEntry => "MappingEntry"
  | predicateEntry => "PredicateEntry"
  | fieldAmend => "FieldAmend"
  | spreadMember => "SpreadMember"
  | whenGenerator => "WhenGenerator"
  | forGenerator => "ForGenerator"
  | elementMember => "ElementMember"
  | typeParameter => "TypeParameter"
  | annotation => "Annotation"
  | typedInit => "TypedInit"
  | typeOnly => "TypeOnly"
  | propertyDecl => "PropertyDecl"
  | functionDecl => "FunctionDecl"
  | classDecl => "ClassDecl"
  | typeAliasDecl => "TypeAliasDecl"
  | moduleClause => "ModuleClause"
  | importDecl => "ImportDecl"
  | extendsClause => "ExtendsClause"
  | amendsClause => "AmendsClause"

/-- Any part of a syntax tree. -/
inductive Node where
  | module (m : Module)
  | moduleClause (clause : ModuleClause)
  | importDecl (decl : ImportDecl)
  | extendsClause (clause : ExtendsClause)
  | amendsClause (clause : AmendsClause)
  | typeAlias (decl : TypeAliasDecl)
  | classDecl (decl : ClassDecl)
  | function (decl : FunctionDecl)
  | property (decl : PropertyDecl)
  | propertyForm (form : PropertyForm)
  | annotation (a : Annotation)
  | typeParameter (param : TypeParameter)
  | param (param : Param)
  | docComment (doc : DocComment)
  | identifier (name : Identifier)
  | number (literal : NumberLiteral)
  | string (literal : StringLiteral)
  | segment (segment : Segment)
  | expr (expr : Expr)
  | call (c : Call)
  | access (access : Access)
  | type (type : TypeExpr)
  | namedType (type : NamedType)
  | objectBody (body : ObjectBody)
  | objectForm (form : ObjectForm)
  | objectMember (member : ObjectMember)

namespace Node

/-- The node of a declaration. -/
def ofDeclaration : Declaration → Node
  | .moduleClause clause => moduleClause clause
  | .importDecl decl => importDecl decl
  | .extendsClause clause => extendsClause clause
  | .amendsClause clause => amendsClause clause
  | .typeAlias decl => typeAlias decl
  | .classDecl decl => classDecl decl
  | .function decl => function decl
  | .property decl => property decl

/-- The node of a member of a class. -/
def ofClassMember : ClassMember → Node
  | .property decl => property decl
  | .function decl => function decl

/-- The node of a member of an object body. -/
def ofObjectMember : ObjectMember → Node
  | .property decl => property decl
  | .function decl => function decl
  | member => objectMember member

/-- The node of what follows the name of a property. -/
def ofPropertyForm : PropertyForm → Node
  | .object form => objectForm form
  | form => propertyForm form

/-- The node of the value of an entry. -/
def ofEntryValue : EntryValue → Node
  | .expr value => expr value
  | .object form => objectForm form

/-- The node of a selected member. -/
def ofMember : Member → Node
  | .identifier name => identifier name
  | .call c => call c

end Node

/-! ### Kinds and spans -/

/-- The kind of a number. -/
def NumberLiteral.nodeKind : NumberLiteral → NodeKind
  | int _ => .intLit
  | float _ => .floatLit

/-- The kind of a segment. -/
def Segment.nodeKind : Segment → NodeKind
  | text .. => .textSegment
  | escape .. => .escapeSegment
  | interpolation .. => .interpolation

/-- The kind of an expression. -/
def Expr.nodeKind : Expr → NodeKind
  | bool .. => .boolLit
  | null .. => .nullLit
  | number literal => literal.nodeKind
  | duration .. => .durationLit
  | dataSize .. => .dataSizeLit
  | string _ => .stringLit
  | identifier _ => .identifier
  | unary .. => .unaryExpr
  | binary .. => .binaryExpr
  | typeTest .. => .typeTestExpr
  | typeCast .. => .typeCastExpr
  | nonNull .. => .nonNullExpr
  | conditional .. => .ifExpr
  | letIn .. => .letExpr
  | lambda .. => .lambdaExpr
  | call _ => .callExpr
  | index .. => .indexExpr
  | new .. => .newExpr
  | amend .. => .amendExpr
  | paren .. => .parenExpr
  | amended .. => .amendedValue

/-- The kind of an access. -/
def Access.nodeKind : Access → NodeKind
  | dot .. => .dotAccess
  | nullSafe .. => .nullSafeAccess
  | bracket .. => .bracketAccess

/-- The kind of a type. -/
def TypeExpr.nodeKind : TypeExpr → NodeKind
  | named _ => .namedType
  | generic .. => .genericType
  | constrained .. => .constrainedType
  | nullable .. => .nullableType
  | default .. => .defaultType
  | union .. => .unionType
  | function .. => .functionType
  | stringLiteral .. => .stringLiteralType

/-- The kind of a member of an object body. -/
def ObjectMember.nodeKind : ObjectMember → NodeKind
  | property _ => .propertyDecl
  | function _ => .functionDecl
  | mappingEntry .. => .mappingEntry
  | predicateEntry .. => .predicateEntry
  | fieldAmend .. => .fieldAmend
  | spread .. => .spreadMember
  | whenGenerator .. => .whenGenerator
  | forGenerator .. => .forGenerator
  | element .. => .elementMember

/-- The kind of what follows the name of a property. -/
def PropertyForm.nodeKind : PropertyForm → NodeKind
  | object _ => .objectForm
  | init .. => .typedInit
  | typeOnly .. => .typeOnly

namespace Node

/-- The kind of a node. -/
def kind : Node → NodeKind
  | module _ => .module
  | moduleClause _ => .moduleClause
  | importDecl _ => .importDecl
  | extendsClause _ => .extendsClause
  | amendsClause _ => .amendsClause
  | typeAlias _ => .typeAliasDecl
  | classDecl _ => .classDecl
  | function _ => .functionDecl
  | property _ => .propertyDecl
  | propertyForm form => form.nodeKind
  | annotation _ => NodeKind.annotation
  | typeParameter _ => .typeParameter
  | param _ => .param
  | docComment _ => .docComment
  | identifier _ => .identifier
  | number literal => literal.nodeKind
  | string _ => .stringLit
  | segment s => s.nodeKind
  | expr e => e.nodeKind
  | call _ => .callExpr
  | access a => a.nodeKind
  | type t => t.nodeKind
  | namedType _ => .namedType
  | objectBody _ => .objectBody
  | objectForm _ => .objectForm
  | objectMember member => member.nodeKind

/-- The span of a node. -/
def span : Node → Span
  | module m => m.span
  | moduleClause clause => clause.span
  | importDecl decl => decl.span
  | extendsClause clause => clause.span
  | amendsClause clause => clause.span
  | typeAlias decl => decl.span
  | classDecl decl => decl.span
  | function decl => decl.span
  | property decl => decl.span
  | propertyForm form => form.span
  | annotation a => a.span
  | typeParameter p => p.span
  | param p => p.span
  | docComment doc => doc.span
  | identifier name => name.span
  | number literal => literal.span
  | string literal => literal.span
  | segment s => s.span
  | expr e => e.span
  | call c => c.span
  | access a => a.span
  | type t => t.span
  | namedType t => t.span
  | objectBody body => body.span
  | objectForm form => form.span
  | objectMember member => member.span

end Node

/-! ### Fields -/

/-- What a field holds: nodes, nothing, or a plain value. A word is the value of an enumeration. -/
inductive FieldValue where
  | node (n : Node)
  | nodes (ns : List Node)
  | absent
  | text (value : String)
  | flag (value : Bool)
  | count (value : Nat)
  | word (value : String)
  | modifiers (value : Modifiers)

namespace FieldValue

/-- A field that holds a node, if there is one. -/
def ofOption {α : Type} (node : α → Node) : Option α → FieldValue
  | none => absent
  | some a => .node (node a)

/-- A field that holds the nodes of a list. -/
def ofList {α : Type} (node : α → Node) (as : List α) : FieldValue :=
  nodes (as.map node)

/-- A field that holds the nodes of a list, if there is one. -/
def ofOptionList {α : Type} (node : α → Node) : Option (List α) → FieldValue
  | none => absent
  | some as => ofList node as

/-- A field that holds a text, if there is one. -/
def ofOptionText : Option String → FieldValue
  | none => absent
  | some s => text s

/-- The nodes that a field holds. -/
def children : FieldValue → List Node
  | node n => [n]
  | nodes ns => ns
  | _ => []

@[simp] theorem children_node (n : Node) : (node n).children = [n] := rfl

@[simp] theorem children_absent : absent.children = [] := rfl

@[simp] theorem children_text (value : String) : (text value).children = [] := rfl

@[simp] theorem children_flag (value : Bool) : (flag value).children = [] := rfl

@[simp] theorem children_count (value : Nat) : (count value).children = [] := rfl

@[simp] theorem children_word (value : String) : (word value).children = [] := rfl

@[simp] theorem children_modifiers (value : Modifiers) : (modifiers value).children = [] := rfl

@[simp] theorem children_ofOptionText (o : Option String) : (ofOptionText o).children = [] := by
  cases o <;> rfl

@[simp] theorem children_ofOptionList {α : Type} (node : α → Node) (o : Option (List α)) :
    (ofOptionList node o).children = (o.getD []).map node := by
  cases o <;> rfl

@[simp] theorem children_ofOption {α : Type} (node : α → Node) (o : Option α) :
    (ofOption node o).children = o.toList.map node := by
  cases o <;> rfl

@[simp] theorem children_ofList {α : Type} (node : α → Node) (as : List α) :
    (ofList node as).children = as.map node := rfl

end FieldValue

/-- A field with its name. -/
structure Field where
  name : String
  value : FieldValue

/-- The fields of an identifier. -/
def Identifier.fields (i : Identifier) : List Field :=
  [⟨"name", .text i.name⟩, ⟨"kind", .word i.kind.name⟩]

/-- The fields of a doc comment. -/
def DocComment.fields (doc : DocComment) : List Field :=
  [⟨"text", .text doc.text⟩]

/-- The fields of a number. -/
def NumberLiteral.fields : NumberLiteral → List Field
  | int i => [⟨"base", .count i.base.radix⟩, ⟨"digits", .text i.digits⟩]
  | float f => [⟨"text", .text f.text⟩]

/-- The fields of a string. -/
def StringLiteral.fields (s : StringLiteral) : List Field :=
  [⟨"kind", .word s.kind.name⟩, ⟨"multiline", .flag s.multiline⟩, ⟨"pounds", .count s.pounds⟩,
    ⟨"segments", .ofList .segment s.segments⟩,
    ⟨"indent", .ofOptionText s.indent⟩]

/-- The fields of a segment. -/
def Segment.fields : Segment → List Field
  | text t _ => [⟨"text", .text t⟩]
  | escape c _ => [⟨"value", .text (String.singleton c)⟩]
  | interpolation e _ => [⟨"expr", .node (.expr e)⟩]

/-- The fields of a name for a type. -/
def NamedType.fields (t : NamedType) : List Field :=
  [⟨"path", .ofList .identifier t.path⟩]

/-- The fields of a call. -/
def Call.fields (c : Call) : List Field :=
  [⟨"callee", .node (.identifier c.callee)⟩, ⟨"kind", .word c.kind.name⟩,
    ⟨"args", .ofList .expr c.args⟩]

/-- The fields of an expression. -/
def Expr.fields : Expr → List Field
  | bool value _ => [⟨"value", .flag value⟩]
  | null _ => []
  | number n => n.fields
  | duration n unit _ => [⟨"amount", .node (.number n)⟩, ⟨"unit", .text unit.symbol⟩]
  | dataSize n unit _ => [⟨"amount", .node (.number n)⟩, ⟨"unit", .text unit.symbol⟩]
  | string s => s.fields
  | identifier i => i.fields
  | unary op operand _ => [⟨"op", .text op.symbol⟩, ⟨"operand", .node (.expr operand)⟩]
  | binary left op right _ =>
    [⟨"left", .node (.expr left)⟩, ⟨"op", .text op.symbol⟩, ⟨"right", .node (.expr right)⟩]
  | typeTest e t _ => [⟨"expr", .node (.expr e)⟩, ⟨"type_expr", .node (.type t)⟩]
  | typeCast e t _ => [⟨"expr", .node (.expr e)⟩, ⟨"type_expr", .node (.type t)⟩]
  | nonNull operand _ => [⟨"operand", .node (.expr operand)⟩]
  | conditional condition thenBranch elseBranch _ =>
    [⟨"condition", .node (.expr condition)⟩, ⟨"then_branch", .node (.expr thenBranch)⟩,
      ⟨"else_branch", .node (.expr elseBranch)⟩]
  | letIn name t value body _ =>
    [⟨"name", .node (.identifier name)⟩, ⟨"type_expr", .ofOption .type t⟩,
      ⟨"value", .node (.expr value)⟩, ⟨"body", .node (.expr body)⟩]
  | lambda params body _ =>
    [⟨"params", .ofList .param params⟩, ⟨"body", .node (.expr body)⟩]
  | call c => c.fields
  | index target access _ =>
    [⟨"target", .node (.expr target)⟩, ⟨"access", .node (.access access)⟩]
  | new t body _ => [⟨"type_expr", .ofOption .type t⟩, ⟨"body", .node (.objectBody body)⟩]
  | amend target body _ =>
    [⟨"target", .node (.expr target)⟩, ⟨"body", .node (.objectBody body)⟩]
  | paren inner _ => [⟨"inner", .node (.expr inner)⟩]
  | amended base layers _ =>
    [⟨"base", .node (.expr base)⟩, ⟨"layers", .ofList .objectBody layers⟩]

/-- The fields of an access. -/
def Access.fields : Access → List Field
  | dot member _ => [⟨"member", .node (.ofMember member)⟩]
  | nullSafe member _ => [⟨"member", .node (.ofMember member)⟩]
  | bracket index _ => [⟨"index", .node (.expr index)⟩]

/-- The fields of a parameter. -/
def Param.fields (p : Param) : List Field :=
  [⟨"name", .node (.identifier p.name)⟩, ⟨"type_expr", .ofOption .type p.type⟩]

/-- The fields of a type. -/
def TypeExpr.fields : TypeExpr → List Field
  | named t => t.fields
  | generic base args _ => [⟨"base", .node (.namedType base)⟩, ⟨"args", .ofList .type args⟩]
  | constrained base predicates _ =>
    [⟨"base", .node (.type base)⟩, ⟨"predicates", .ofList .expr predicates⟩]
  | nullable inner _ => [⟨"inner", .node (.type inner)⟩]
  | default inner _ => [⟨"inner", .node (.type inner)⟩]
  | union members _ => [⟨"members", .ofList .type members⟩]
  | function params result _ =>
    [⟨"params", .ofList .type params⟩, ⟨"return_type", .node (.type result)⟩]
  | stringLiteral value _ => [⟨"value", .node (.string value)⟩]

/-- The fields of an object body. -/
def ObjectBody.fields (b : ObjectBody) : List Field :=
  [⟨"members", .ofList .ofObjectMember b.members⟩]

/-- The fields of object bodies that stand as a value. -/
def ObjectForm.fields (f : ObjectForm) : List Field :=
  [⟨"bodies", .ofList .objectBody f.bodies⟩]

/-- The fields of what follows the name of a property. -/
def PropertyForm.fields : PropertyForm → List Field
  | object form => form.fields
  | init t value _ => [⟨"type_expr", .ofOption .type t⟩, ⟨"value", .node (.expr value)⟩]
  | typeOnly t _ => [⟨"type_expr", .node (.type t)⟩]

/-- The fields that end every declaration: its doc comment and its annotations. -/
def documentationFields (doc : Option DocComment) (annotations : List Annotation) : List Field :=
  [⟨"doc_comment", .ofOption .docComment doc⟩, ⟨"annotations", .ofList Node.annotation annotations⟩]

/-- The fields of a property. -/
def PropertyDecl.fields (p : PropertyDecl) : List Field :=
  [⟨"modifiers", .modifiers p.modifiers⟩, ⟨"name", .node (.identifier p.name)⟩,
    ⟨"form", .node (.ofPropertyForm p.form)⟩] ++ documentationFields p.doc p.annotations

/-- The fields of a function. -/
def FunctionDecl.fields (f : FunctionDecl) : List Field :=
  [⟨"modifiers", .modifiers f.modifiers⟩, ⟨"name", .node (.identifier f.name)⟩,
    ⟨"type_params", .ofList .typeParameter f.typeParams⟩, ⟨"params", .ofList .param f.params⟩,
    ⟨"return_type", .ofOption .type f.result⟩, ⟨"body", .ofOption .expr f.body⟩] ++
    documentationFields f.doc f.annotations

/-- The fields of a member of an object body. -/
def ObjectMember.fields : ObjectMember → List Field
  | property decl => decl.fields
  | function decl => decl.fields
  | mappingEntry key value _ =>
    [⟨"key", .node (.expr key)⟩, ⟨"value", .node (.ofEntryValue value)⟩]
  | predicateEntry predicate value _ =>
    [⟨"predicate", .node (.expr predicate)⟩, ⟨"value", .node (.ofEntryValue value)⟩]
  | fieldAmend index body _ =>
    [⟨"index", .node (.expr index)⟩, ⟨"body", .node (.objectBody body)⟩]
  | spread e nullable _ => [⟨"expr", .node (.expr e)⟩, ⟨"nullable", .flag nullable⟩]
  | whenGenerator condition thenBody elseBody _ =>
    [⟨"condition", .node (.expr condition)⟩, ⟨"then_body", .node (.objectBody thenBody)⟩,
      ⟨"else_body", .ofOption .objectBody elseBody⟩]
  | forGenerator bindings iterable body _ =>
    [⟨"bindings", .ofList .identifier bindings⟩, ⟨"iterable", .node (.expr iterable)⟩,
      ⟨"body", .node (.objectBody body)⟩]
  | element e _ => [⟨"expr", .node (.expr e)⟩]

/-- The fields of a type parameter. -/
def TypeParameter.fields (p : TypeParameter) : List Field :=
  [⟨"variance", .word p.variance.name⟩, ⟨"type_expr", .node (.type p.type)⟩]

/-- The fields of an annotation. -/
def Annotation.fields (a : Annotation) : List Field :=
  [⟨"name", .node (.namedType a.name)⟩, ⟨"body", .ofOption .objectBody a.body⟩]

/-- The fields of a class. -/
def ClassDecl.fields (c : ClassDecl) : List Field :=
  [⟨"modifiers", .modifiers c.modifiers⟩, ⟨"name", .node (.identifier c.name)⟩,
    ⟨"type_params", .ofList .typeParameter c.typeParams⟩,
    ⟨"extends", .ofOption .type c.parent⟩,
    ⟨"body", .ofOptionList .ofClassMember c.body⟩] ++
    documentationFields c.doc c.annotations

/-- The fields of a name for a type. -/
def TypeAliasDecl.fields (t : TypeAliasDecl) : List Field :=
  [⟨"modifiers", .modifiers t.modifiers⟩, ⟨"name", .node (.identifier t.name)⟩,
    ⟨"type_params", .ofList .typeParameter t.typeParams⟩,
    ⟨"aliased", .node (.type t.aliased)⟩] ++
    documentationFields t.doc t.annotations

/-- The fields of a module clause. -/
def ModuleClause.fields (m : ModuleClause) : List Field :=
  [⟨"modifiers", .modifiers m.modifiers⟩, ⟨"name", .node (.namedType m.name)⟩] ++
    documentationFields m.doc m.annotations

/-- The fields of an import. -/
def ImportDecl.fields (i : ImportDecl) : List Field :=
  [⟨"source", .text i.source⟩, ⟨"globbed", .flag i.globbed⟩,
    ⟨"alias", .ofOption .identifier i.localName⟩] ++
    documentationFields i.doc i.annotations

namespace Node

/-- The fields of a node, in the order in which they are listed. -/
def fields : Node → List Field
  | module m => [⟨"declarations", .ofList .ofDeclaration m.declarations⟩]
  | moduleClause clause => clause.fields
  | importDecl decl => decl.fields
  | extendsClause clause =>
    ⟨"source", .text clause.source⟩ :: documentationFields clause.doc clause.annotations
  | amendsClause clause =>
    ⟨"source", .text clause.source⟩ :: documentationFields clause.doc clause.annotations
  | typeAlias decl => decl.fields
  | classDecl decl => decl.fields
  | function decl => decl.fields
  | property decl => decl.fields
  | propertyForm form => form.fields
  | annotation a => a.fields
  | typeParameter p => p.fields
  | param p => p.fields
  | docComment doc => doc.fields
  | identifier name => name.fields
  | number literal => literal.fields
  | string literal => literal.fields
  | segment s => s.fields
  | expr e => e.fields
  | call c => c.fields
  | access a => a.fields
  | type t => t.fields
  | namedType t => t.fields
  | objectBody body => body.fields
  | objectForm form => form.fields
  | objectMember member => member.fields

/-- The nodes directly below a node, in the order of its fields. -/
def children (n : Node) : List Node :=
  n.fields.flatMap fun field => field.value.children

end Node

end PklSyntax
