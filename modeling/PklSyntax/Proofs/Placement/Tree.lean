import PklSyntax.Diagnostic.Problem
import PklSyntax.Tree.Grouping
import PklSyntax.Tree.Shape

/-!
# Placed trees

A tree is *placed* when the offsets in its spans are replaced by others and the text in its strings
is rewritten. The offset at which a doc comment ends is replaced in a way of its own, since a doc
comment reaches to the end of its line. All else stays: the shape of a placed tree only depends on how
the text in its strings is rewritten, and grouping infix operators commutes with placing their
operands.

## Main definitions

* `Placement`: what replaces offsets and rewrites text.
* `Expr.placed`, `TypeExpr.placed`, `Declaration.placed` and so on; `Node.placed` for any part.
* `Diagnostic.placed`, `Problem.placed`: diagnostics and their causes.

## Main statements

* `Node.children_placed`, `Node.outline_placed`: what a placed node holds.
* `Node.sameShapes_placed`: trees placed with the same rewriting of text have the same shape.
* `groupInfix_placed`: grouping infix operators commutes with placing.
-/

namespace PklSyntax

/-- Other offsets for those of a tree, in the same order, and other text for that of its strings. -/
structure Placement where
  offset : Int → Int
  docStop : Int → Int
  text : String → String
  mono : ∀ {i j : Int}, i ≤ j → offset i ≤ offset j

namespace Placement

/-- The span between the new offsets. -/
def span (P : Placement) (s : Span) : Span := ⟨P.offset s.start, P.offset s.stop⟩

/-- Only the text in strings is rewritten. -/
def ofText (f : String → String) : Placement := ⟨id, id, f, id⟩

end Placement

variable {α β : Type} {P Q : Placement}

/-! ### Spans and atoms -/

@[simp] theorem Placement.start_span (s : Span) : (P.span s).start = P.offset s.start := rfl

@[simp] theorem Placement.stop_span (s : Span) : (P.span s).stop = P.offset s.stop := rfl

@[simp] theorem Placement.span_cover (a b : Span) :
    (P.span a).cover (P.span b) = P.span (a.cover b) := by
  have hmin (i j : Int) : min (P.offset i) (P.offset j) = P.offset (min i j) := by
    rcases Int.le_total i j with h | h
    · rw [Int.min_eq_left h, Int.min_eq_left (P.mono h)]
    · rw [Int.min_eq_right h, Int.min_eq_right (P.mono h)]
  have hmax (i j : Int) : max (P.offset i) (P.offset j) = P.offset (max i j) := by
    rcases Int.le_total i j with h | h
    · rw [Int.max_eq_right h, Int.max_eq_right (P.mono h)]
    · rw [Int.max_eq_left h, Int.max_eq_left (P.mono h)]
  simp only [Span.cover, Placement.span, hmin, hmax]

/-- The placed identifier. -/
def Identifier.placed (P : Placement) (name : Identifier) : Identifier :=
  { name with span := P.span name.span }

/-- The placed doc comment. -/
def DocComment.placed (P : Placement) (doc : DocComment) : DocComment :=
  { doc with span := ⟨P.offset doc.span.start, P.docStop doc.span.stop⟩ }

/-- The placed number. -/
def NumberLiteral.placed (P : Placement) : NumberLiteral → NumberLiteral
  | int literal => int { literal with span := P.span literal.span }
  | float literal => float { literal with span := P.span literal.span }

/-- The placed name for a type. -/
def NamedType.placed (P : Placement) (type : NamedType) : NamedType where
  path := type.path.map (Identifier.placed P)
  span := P.span type.span

/-! ### Trees -/

mutual


/-- The placed expression. -/
def Expr.placed (P : Placement) : Expr → Expr
  | .bool value span => .bool value (P.span span)
  | .null span => .null (P.span span)
  | .number literal => .number (literal.placed P)
  | .duration amount unit span => .duration (amount.placed P) unit (P.span span)
  | .dataSize amount unit span => .dataSize (amount.placed P) unit (P.span span)
  | .string literal => .string (literal.placed P)
  | .identifier name => .identifier (name.placed P)
  | .unary op operand span => .unary op (operand.placed P) (P.span span)
  | .binary left op right span => .binary (left.placed P) op (right.placed P) (P.span span)
  | .typeTest e type span => .typeTest (e.placed P) (type.placed P) (P.span span)
  | .typeCast e type span => .typeCast (e.placed P) (type.placed P) (P.span span)
  | .nonNull operand span => .nonNull (operand.placed P) (P.span span)
  | .conditional condition thenBranch elseBranch span =>
    .conditional (condition.placed P) (thenBranch.placed P) (elseBranch.placed P) (P.span span)
  | .letIn name type value body span =>
    .letIn (name.placed P) (match type with | none => none | some t => some (t.placed P))
      (value.placed P) (body.placed P) (P.span span)
  | .lambda params body span =>
    .lambda (params.map (·.placed P)) (body.placed P) (P.span span)
  | .call c => .call (c.placed P)
  | .index target access span => .index (target.placed P) (access.placed P) (P.span span)
  | .new type body span =>
    .new (match type with | none => none | some t => some (t.placed P)) (body.placed P)
      (P.span span)
  | .amend target body span => .amend (target.placed P) (body.placed P) (P.span span)
  | .paren inner span => .paren (inner.placed P) (P.span span)
  | .amended base layers span =>
    .amended (base.placed P) (layers.map (·.placed P)) (P.span span)
termination_by x => sizeOf x

/-- The placed string. -/
def StringLiteral.placed (P : Placement) : StringLiteral → StringLiteral
  | ⟨multiline, pounds, segments, contentSpan, indent, span⟩ =>
    ⟨multiline, pounds, segments.map (·.placed P), P.span contentSpan, indent, P.span span⟩
termination_by x => sizeOf x

/-- The placed segment. -/
def Segment.placed (P : Placement) : Segment → Segment
  | .text text span => .text (P.text text) (P.span span)
  | .escape value span => .escape value (P.span span)
  | .interpolation e span => .interpolation (e.placed P) (P.span span)
termination_by x => sizeOf x

/-- The placed access. -/
def Access.placed (P : Placement) : Access → Access
  | .dot member span => .dot (member.placed P) (P.span span)
  | .nullSafe member span => .nullSafe (member.placed P) (P.span span)
  | .bracket index span => .bracket (index.placed P) (P.span span)
termination_by x => sizeOf x

/-- The placed member. -/
def Member.placed (P : Placement) : Member → Member
  | .identifier name => .identifier (name.placed P)
  | .call c => .call (c.placed P)
termination_by x => sizeOf x

/-- The placed call. -/
def Call.placed (P : Placement) : Call → Call
  | ⟨callee, kind, args, span⟩ =>
    ⟨callee.placed P, kind, args.map (·.placed P), P.span span⟩
termination_by x => sizeOf x

/-- The placed parameter. -/
def Param.placed (P : Placement) : Param → Param
  | ⟨name, type, span⟩ =>
    ⟨name.placed P, match type with | none => none | some t => some (t.placed P), P.span span⟩
termination_by x => sizeOf x

/-- The placed type. -/
def TypeExpr.placed (P : Placement) : TypeExpr → TypeExpr
  | .named type => .named (type.placed P)
  | .generic base args span => .generic (base.placed P) (args.map (·.placed P)) (P.span span)
  | .constrained base predicates span =>
    .constrained (base.placed P) (predicates.map (·.placed P)) (P.span span)
  | .nullable inner span => .nullable (inner.placed P) (P.span span)
  | .default inner span => .default (inner.placed P) (P.span span)
  | .union members span => .union (members.map (·.placed P)) (P.span span)
  | .function params result span =>
    .function (params.map (·.placed P)) (result.placed P) (P.span span)
  | .stringLiteral value span => .stringLiteral (value.placed P) (P.span span)
termination_by x => sizeOf x

/-- The placed object body. -/
def ObjectBody.placed (P : Placement) : ObjectBody → ObjectBody
  | ⟨members, span⟩ => ⟨members.map (·.placed P), P.span span⟩
termination_by x => sizeOf x

/-- The placed object bodies. -/
def ObjectForm.placed (P : Placement) : ObjectForm → ObjectForm
  | ⟨bodies, span⟩ => ⟨bodies.map (·.placed P), P.span span⟩
termination_by x => sizeOf x

/-- The placed value of an entry. -/
def EntryValue.placed (P : Placement) : EntryValue → EntryValue
  | .expr value => .expr (value.placed P)
  | .object form => .object (form.placed P)
termination_by x => sizeOf x

/-- The placed member of an object body. -/
def ObjectMember.placed (P : Placement) : ObjectMember → ObjectMember
  | .property decl => .property (decl.placed P)
  | .function decl => .function (decl.placed P)
  | .mappingEntry key value span => .mappingEntry (key.placed P) (value.placed P) (P.span span)
  | .predicateEntry predicate value span =>
    .predicateEntry (predicate.placed P) (value.placed P) (P.span span)
  | .fieldAmend index body span => .fieldAmend (index.placed P) (body.placed P) (P.span span)
  | .spread e nullable span => .spread (e.placed P) nullable (P.span span)
  | .whenGenerator condition thenBody elseBody span =>
    .whenGenerator (condition.placed P) (thenBody.placed P)
      (match elseBody with | none => none | some b => some (b.placed P)) (P.span span)
  | .forGenerator bindings iterable body span =>
    .forGenerator (bindings.map (·.placed P)) (iterable.placed P) (body.placed P)
      (P.span span)
  | .element e span => .element (e.placed P) (P.span span)
termination_by x => sizeOf x

/-- The placed type parameter. -/
def TypeParameter.placed (P : Placement) : TypeParameter → TypeParameter
  | ⟨variance, type, span⟩ => ⟨variance, type.placed P, P.span span⟩
termination_by x => sizeOf x

/-- The placed annotation. -/
def Annotation.placed (P : Placement) : Annotation → Annotation
  | ⟨name, body, span⟩ =>
    ⟨name.placed P, match body with | none => none | some b => some (b.placed P), P.span span⟩
termination_by x => sizeOf x

/-- What follows the name of a property, placed. -/
def PropertyForm.placed (P : Placement) : PropertyForm → PropertyForm
  | .object form => .object (form.placed P)
  | .init type value span =>
    .init (match type with | none => none | some t => some (t.placed P)) (value.placed P)
      (P.span span)
  | .typeOnly type span => .typeOnly (type.placed P) (P.span span)
termination_by x => sizeOf x

/-- The placed property. -/
def PropertyDecl.placed (P : Placement) : PropertyDecl → PropertyDecl
  | ⟨modifiers, name, form, doc, annotations, span⟩ =>
    ⟨modifiers, name.placed P, form.placed P, doc.map (·.placed P),
      annotations.map (·.placed P), P.span span⟩
termination_by x => sizeOf x

/-- The placed function. -/
def FunctionDecl.placed (P : Placement) : FunctionDecl → FunctionDecl
  | ⟨modifiers, name, typeParams, params, result, body, doc, annotations, span⟩ =>
    ⟨modifiers, name.placed P, typeParams.map (·.placed P), params.map (·.placed P),
      match result with | none => none | some t => some (t.placed P),
      match body with | none => none | some e => some (e.placed P),
      doc.map (·.placed P), annotations.map (·.placed P), P.span span⟩
termination_by x => sizeOf x
end

/-- The placed member of a class. -/
def ClassMember.placed (P : Placement) : ClassMember → ClassMember
  | property decl => property (decl.placed P)
  | function decl => function (decl.placed P)

/-- The placed class. -/
def ClassDecl.placed (P : Placement) (decl : ClassDecl) : ClassDecl where
  modifiers := decl.modifiers
  name := decl.name.placed P
  typeParams := decl.typeParams.map (TypeParameter.placed P)
  parent := decl.parent.map (TypeExpr.placed P)
  body := decl.body.map (List.map (ClassMember.placed P))
  doc := decl.doc.map (DocComment.placed P)
  annotations := decl.annotations.map ( Annotation.placed P)
  span := P.span decl.span

/-- The placed type alias. -/
def TypeAliasDecl.placed (P : Placement) (decl : TypeAliasDecl) : TypeAliasDecl where
  modifiers := decl.modifiers
  name := decl.name.placed P
  typeParams := decl.typeParams.map (TypeParameter.placed P)
  aliased := decl.aliased.placed P
  doc := decl.doc.map (DocComment.placed P)
  annotations := decl.annotations.map ( Annotation.placed P)
  span := P.span decl.span

/-- The placed module clause. -/
def ModuleClause.placed (P : Placement) (clause : ModuleClause) : ModuleClause where
  modifiers := clause.modifiers
  name := clause.name.placed P
  doc := clause.doc.map (DocComment.placed P)
  annotations := clause.annotations.map ( Annotation.placed P)
  span := P.span clause.span

/-- The placed import. -/
def ImportDecl.placed (P : Placement) (decl : ImportDecl) : ImportDecl where
  source := decl.source
  globbed := decl.globbed
  localName := decl.localName.map (Identifier.placed P)
  doc := decl.doc.map (DocComment.placed P)
  annotations := decl.annotations.map ( Annotation.placed P)
  span := P.span decl.span

/-- The placed clause. -/
def ExtendsClause.placed (P : Placement) (clause : ExtendsClause) : ExtendsClause where
  source := clause.source
  doc := clause.doc.map (DocComment.placed P)
  annotations := clause.annotations.map ( Annotation.placed P)
  span := P.span clause.span

/-- The placed clause. -/
def AmendsClause.placed (P : Placement) (clause : AmendsClause) : AmendsClause where
  source := clause.source
  doc := clause.doc.map (DocComment.placed P)
  annotations := clause.annotations.map ( Annotation.placed P)
  span := P.span clause.span

/-- The placed declaration. -/
def Declaration.placed (P : Placement) : Declaration → Declaration
  | moduleClause clause => moduleClause (clause.placed P)
  | importDecl decl => importDecl (decl.placed P)
  | extendsClause clause => extendsClause (clause.placed P)
  | amendsClause clause => amendsClause (clause.placed P)
  | typeAlias decl => typeAlias (decl.placed P)
  | classDecl decl => classDecl (decl.placed P)
  | function decl => function (decl.placed P)
  | property decl => property (decl.placed P)

/-- The placed module. -/
def Module.placed (P : Placement) (m : Module) : Module where
  declarations := m.declarations.map (Declaration.placed P)
  filename := m.filename
  span := P.span m.span

/-- The placed node. -/
def Node.placed (P : Placement) : Node → Node
  | module m => module (m.placed P)
  | moduleClause clause => moduleClause (clause.placed P)
  | importDecl decl => importDecl (decl.placed P)
  | extendsClause clause => extendsClause (clause.placed P)
  | amendsClause clause => amendsClause (clause.placed P)
  | typeAlias decl => typeAlias (decl.placed P)
  | classDecl decl => classDecl (decl.placed P)
  | function decl => function (decl.placed P)
  | property decl => property (decl.placed P)
  | propertyForm form => propertyForm (form.placed P)
  | annotation a => annotation (a.placed P)
  | typeParameter p => typeParameter (p.placed P)
  | param p => param (p.placed P)
  | docComment doc => docComment (doc.placed P)
  | identifier name => identifier (name.placed P)
  | number literal => number (literal.placed P)
  | string literal => string (literal.placed P)
  | segment s => segment (s.placed P)
  | expr e => expr (e.placed P)
  | call c => call (c.placed P)
  | access a => access (a.placed P)
  | type t => type (t.placed P)
  | namedType t => namedType (t.placed P)
  | objectBody body => objectBody (body.placed P)
  | objectForm form => objectForm (form.placed P)
  | objectMember member => objectMember (member.placed P)

/-! ### Fields and shapes -/

/-- What a field holds, with the nodes placed. -/
def FieldValue.placed (P : Placement) : FieldValue → FieldValue
  | node n => node (n.placed P)
  | nodes ns => nodes (ns.map (Node.placed P))
  | absent => absent
  | text value => text value
  | flag value => flag value
  | count value => count value
  | word value => word value
  | modifiers value => modifiers value

/-- The field with the nodes that it holds placed. -/
def Field.placed (P : Placement) (field : Field) : Field := ⟨field.name, field.value.placed P⟩

namespace FieldValue

@[simp] theorem placed_node (n : Node) : (node n).placed P = node (n.placed P) := rfl

@[simp] theorem placed_nodes (ns : List Node) :
    (nodes ns).placed P = nodes (ns.map (Node.placed P)) := rfl

@[simp] theorem placed_absent : absent.placed P = absent := rfl

@[simp] theorem placed_text (value : String) : (text value).placed P = text value := rfl

@[simp] theorem placed_flag (value : Bool) : (flag value).placed P = flag value := rfl

@[simp] theorem placed_count (value : Nat) : (count value).placed P = count value := rfl

@[simp] theorem placed_word (value : String) : (word value).placed P = word value := rfl

@[simp] theorem placed_modifiers (value : Modifiers) :
    (modifiers value).placed P = modifiers value := rfl

@[simp] theorem outline_placed (value : FieldValue) : (value.placed P).outline = value.outline := by
  cases value <;> simp [outline]

@[simp] theorem children_placed (value : FieldValue) :
    (value.placed P).children = value.children.map (Node.placed P) := by
  cases value <;> simp [children]

@[simp] theorem placed_ofOption (node : α → Node) (o : Option α) :
    (ofOption node o).placed P = ofOption (fun a => (node a).placed P) o := by
  cases o <;> simp [ofOption]

@[simp] theorem ofOption_map (node : β → Node) (f : α → β) (o : Option α) :
    ofOption node (o.map f) = ofOption (fun a => node (f a)) o := by
  cases o <;> rfl

@[simp] theorem placed_ofList (node : α → Node) (as : List α) :
    (ofList node as).placed P = ofList (fun a => (node a).placed P) as := by
  simp [ofList]

@[simp] theorem ofList_map (node : β → Node) (f : α → β) (as : List α) :
    ofList node (as.map f) = ofList (fun a => node (f a)) as := by
  simp [ofList, Function.comp_def]

@[simp] theorem placed_ofOptionList (node : α → Node) (o : Option (List α)) :
    (ofOptionList node o).placed P = ofOptionList (fun a => (node a).placed P) o := by
  cases o with
  | none => simp [ofOptionList]
  | some as => exact placed_ofList node as

@[simp] theorem ofOptionList_map (node : β → Node) (f : α → β) (o : Option (List α)) :
    ofOptionList node (o.map (List.map f)) = ofOptionList (fun a => node (f a)) o := by
  cases o <;> simp [ofOptionList]

@[simp] theorem placed_ofOptionText (o : Option String) :
    (ofOptionText o).placed P = ofOptionText o := by
  cases o <;> simp [ofOptionText]

end FieldValue

/-! ### Parts that may be missing -/

theorem Expr.placed_letIn (name : Identifier) (type : Option TypeExpr) (value body : Expr)
    (span : Span) :
    (Expr.letIn name type value body span).placed P =
      .letIn (name.placed P) (type.map (TypeExpr.placed P)) (value.placed P) (body.placed P)
        (P.span span) := by
  cases type <;> simp [Expr.placed]

theorem Expr.placed_new (type : Option TypeExpr) (body : ObjectBody) (span : Span) :
    (Expr.new type body span).placed P =
      .new (type.map (TypeExpr.placed P)) (body.placed P) (P.span span) := by
  cases type <;> simp [Expr.placed]

theorem Param.placed_mk (name : Identifier) (type : Option TypeExpr) (span : Span) :
    (Param.mk name type span).placed P =
      ⟨name.placed P, type.map (TypeExpr.placed P), P.span span⟩ := by
  cases type <;> simp [Param.placed]

theorem ObjectMember.placed_whenGenerator (condition : Expr) (thenBody : ObjectBody)
    (elseBody : Option ObjectBody) (span : Span) :
    (ObjectMember.whenGenerator condition thenBody elseBody span).placed P =
      .whenGenerator (condition.placed P) (thenBody.placed P) (elseBody.map (ObjectBody.placed P))
        (P.span span) := by
  cases elseBody <;> simp [ObjectMember.placed]

theorem Annotation.placed_mk (name : NamedType) (body : Option ObjectBody) (span : Span) :
    ( Annotation.mk name body span).placed P =
      ⟨name.placed P, body.map (ObjectBody.placed P), P.span span⟩ := by
  cases body <;> simp [ Annotation.placed]

theorem PropertyForm.placed_init (type : Option TypeExpr) (value : Expr) (span : Span) :
    (PropertyForm.init type value span).placed P =
      .init (type.map (TypeExpr.placed P)) (value.placed P) (P.span span) := by
  cases type <;> simp [PropertyForm.placed]

theorem FunctionDecl.placed_mk (modifiers : Modifiers) (name : Identifier)
    (typeParams : List TypeParameter) (params : List Param) (result : Option TypeExpr)
    (body : Option Expr) (doc : Option DocComment) (annotations : List Annotation) (span : Span) :
    (FunctionDecl.mk modifiers name typeParams params result body doc annotations span).placed P =
      ⟨modifiers, name.placed P, typeParams.map (TypeParameter.placed P), params.map (Param.placed P),
        result.map (TypeExpr.placed P), body.map (Expr.placed P), doc.map (DocComment.placed P),
        annotations.map ( Annotation.placed P), P.span span⟩ := by
  cases result <;> cases body <;> simp [FunctionDecl.placed]

/-! ### Spans -/

@[simp] theorem NumberLiteral.span_placed (literal : NumberLiteral) :
    (literal.placed P).span = P.span literal.span := by
  cases literal <;> rfl

@[simp] theorem StringLiteral.span_placed (literal : StringLiteral) :
    (literal.placed P).span = P.span literal.span := by
  cases literal
  simp [placed]

@[simp] theorem StringLiteral.isConstant_placed (literal : StringLiteral) :
    (literal.placed P).isConstant = literal.isConstant := by
  cases literal with
  | mk multiline pounds segments contentSpan indent span =>
    simp only [StringLiteral.placed, isConstant, List.all_map]
    refine List.all_congr rfl fun segment => ?_
    cases segment <;> simp [Segment.placed]

@[simp] theorem Call.span_placed (c : Call) : (c.placed P).span = P.span c.span := by
  cases c
  simp [placed]

@[simp] theorem Expr.span_placed (e : Expr) : (e.placed P).span = P.span e.span := by
  cases e with
  | letIn => simp [placed_letIn, span]
  | new => simp [placed_new, span]
  | _ => simp [placed, span, Identifier.placed]

@[simp] theorem Access.span_placed (a : Access) : (a.placed P).span = P.span a.span := by
  cases a <;> simp [placed, span]

@[simp] theorem Member.span_placed (member : Member) :
    (member.placed P).span = P.span member.span := by
  cases member <;> simp [placed, span, Identifier.placed]

@[simp] theorem TypeExpr.span_placed (t : TypeExpr) : (t.placed P).span = P.span t.span := by
  cases t <;> simp [placed, span, NamedType.placed]

theorem TypeExpr.withSpan_placed (t : TypeExpr) (span : Span) :
    (t.placed P).withSpan (P.span span) = (t.withSpan span).placed P := by
  cases t <;> simp [TypeExpr.placed, withSpan, NamedType.placed]

@[simp] theorem ObjectBody.span_placed (body : ObjectBody) :
    (body.placed P).span = P.span body.span := by
  cases body
  simp [placed]

@[simp] theorem ObjectForm.span_placed (form : ObjectForm) :
    (form.placed P).span = P.span form.span := by
  cases form
  simp [placed]

@[simp] theorem EntryValue.span_placed (value : EntryValue) :
    (value.placed P).span = P.span value.span := by
  cases value <;> simp [placed, span]

@[simp] theorem PropertyForm.span_placed (form : PropertyForm) :
    (form.placed P).span = P.span form.span := by
  cases form with
  | init => simp [placed_init, span]
  | _ => simp [placed, span]

/-! ### Nodes -/

namespace Node

@[simp] theorem placed_expr (e : Expr) : (expr e).placed P = expr (e.placed P) := rfl

@[simp] theorem placed_type (t : TypeExpr) : (type t).placed P = type (t.placed P) := rfl

@[simp] theorem placed_identifier (name : Identifier) :
    (identifier name).placed P = identifier (name.placed P) := rfl

@[simp] theorem placed_number (literal : NumberLiteral) :
    (number literal).placed P = number (literal.placed P) := rfl

@[simp] theorem placed_string (literal : StringLiteral) :
    (string literal).placed P = string (literal.placed P) := rfl

@[simp] theorem placed_segment (s : Segment) : (segment s).placed P = segment (s.placed P) := rfl

@[simp] theorem placed_access (a : Access) : (access a).placed P = access (a.placed P) := rfl

@[simp] theorem placed_param (p : Param) : (param p).placed P = param (p.placed P) := rfl

@[simp] theorem placed_namedType (t : NamedType) :
    (namedType t).placed P = namedType (t.placed P) := rfl

@[simp] theorem placed_objectBody (body : ObjectBody) :
    (objectBody body).placed P = objectBody (body.placed P) := rfl

@[simp] theorem placed_typeParameter (p : TypeParameter) :
    (typeParameter p).placed P = typeParameter (p.placed P) := rfl

@[simp] theorem placed_annotation (a : Annotation) :
    ( annotation a).placed P = annotation (a.placed P) := rfl

@[simp] theorem placed_docComment (doc : DocComment) :
    (docComment doc).placed P = docComment (doc.placed P) := rfl

@[simp] theorem placed_ofMember (member : Member) :
    (ofMember member).placed P = ofMember (member.placed P) := by
  cases member <;> simp [ofMember, Node.placed, Member.placed]

@[simp] theorem placed_ofEntryValue (value : EntryValue) :
    (ofEntryValue value).placed P = ofEntryValue (value.placed P) := by
  cases value <;> simp [ofEntryValue, Node.placed, EntryValue.placed]

@[simp] theorem placed_ofPropertyForm (form : PropertyForm) :
    (ofPropertyForm form).placed P = ofPropertyForm (form.placed P) := by
  cases form <;> simp [ofPropertyForm, Node.placed, PropertyForm.placed, PropertyForm.placed_init]

@[simp] theorem placed_ofObjectMember (member : ObjectMember) :
    (ofObjectMember member).placed P = ofObjectMember (member.placed P) := by
  cases member <;>
    simp [ofObjectMember, Node.placed, ObjectMember.placed, ObjectMember.placed_whenGenerator]

@[simp] theorem placed_ofClassMember (member : ClassMember) :
    (ofClassMember member).placed P = ofClassMember (member.placed P) := by
  cases member <;> rfl

@[simp] theorem placed_ofDeclaration (decl : Declaration) :
    (ofDeclaration decl).placed P = ofDeclaration (decl.placed P) := by
  cases decl <;> rfl

end Node

theorem Expr.fields_placed (e : Expr) : (e.placed P).fields = e.fields.map (Field.placed P) := by
  cases e with
  | number literal =>
    cases literal <;>
      simp [Expr.placed, fields, NumberLiteral.placed, NumberLiteral.fields, Field.placed]
  | string literal =>
    cases literal
    simp [Expr.placed, fields, StringLiteral.placed, StringLiteral.fields, StringLiteral.kind,
      Field.placed]
  | call c =>
    cases c
    simp [Expr.placed, fields, Call.placed, Call.fields, Field.placed]
  | letIn => simp [placed_letIn, fields, Field.placed]
  | new => simp [placed_new, fields, Field.placed]
  | _ => simp [Expr.placed, fields, Identifier.placed, Identifier.fields, Field.placed]

theorem TypeExpr.fields_placed (t : TypeExpr) :
    (t.placed P).fields = t.fields.map (Field.placed P) := by
  cases t <;>
    simp [TypeExpr.placed, fields, NamedType.placed, NamedType.fields, Field.placed]

theorem PropertyForm.fields_placed (form : PropertyForm) :
    (form.placed P).fields = form.fields.map (Field.placed P) := by
  cases form with
  | object form =>
    cases form
    simp [PropertyForm.placed, fields, ObjectForm.placed, ObjectForm.fields, Field.placed]
  | init => simp [placed_init, fields, Field.placed]
  | typeOnly => simp [PropertyForm.placed, fields, Field.placed]

theorem PropertyDecl.fields_placed (decl : PropertyDecl) :
    (decl.placed P).fields = decl.fields.map (Field.placed P) := by
  cases decl
  simp [PropertyDecl.placed, fields, documentationFields, Field.placed]

theorem FunctionDecl.fields_placed (decl : FunctionDecl) :
    (decl.placed P).fields = decl.fields.map (Field.placed P) := by
  cases decl
  simp [FunctionDecl.placed_mk, fields, documentationFields, Field.placed]

theorem ObjectMember.fields_placed (member : ObjectMember) :
    (member.placed P).fields = member.fields.map (Field.placed P) := by
  cases member with
  | property decl => simp [ObjectMember.placed, fields, PropertyDecl.fields_placed]
  | function decl => simp [ObjectMember.placed, fields, FunctionDecl.fields_placed]
  | whenGenerator => simp [placed_whenGenerator, fields, Field.placed]
  | _ => simp [ObjectMember.placed, fields, Field.placed]

namespace Node

/-- What a placed node holds is placed, unless it is the text in a string. -/
theorem fields_placed (n : Node) (htext : ∀ text span, n ≠ segment (.text text span)) :
    (n.placed P).fields = n.fields.map (Field.placed P) := by
  cases n with
  | expr e => exact e.fields_placed
  | type t => exact t.fields_placed
  | propertyForm form => exact form.fields_placed
  | property decl => exact decl.fields_placed
  | function decl => exact decl.fields_placed
  | objectMember member => exact member.fields_placed
  | number literal =>
    cases literal <;>
      simp [Node.placed, fields, NumberLiteral.placed, NumberLiteral.fields, Field.placed]
  | string literal =>
    cases literal
    simp [fields, StringLiteral.placed, StringLiteral.fields, StringLiteral.kind, Field.placed]
  | segment s =>
    cases s with
    | text text span => exact absurd rfl (htext text span)
    | escape => simp [fields, Segment.placed, Segment.fields, Field.placed]
    | interpolation => simp [fields, Segment.placed, Segment.fields, Field.placed]
  | call c =>
    cases c
    simp [Node.placed, fields, Call.placed, Call.fields, Field.placed]
  | access a => cases a <;> simp [fields, Access.placed, Access.fields, Field.placed]
  | param p =>
    cases p
    simp [fields, Param.placed_mk, Param.fields, Field.placed]
  | typeParameter p =>
    cases p
    simp [fields, TypeParameter.placed, TypeParameter.fields, Field.placed]
  | annotation a =>
    cases a
    simp [fields, Annotation.placed_mk, Annotation.fields, Field.placed]
  | objectBody body =>
    cases body
    simp [fields, ObjectBody.placed, ObjectBody.fields, Field.placed]
  | objectForm form =>
    cases form
    simp [Node.placed, fields, ObjectForm.placed, ObjectForm.fields, Field.placed]
  | namedType t => simp [fields, NamedType.placed, NamedType.fields, Field.placed]
  | identifier name => simp [fields, Identifier.placed, Identifier.fields, Field.placed]
  | docComment doc => simp [fields, DocComment.placed, DocComment.fields, Field.placed]
  | module m =>
    show (module (m.placed P)).fields = _
    simp [fields, Module.placed, Field.placed]
  | moduleClause clause =>
    simp [Node.placed, fields, ModuleClause.placed, ModuleClause.fields, documentationFields,
      Field.placed]
  | importDecl decl =>
    simp [Node.placed, fields, ImportDecl.placed, ImportDecl.fields, documentationFields, Field.placed]
  | extendsClause clause =>
    simp [Node.placed, fields, ExtendsClause.placed, documentationFields, Field.placed]
  | amendsClause clause =>
    simp [Node.placed, fields, AmendsClause.placed, documentationFields, Field.placed]
  | typeAlias decl =>
    simp [Node.placed, fields, TypeAliasDecl.placed, TypeAliasDecl.fields, documentationFields,
      Field.placed]
  | classDecl decl =>
    show (classDecl (decl.placed P)).fields = _
    simp [fields, ClassDecl.placed, ClassDecl.fields, documentationFields, Field.placed]

theorem children_placed (n : Node) : (n.placed P).children = n.children.map (Node.placed P) := by
  by_cases htext : ∃ text span, n = segment (.text text span)
  · obtain ⟨text, span, rfl⟩ := htext
    simp [children, fields, Segment.placed, Segment.fields, FieldValue.children]
  · simp only [not_exists] at htext
    rw [children, fields_placed n htext, children, List.flatMap_map, List.map_flatMap]
    exact congrArg (n.fields.flatMap ·) (funext fun field => field.value.children_placed)

theorem kind_placed (n : Node) : (n.placed P).kind = n.kind := by
  cases n with
  | expr e =>
    cases e with
    | number literal =>
      cases literal <;>
        simp [kind, Expr.placed, Expr.nodeKind, NumberLiteral.placed, NumberLiteral.nodeKind]
    | letIn => simp [kind, Expr.placed_letIn, Expr.nodeKind]
    | new => simp [kind, Expr.placed_new, Expr.nodeKind]
    | _ => simp [kind, Expr.placed, Expr.nodeKind]
  | number literal => cases literal <;> rfl
  | type t => cases t <;> simp [kind, TypeExpr.placed, TypeExpr.nodeKind]
  | segment s => cases s <;> simp [kind, Segment.placed, Segment.nodeKind]
  | access a => cases a <;> simp [kind, Access.placed, Access.nodeKind]
  | propertyForm form =>
    cases form <;>
      simp [Node.placed, kind, PropertyForm.placed, PropertyForm.placed_init, PropertyForm.nodeKind]
  | objectMember member =>
    cases member <;>
      simp [Node.placed, kind, ObjectMember.placed, ObjectMember.placed_whenGenerator,
        ObjectMember.nodeKind]
  | _ => rfl

/-- What a placed node holds by itself only depends on how text is rewritten. -/
theorem outline_placed (h : P.text = Q.text) (n : Node) :
    (n.placed P).outline = (n.placed Q).outline := by
  by_cases htext : ∃ text span, n = segment (.text text span)
  · obtain ⟨text, span, rfl⟩ := htext
    simp [outline, kind, fields, Segment.placed, Segment.fields, Segment.nodeKind, h]
  · simp only [not_exists] at htext
    rw [outline, kind_placed, fields_placed n htext, outline, kind_placed, fields_placed n htext,
      List.map_map, List.map_map]
    refine congrArg (NodeOutline.mk n.kind) (List.map_congr_left fun field _ => ?_)
    exact field.value.outline_placed.trans field.value.outline_placed.symm

/-- Trees that are placed with the same rewriting of text have the same shape. -/
theorem sameShape_placed (h : P.text = Q.text) (n : Node) :
    (n.placed P).sameShape (n.placed Q) = true := by
  refine (sameShape_iff _ _).2 ⟨outline_placed h n, fun p hp => ?_⟩
  rw [children_placed, children_placed, List.zip_map'] at hp
  obtain ⟨m, hm, rfl⟩ := List.mem_map.1 hp
  exact sameShape_placed h m
termination_by sizeOf n
decreasing_by exact sizeOf_lt_of_mem_children hm

/-- Declarations that are placed with the same rewriting of text have the same shapes. -/
theorem sameShapes_placed (h : P.text = Q.text) (decls : List Declaration) :
    sameShapes ((decls.map (Declaration.placed P)).map ofDeclaration)
      ((decls.map (Declaration.placed Q)).map ofDeclaration) = true := by
  rw [sameShapes, List.map_map, List.map_map]
  simp only [List.length_map, BEq.rfl, Bool.true_and, List.zip_map', List.all_map, List.all_eq_true]
  intro decl _
  simp only [Function.comp_apply, ← placed_ofDeclaration]
  exact sameShape_placed h (ofDeclaration decl)

end Node

/-! ### Grouping -/

theorem Expr.combine_placed (left : Expr) (op : BinaryOperator) (right : Expr) :
    (left.placed P).combine op (right.placed P) = (left.combine op right).placed P := by
  simp [combine, Expr.placed]

/-- The placed step. -/
def InfixStep.placed (P : Placement) (step : InfixStep) : InfixStep :=
  ⟨step.op, step.operand.placed P⟩

theorem climb_step {least : Nat} {left : Expr} {step : InfixStep} {tail : List InfixStep}
    (h : ¬step.op.level < least) :
    let right := climb step.op.rightLevel step.operand tail
    (climb least left (step :: tail)).tree =
        (climb least (left.combine step.op right.tree) right.rest).tree ∧
      (climb least left (step :: tail)).rest =
        (climb least (left.combine step.op right.tree) right.rest).rest := by
  rw [climb, if_neg h]
  exact ⟨rfl, rfl⟩

theorem climb_placed (least : Nat) (left : Expr) (steps : List InfixStep) :
    (climb least (left.placed P) (steps.map (InfixStep.placed P))).tree =
        (climb least left steps).tree.placed P ∧
      (climb least (left.placed P) (steps.map (InfixStep.placed P))).rest =
        (climb least left steps).rest.map (InfixStep.placed P) := by
  fun_induction climb least left steps with
  | case1 least left =>
    rw [List.map_nil, climb]
    exact ⟨rfl, rfl⟩
  | case2 least left step tail hlt =>
    rw [List.map_cons, climb, if_pos (show (step.placed P).op.level < least from hlt)]
    exact ⟨rfl, rfl⟩
  | case3 least left step tail hge right rest hle hright whole rest' hle' hwhole ih₁ ih₂ =>
    rw [hright] at ih₁
    rw [hwhole] at ih₂
    obtain ⟨htree, hrest⟩ :=
      @climb_step least (left.placed P) (step.placed P) (tail.map (InfixStep.placed P)) hge
    rw [List.map_cons, htree, hrest]
    simp only [InfixStep.placed] at ih₁ ⊢
    rw [ih₁.1, ih₁.2, Expr.combine_placed]
    exact ih₂

/-- Grouping infix operators commutes with placing. -/
theorem groupInfix_placed (first : Expr) (steps : List InfixStep) :
    groupInfix (first.placed P) (steps.map (InfixStep.placed P)) = (groupInfix first steps).placed P :=
  (climb_placed 0 first steps).1

@[simp] theorem Expr.rightDepth_placed (e : Expr) : (e.placed P).rightDepth = e.rightDepth := by
  fun_induction rightDepth e with
  | case1 left op right span ih₁ ih₂ => simp [Expr.placed, rightDepth, ih₁, ih₂]
  | case2 e hne =>
    cases e with
    | binary left op right span => exact absurd rfl (hne left op right span)
    | letIn => simp [placed_letIn, rightDepth]
    | new => simp [placed_new, rightDepth]
    | _ => simp [Expr.placed, rightDepth]

/-! ### Diagnostics -/

/-- The label at its new place. -/
def Label.placed (P : Placement) (label : Label) : Label := { label with span := P.span label.span }

/-- The diagnostic with its labels at their new places. -/
def Diagnostic.placed (P : Placement) (d : Diagnostic) : Diagnostic :=
  { d with labels := d.labels.map (Label.placed P) }

@[simp] theorem Diagnostic.isError_placed (d : Diagnostic) : (d.placed P).isError = d.isError := rfl

/-- The problem with the span of the opening quotes that it names placed. -/
def Problem.placed (P : Placement) : Problem → Problem
  | invalidEscape shown opening => invalidEscape shown (P.span opening)
  | missingUnicodeBrace opening => missingUnicodeBrace (P.span opening)
  | wrongUnicodeDigits opening => wrongUnicodeDigits (P.span opening)
  | invalidScalar value opening => invalidScalar value (P.span opening)
  | problem => problem

theorem Problem.diagnostic_placed (problem : Problem) (span : Span) :
    (problem.placed P).diagnostic (P.span span) = (problem.diagnostic span).placed P := by
  cases problem <;> rfl

end PklSyntax
