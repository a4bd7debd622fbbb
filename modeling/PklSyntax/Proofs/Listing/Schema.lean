import PklSyntax.Proofs.Shapes.Equality
import Mathlib.Data.List.Nodup

/-!
# The fields of each kind of node

All nodes of a kind have the same fields in the same order, and a field of a kind holds values of one
sort. The names of the kinds and of the fields are such that a line of a listing can be told from
them: kinds have different names, which begin with an upper-case letter, and the fields of a kind have
different names, which consist of lower-case letters and underscores.

## Main definitions

* `Spelled`: a text with a first character of one sort and all others of another.
* `FieldSort`, `FieldSort.admits`: the sorts of values that a field may hold.
* `NodeKind.schema`: the names and sorts of the fields of a kind.

## Main statements

* `Node.forall₂_schema`: the fields of a node are those of its kind.
* `NodeKind.name_injective`, `NodeKind.nodup_schema`: different kinds and fields have different names.
-/

namespace PklSyntax

/-! ### Names of kinds -/

/-- The text has a first character, which is of one sort, and all others are of another. -/
def Spelled (first others : Char → Bool) (text : String) : Prop :=
  ∃ c cs, text.toList = c :: cs ∧ first c = true ∧ ∀ d ∈ cs, others d = true

theorem Spelled.notMem {first others : Char → Bool} {text : String} (h : Spelled first others text)
    {c : Char} (hfirst : first c = false) (hothers : others c = false) : c ∉ text.toList := by
  obtain ⟨d, ds, htext, hd, hds⟩ := h
  rw [htext, List.mem_cons, not_or]
  refine ⟨?_, fun hmem => ?_⟩
  · rintro rfl
    exact absurd (hfirst.symm.trans hd) Bool.false_ne_true
  · exact absurd (hothers.symm.trans (hds c hmem)) Bool.false_ne_true

theorem spelled_of_headI {first others : Char → Bool} {text : String}
    (h : (first text.toList.headI && text.toList.tail.all others) = true ∧ text.toList ≠ []) :
    Spelled first others text := by
  obtain ⟨hchars, hne⟩ := h
  cases htext : text.toList with
  | nil => exact absurd htext hne
  | cons c cs =>
    rw [htext, Bool.and_eq_true, List.all_eq_true] at hchars
    exact ⟨c, cs, htext, hchars⟩

namespace NodeKind

/-- All kinds of nodes. -/
def all : List NodeKind :=
  [module, identifier, docComment, boolLit, nullLit, intLit, floatLit, durationLit, dataSizeLit,
    textSegment, escapeSegment, interpolation, stringLit, namedType, genericType, constrainedType,
    nullableType, defaultType, unionType, functionType, stringLiteralType, unaryExpr, binaryExpr,
    typeTestExpr, typeCastExpr, nonNullExpr, ifExpr, letExpr, param, lambdaExpr, callExpr, dotAccess,
    nullSafeAccess, bracketAccess, indexExpr, newExpr, amendExpr, parenExpr, amendedValue, objectBody,
    objectForm, mappingEntry, predicateEntry, fieldAmend, spreadMember, whenGenerator, forGenerator,
    elementMember, typeParameter, annotation, typedInit, typeOnly, propertyDecl, functionDecl,
    classDecl, typeAliasDecl, moduleClause, importDecl, extendsClause, amendsClause]

theorem mem_all (kind : NodeKind) : kind ∈ all := by
  cases kind <;> decide

/-- Different kinds have different names. -/
theorem name_injective : Function.Injective name := fun k l h =>
  List.inj_on_of_nodup_map (by decide +kernel : (all.map name).Nodup) (mem_all k) (mem_all l) h

/-- The name of a kind consists of letters, the first of which is an upper-case one. -/
theorem spelled_name (kind : NodeKind) : Spelled Char.isUpper Char.isAlpha kind.name := by
  have hall : ∀ k ∈ all, (k.name.toList.headI.isUpper && k.name.toList.tail.all Char.isAlpha) = true ∧
      k.name.toList ≠ [] := by
    decide +kernel
  exact spelled_of_headI (hall kind (mem_all kind))

end NodeKind

/-! ### Fields of kinds -/

/-- The sorts of values that a field may hold. -/
inductive FieldSort where
  | node
  | optionalNode
  | nodes
  | optionalNodes
  | text
  | optionalText
  | flag
  | count
  | word
  | modifiers
  deriving Repr, DecidableEq

/-- A field of the sort may hold the value. A word stands on one line. -/
def FieldSort.admits : FieldSort → FieldValue → Bool
  | node, .node _ | optionalNode, .node _ | optionalNode, .absent => true
  | nodes, .nodes _ | optionalNodes, .nodes _ | optionalNodes, .absent => true
  | text, .text _ | optionalText, .text _ | optionalText, .absent => true
  | flag, .flag _ => true
  | count, .count _ => true
  | word, .word value => !value.toList.contains '\n'
  | modifiers, .modifiers _ => true
  | _, _ => false

/-- The fields that end every declaration. -/
def documentationSchema : List (String × FieldSort) :=
  [("doc_comment", .optionalNode), ("annotations", .nodes)]

namespace NodeKind

/-- The fields of the nodes of a kind, in order. -/
def schema : NodeKind → List (String × FieldSort)
  | module => [("declarations", .nodes)]
  | identifier => [("name", .text), ("kind", .word)]
  | docComment | floatLit | textSegment => [("text", .text)]
  | boolLit => [("value", .flag)]
  | nullLit => []
  | intLit => [("base", .count), ("digits", .text)]
  | durationLit | dataSizeLit => [("amount", .node), ("unit", .text)]
  | escapeSegment => [("value", .text)]
  | interpolation | elementMember => [("expr", .node)]
  | stringLit =>
    [("kind", .word), ("multiline", .flag), ("pounds", .count), ("segments", .nodes),
      ("indent", .optionalText)]
  | namedType => [("path", .nodes)]
  | genericType => [("base", .node), ("args", .nodes)]
  | constrainedType => [("base", .node), ("predicates", .nodes)]
  | nullableType | defaultType | parenExpr => [("inner", .node)]
  | unionType | objectBody => [("members", .nodes)]
  | functionType => [("params", .nodes), ("return_type", .node)]
  | stringLiteralType => [("value", .node)]
  | unaryExpr => [("op", .text), ("operand", .node)]
  | binaryExpr => [("left", .node), ("op", .text), ("right", .node)]
  | typeTestExpr | typeCastExpr => [("expr", .node), ("type_expr", .node)]
  | nonNullExpr => [("operand", .node)]
  | ifExpr => [("condition", .node), ("then_branch", .node), ("else_branch", .node)]
  | letExpr => [("name", .node), ("type_expr", .optionalNode), ("value", .node), ("body", .node)]
  | param => [("name", .node), ("type_expr", .optionalNode)]
  | lambdaExpr => [("params", .nodes), ("body", .node)]
  | callExpr => [("callee", .node), ("kind", .word), ("args", .nodes)]
  | dotAccess | nullSafeAccess => [("member", .node)]
  | bracketAccess => [("index", .node)]
  | indexExpr => [("target", .node), ("access", .node)]
  | newExpr => [("type_expr", .optionalNode), ("body", .node)]
  | amendExpr => [("target", .node), ("body", .node)]
  | amendedValue => [("base", .node), ("layers", .nodes)]
  | objectForm => [("bodies", .nodes)]
  | mappingEntry => [("key", .node), ("value", .node)]
  | predicateEntry => [("predicate", .node), ("value", .node)]
  | fieldAmend => [("index", .node), ("body", .node)]
  | spreadMember => [("expr", .node), ("nullable", .flag)]
  | whenGenerator => [("condition", .node), ("then_body", .node), ("else_body", .optionalNode)]
  | forGenerator => [("bindings", .nodes), ("iterable", .node), ("body", .node)]
  | typeParameter => [("variance", .word), ("type_expr", .node)]
  | annotation => [("name", .node), ("body", .optionalNode)]
  | typedInit => [("type_expr", .optionalNode), ("value", .node)]
  | typeOnly => [("type_expr", .node)]
  | propertyDecl =>
    [("modifiers", .modifiers), ("name", .node), ("form", .node)] ++ documentationSchema
  | functionDecl =>
    [("modifiers", .modifiers), ("name", .node), ("type_params", .nodes), ("params", .nodes),
      ("return_type", .optionalNode), ("body", .optionalNode)] ++ documentationSchema
  | classDecl =>
    [("modifiers", .modifiers), ("name", .node), ("type_params", .nodes),
      ("extends", .optionalNode), ("body", .optionalNodes)] ++ documentationSchema
  | typeAliasDecl =>
    [("modifiers", .modifiers), ("name", .node), ("type_params", .nodes), ("aliased", .node)] ++
      documentationSchema
  | moduleClause => [("modifiers", .modifiers), ("name", .node)] ++ documentationSchema
  | importDecl =>
    [("source", .text), ("globbed", .flag), ("alias", .optionalNode)] ++ documentationSchema
  | extendsClause | amendsClause => ("source", .text) :: documentationSchema

/-- The fields of a kind have different names. -/
theorem nodup_schema (kind : NodeKind) : (kind.schema.map Prod.fst).Nodup := by
  cases kind <;> decide

end NodeKind

/-- The characters of the names of fields. -/
def isFieldNameChar (c : Char) : Bool := c.isLower || c == '_'

/-- The name of a field of a kind consists of lower-case letters and underscores, the first of which
is a letter. -/
theorem NodeKind.spelled_fieldName {kind : NodeKind} {entry : String × FieldSort}
    (h : entry ∈ kind.schema) : Spelled Char.isLower isFieldNameChar entry.1 := by
  have hall : ∀ k ∈ all, ∀ e ∈ k.schema, (e.1.toList.headI.isLower &&
      e.1.toList.tail.all isFieldNameChar) = true ∧ e.1.toList ≠ [] := by
    decide +kernel
  exact spelled_of_headI (hall kind (mem_all kind) entry h)

/-! ### Fields of nodes -/

namespace FieldSort

variable {α : Type}

@[simp] theorem admits_node (n : Node) : node.admits (.node n) = true := rfl

@[simp] theorem admits_ofList (f : α → Node) (as : List α) : nodes.admits (.ofList f as) = true := rfl

@[simp] theorem admits_ofOption (f : α → Node) (o : Option α) :
    optionalNode.admits (.ofOption f o) = true := by
  cases o <;> rfl

@[simp] theorem admits_ofOptionList (f : α → Node) (o : Option (List α)) :
    optionalNodes.admits (.ofOptionList f o) = true := by
  cases o <;> rfl

@[simp] theorem admits_text (s : String) : text.admits (.text s) = true := rfl

@[simp] theorem admits_ofOptionText (o : Option String) :
    optionalText.admits (.ofOptionText o) = true := by
  cases o <;> rfl

@[simp] theorem admits_flag (b : Bool) : flag.admits (.flag b) = true := rfl

@[simp] theorem admits_count (n : Nat) : count.admits (.count n) = true := rfl

@[simp] theorem admits_modifiers (m : Modifiers) : modifiers.admits (.modifiers m) = true := rfl

@[simp] theorem admits_identifierKind (kind : IdentifierKind) :
    word.admits (.word kind.name) = true := by
  cases kind <;> decide

@[simp] theorem admits_stringKind (kind : StringKind) : word.admits (.word kind.name) = true := by
  cases kind <;> decide

@[simp] theorem admits_callKind (kind : CallKind) : word.admits (.word kind.name) = true := by
  cases kind <;> decide

@[simp] theorem admits_variance (variance : Variance) :
    word.admits (.word variance.name) = true := by
  cases variance <;> decide

end FieldSort

/-- The field has the name and a value of the sort. -/
def Field.Conforms (field : Field) (entry : String × FieldSort) : Prop :=
  field.name = entry.1 ∧ entry.2.admits field.value = true

section

attribute [local simp] Field.Conforms NodeKind.schema documentationFields documentationSchema

theorem NumberLiteral.forall₂_schema (n : NumberLiteral) :
    List.Forall₂ Field.Conforms n.fields n.nodeKind.schema := by
  cases n <;> simp [fields, nodeKind]

theorem Expr.forall₂_schema (e : Expr) :
    List.Forall₂ Field.Conforms e.fields e.nodeKind.schema := by
  cases e with
  | number literal => exact literal.forall₂_schema
  | string literal => simp [fields, nodeKind, StringLiteral.fields]
  | identifier name => simp [fields, nodeKind, Identifier.fields]
  | call c => simp [fields, nodeKind, Call.fields]
  | _ => simp [fields, nodeKind]

theorem TypeExpr.forall₂_schema (t : TypeExpr) :
    List.Forall₂ Field.Conforms t.fields t.nodeKind.schema := by
  cases t with
  | named t => simp [fields, nodeKind, NamedType.fields]
  | _ => simp [fields, nodeKind]

theorem PropertyForm.forall₂_schema (form : PropertyForm) :
    List.Forall₂ Field.Conforms form.fields form.nodeKind.schema := by
  cases form with
  | object form => simp [fields, nodeKind, ObjectForm.fields]
  | _ => simp [fields, nodeKind]

theorem ObjectMember.forall₂_schema (member : ObjectMember) :
    List.Forall₂ Field.Conforms member.fields member.nodeKind.schema := by
  cases member with
  | property decl => simp [fields, nodeKind, PropertyDecl.fields]
  | function decl => simp [fields, nodeKind, FunctionDecl.fields]
  | _ => simp [fields, nodeKind]

/-- The fields of a node are those of its kind. -/
theorem Node.forall₂_schema (n : Node) :
    List.Forall₂ Field.Conforms n.fields n.kind.schema := by
  cases n with
  | module m => simp [fields, kind]
  | moduleClause clause => simp [fields, kind, ModuleClause.fields]
  | importDecl decl => simp [fields, kind, ImportDecl.fields]
  | extendsClause clause => simp [fields, kind]
  | amendsClause clause => simp [fields, kind]
  | typeAlias decl => simp [fields, kind, TypeAliasDecl.fields]
  | classDecl decl => simp [fields, kind, ClassDecl.fields]
  | function decl => simp [fields, kind, FunctionDecl.fields]
  | property decl => simp [fields, kind, PropertyDecl.fields]
  | propertyForm form => exact form.forall₂_schema
  | annotation a => simp [fields, kind, Annotation.fields]
  | typeParameter p => simp [fields, kind, TypeParameter.fields]
  | param p => simp [fields, kind, Param.fields]
  | docComment doc => simp [fields, kind, DocComment.fields]
  | identifier name => simp [fields, kind, Identifier.fields]
  | number literal => exact literal.forall₂_schema
  | string literal => simp [fields, kind, StringLiteral.fields]
  | segment s => cases s <;> simp [fields, kind, Segment.nodeKind, Segment.fields]
  | expr e => exact e.forall₂_schema
  | call c => simp [fields, kind, Call.fields]
  | access a => cases a <;> simp [fields, kind, Access.nodeKind, Access.fields]
  | type t => exact t.forall₂_schema
  | namedType t => simp [fields, kind, NamedType.fields]
  | objectBody body => simp [fields, kind, ObjectBody.fields]
  | objectForm form => simp [fields, kind, ObjectForm.fields]
  | objectMember member => exact member.forall₂_schema

end

theorem Node.map_name_fields (n : Node) : n.fields.map Field.name = n.kind.schema.map Prod.fst := by
  rw [← List.forall₂_eq_eq_eq, List.forall₂_map_left_iff, List.forall₂_map_right_iff]
  exact n.forall₂_schema.imp fun _ _ h => h.1

/-- The fields of a node have different names. -/
theorem Node.nodup_names (n : Node) : (n.fields.map Field.name).Nodup :=
  n.map_name_fields ▸ n.kind.nodup_schema

/-- The name of the field consists of lower-case letters and underscores, the first of which is a
letter. -/
def Field.WellNamed (field : Field) : Prop := Spelled Char.isLower isFieldNameChar field.name

theorem Node.wellNamed {n : Node} {field : Field} (h : field ∈ n.fields) : field.WellNamed := by
  have hname : field.name ∈ n.kind.schema.map Prod.fst :=
    n.map_name_fields ▸ List.mem_map_of_mem h
  obtain ⟨entry, hentry, hname⟩ := List.mem_map.1 hname
  rw [Field.WellNamed, ← hname]
  exact NodeKind.spelled_fieldName hentry

/-- The fields have one name, and they hold values of one sort. -/
def Field.Alike (f g : Field) : Prop :=
  f.name = g.name ∧ ∃ sort : FieldSort, sort.admits f.value = true ∧ sort.admits g.value = true

/-- Nodes of one kind have the same fields. -/
theorem Node.forall₂_alike {a b : Node} (h : a.kind = b.kind) :
    List.Forall₂ Field.Alike a.fields b.fields := by
  have hb : List.Forall₂ Field.Conforms b.fields a.kind.schema := h ▸ b.forall₂_schema
  have ha := a.forall₂_schema
  generalize a.fields = fs at ha ⊢
  generalize b.fields = gs at hb ⊢
  generalize a.kind.schema = entries at ha hb
  induction ha generalizing gs with
  | nil =>
    cases hb
    exact .nil
  | @cons f entry _ _ hf _ ih =>
    cases hb with
    | cons hg hgs => exact .cons ⟨hf.1.trans hg.1.symm, entry.2, hf.2, hg.2⟩ (ih _ hgs)

end PklSyntax
