import PklSyntax.Proofs.Moving.Shift

/-!
# Trees without positions

What remains of a tree when everything is erased that says where it was read: all spans, the spans
between the quotes of strings, and the name of the file. Some parts can be seen as nodes in two
ways, since an expression may be a number or a call, a type may be a name, and so on; these are
made one here, so that two nodes are equal without positions just when they are the same syntax.

A node is determined, up to positions, by its kind and by what its fields hold up to positions.

## Main definitions

* `Placement.nowhere`, `Node.erased`: a tree without positions.
* `Node.canonical`: one way for each part to be a node.
* `Node.bare`: both together, and `FieldValue.bare` for what a field holds.

## Main statements

* `Node.bare_eq_of_fields`: a kind and the values of the fields determine a bare node.
-/

namespace PklSyntax

variable {α β : Type}

/-- All offsets are alike, and texts stay as they are. -/
def Placement.nowhere : Placement where
  offset _ := 0
  docStop _ := 0
  text := id
  mono _ := Int.le_refl 0

namespace Node

/-- The node without the name of the file, if it is a module. -/
def withoutFile : Node → Node
  | module m => module { m with filename := "" }
  | n => n

/-- The node with all spans and the name of the file erased. -/
def erased (n : Node) : Node := (n.placed .nowhere).withoutFile

/-- The same syntax as a node in one way: a part that is nothing but another part is the latter. -/
def canonical : Node → Node
  | expr (.number literal) => number literal
  | expr (.string literal) => string literal
  | expr (.identifier name) => identifier name
  | expr (.call c) => call c
  | type (.named t) => namedType t
  | propertyForm (.object form) => objectForm form
  | objectMember (.property decl) => property decl
  | objectMember (.function decl) => function decl
  | n => n

/-- What remains of a node without positions. -/
def bare (n : Node) : Node := n.erased.canonical

theorem kind_canonical (n : Node) : n.canonical.kind = n.kind := by
  fun_cases canonical <;> rfl

theorem fields_canonical (n : Node) : n.canonical.fields = n.fields := by
  fun_cases canonical <;> rfl

/-- A bare node does not depend on the way in which the part is a node. -/
theorem bare_canonical (n : Node) : n.canonical.bare = n.bare := by
  fun_cases canonical <;>
    simp [bare, erased, withoutFile, Node.placed, Expr.placed, TypeExpr.placed, PropertyForm.placed,
      ObjectMember.placed, canonical]

end Node

namespace FieldValue

/-- What a field holds, with the nodes bared. -/
def bare : FieldValue → FieldValue
  | node n => node n.bare
  | nodes ns => nodes (ns.map Node.bare)
  | absent => absent
  | text value => text value
  | flag value => flag value
  | count value => count value
  | word value => word value
  | modifiers value => modifiers value

@[simp] theorem bare_absent : absent.bare = absent := rfl

@[simp] theorem bare_text (value : String) : (text value).bare = text value := rfl

@[simp] theorem bare_flag (value : Bool) : (flag value).bare = flag value := rfl

@[simp] theorem bare_count (value : Nat) : (count value).bare = count value := rfl

@[simp] theorem bare_word (value : String) : (word value).bare = word value := rfl

@[simp] theorem bare_modifiers (value : Modifiers) :
    (modifiers value).bare = modifiers value := rfl

end FieldValue

/-- What the fields hold, with the nodes bared. -/
def bareValues (fields : List Field) : List FieldValue := fields.map fun field => field.value.bare

/-! ### Bare nodes tell parts apart

Each of these lemmas is about one way in which a part becomes a node: the nodes, bared, agree just
when the parts agree without positions. -/

namespace Node

theorem bare_eq_iff (node : α → Node) {erase : α → α} (hbare : ∀ a, (node a).bare = node (erase a))
    (hnode : Function.Injective node) (x y : α) :
    (node x).bare = (node y).bare ↔ erase x = erase y := by
  rw [hbare, hbare, hnode.eq_iff]

@[simp] theorem bare_identifier (x y : Identifier) :
    (identifier x).bare = (identifier y).bare ↔ x.placed .nowhere = y.placed .nowhere :=
  bare_eq_iff identifier (fun _ => rfl) (fun _ _ => Node.identifier.inj) x y

@[simp] theorem bare_docComment (x y : DocComment) :
    (docComment x).bare = (docComment y).bare ↔ x.placed .nowhere = y.placed .nowhere :=
  bare_eq_iff docComment (fun _ => rfl) (fun _ _ => Node.docComment.inj) x y

@[simp] theorem bare_number (x y : NumberLiteral) :
    (number x).bare = (number y).bare ↔ x.placed .nowhere = y.placed .nowhere :=
  bare_eq_iff number (fun _ => rfl) (fun _ _ => Node.number.inj) x y

@[simp] theorem bare_string (x y : StringLiteral) :
    (string x).bare = (string y).bare ↔ x.placed .nowhere = y.placed .nowhere :=
  bare_eq_iff string (fun _ => rfl) (fun _ _ => Node.string.inj) x y

@[simp] theorem bare_segment (x y : Segment) :
    (segment x).bare = (segment y).bare ↔ x.placed .nowhere = y.placed .nowhere :=
  bare_eq_iff segment (fun _ => rfl) (fun _ _ => Node.segment.inj) x y

@[simp] theorem bare_namedType (x y : NamedType) :
    (namedType x).bare = (namedType y).bare ↔ x.placed .nowhere = y.placed .nowhere :=
  bare_eq_iff namedType (fun _ => rfl) (fun _ _ => Node.namedType.inj) x y

@[simp] theorem bare_param (x y : Param) :
    (param x).bare = (param y).bare ↔ x.placed .nowhere = y.placed .nowhere :=
  bare_eq_iff param (fun _ => rfl) (fun _ _ => Node.param.inj) x y

@[simp] theorem bare_typeParameter (x y : TypeParameter) :
    (typeParameter x).bare = (typeParameter y).bare ↔ x.placed .nowhere = y.placed .nowhere :=
  bare_eq_iff typeParameter (fun _ => rfl) (fun _ _ => Node.typeParameter.inj) x y

@[simp] theorem bare_annotation (x y : Annotation) :
    ( annotation x).bare = ( annotation y).bare ↔ x.placed .nowhere = y.placed .nowhere :=
  bare_eq_iff annotation (fun _ => rfl) (fun _ _ h => by simpa using h) x y

@[simp] theorem bare_access (x y : Access) :
    (access x).bare = (access y).bare ↔ x.placed .nowhere = y.placed .nowhere :=
  bare_eq_iff access (fun _ => rfl) (fun _ _ => Node.access.inj) x y

@[simp] theorem bare_objectBody (x y : ObjectBody) :
    (objectBody x).bare = (objectBody y).bare ↔ x.placed .nowhere = y.placed .nowhere :=
  bare_eq_iff objectBody (fun _ => rfl) (fun _ _ => Node.objectBody.inj) x y

theorem canonical_expr (x y : Expr) : (expr x).canonical = (expr y).canonical ↔ x = y := by
  cases x <;> cases y <;> simp [canonical]

@[simp] theorem bare_expr (x y : Expr) :
    (expr x).bare = (expr y).bare ↔ x.placed .nowhere = y.placed .nowhere :=
  canonical_expr _ _

@[simp] theorem bare_type (x y : TypeExpr) :
    (type x).bare = (type y).bare ↔ x.placed .nowhere = y.placed .nowhere := by
  show (type (x.placed .nowhere)).canonical = (type (y.placed .nowhere)).canonical ↔ _
  cases x.placed .nowhere <;> cases y.placed .nowhere <;> simp [canonical]

@[simp] theorem bare_ofMember (x y : Member) :
    (ofMember x).bare = (ofMember y).bare ↔ x.placed .nowhere = y.placed .nowhere := by
  rw [bare, bare, erased, erased, placed_ofMember, placed_ofMember]
  cases x.placed .nowhere <;> cases y.placed .nowhere <;> simp [ofMember, withoutFile, canonical]

@[simp] theorem bare_ofEntryValue (x y : EntryValue) :
    (ofEntryValue x).bare = (ofEntryValue y).bare ↔ x.placed .nowhere = y.placed .nowhere := by
  have hne (e : Expr) (form : ObjectForm) : (expr e).canonical ≠ objectForm form := by
    cases e <;> simp [canonical]
  rw [bare, bare, erased, erased, placed_ofEntryValue, placed_ofEntryValue]
  cases x.placed .nowhere <;> cases y.placed .nowhere
  case expr.expr v w => exact (canonical_expr v w).trans (by simp)
  case object.object => simp [ofEntryValue, withoutFile, canonical]
  case expr.object v form => exact iff_of_false (hne v form) (by rintro ⟨⟩)
  case object.expr form v => exact iff_of_false (hne v form).symm (by rintro ⟨⟩)

@[simp] theorem bare_ofPropertyForm (x y : PropertyForm) :
    (ofPropertyForm x).bare = (ofPropertyForm y).bare ↔ x.placed .nowhere = y.placed .nowhere := by
  rw [bare, bare, erased, erased, placed_ofPropertyForm, placed_ofPropertyForm]
  cases x.placed .nowhere <;> cases y.placed .nowhere <;> simp [ofPropertyForm, withoutFile, canonical]

@[simp] theorem bare_ofObjectMember (x y : ObjectMember) :
    (ofObjectMember x).bare = (ofObjectMember y).bare ↔ x.placed .nowhere = y.placed .nowhere := by
  rw [bare, bare, erased, erased, placed_ofObjectMember, placed_ofObjectMember]
  cases x.placed .nowhere <;> cases y.placed .nowhere <;> simp [ofObjectMember, withoutFile, canonical]

@[simp] theorem bare_ofClassMember (x y : ClassMember) :
    (ofClassMember x).bare = (ofClassMember y).bare ↔ x.placed .nowhere = y.placed .nowhere := by
  rw [bare, bare, erased, erased, placed_ofClassMember, placed_ofClassMember]
  cases x.placed .nowhere <;> cases y.placed .nowhere <;> simp [ofClassMember, withoutFile, canonical]

@[simp] theorem bare_ofDeclaration (x y : Declaration) :
    (ofDeclaration x).bare = (ofDeclaration y).bare ↔ x.placed .nowhere = y.placed .nowhere := by
  rw [bare, bare, erased, erased, placed_ofDeclaration, placed_ofDeclaration]
  cases x.placed .nowhere <;> cases y.placed .nowhere <;> simp [ofDeclaration, withoutFile, canonical]

end Node

namespace FieldValue

@[simp] theorem bare_node (x y : Node) : (node x).bare = (node y).bare ↔ x.bare = y.bare := by
  simp [bare]

theorem bare_ofList {f : α → Node} {erase : α → β}
    (h : ∀ a b, (f a).bare = (f b).bare ↔ erase a = erase b) (as bs : List α) :
    (ofList f as).bare = (ofList f bs).bare ↔ as.map erase = bs.map erase := by
  simp only [ofList, bare, nodes.injEq, List.map_map]
  induction as generalizing bs with
  | nil => cases bs <;> simp
  | cons a as ih => cases bs <;> simp [ih, h]

theorem bare_ofOption {f : α → Node} {erase : α → β}
    (h : ∀ a b, (f a).bare = (f b).bare ↔ erase a = erase b) (a b : Option α) :
    (ofOption f a).bare = (ofOption f b).bare ↔ a.map erase = b.map erase := by
  cases a <;> cases b <;> simp [ofOption, bare, h]

theorem bare_ofOptionList {f : α → Node} {erase : α → β}
    (h : ∀ a b, (f a).bare = (f b).bare ↔ erase a = erase b) (as bs : Option (List α)) :
    (ofOptionList f as).bare = (ofOptionList f bs).bare ↔
      as.map (List.map erase) = bs.map (List.map erase) := by
  cases as <;> cases bs
  case some.some as bs => simpa [ofOptionList] using bare_ofList h as bs
  all_goals simp [ofOptionList, ofList, bare]

@[simp] theorem bare_ofOptionText (a b : Option String) :
    (ofOptionText a).bare = (ofOptionText b).bare ↔ a = b := by
  cases a <;> cases b <;> simp [ofOptionText, bare]

end FieldValue

/-! ### Fields determine bare nodes

A part without positions is what its fields hold without positions. The lemmas of this section say so
for one type of parts each. -/

section Fields

attribute [local simp] bareValues documentationFields

open Node FieldValue

@[simp] theorem Placement.span_nowhere (s : Span) : Placement.nowhere.span s = ⟨0, 0⟩ := rfl

@[simp] theorem Placement.text_nowhere (s : String) : Placement.nowhere.text s = s := rfl

theorem Identifier.placed_eq {x y : Identifier} (h : bareValues x.fields = bareValues y.fields) :
    x.placed .nowhere = y.placed .nowhere := by
  simpa [fields, placed, IdentifierKind.name_injective.eq_iff] using h

theorem DocComment.placed_eq {x y : DocComment} (h : bareValues x.fields = bareValues y.fields) :
    x.placed .nowhere = y.placed .nowhere := by
  simpa [fields, placed, Placement.nowhere] using h

theorem NumberLiteral.placed_eq {x y : NumberLiteral} (hkind : x.nodeKind = y.nodeKind)
    (h : bareValues x.fields = bareValues y.fields) :
    x.placed .nowhere = y.placed .nowhere := by
  cases x <;> cases y <;> cases hkind
  all_goals simpa [fields, placed, IntBase.radix_injective.eq_iff] using h

theorem NamedType.placed_eq {x y : NamedType} (h : bareValues x.fields = bareValues y.fields) :
    x.placed .nowhere = y.placed .nowhere := by
  simpa [fields, placed, bare_ofList bare_identifier] using h

theorem StringLiteral.placed_eq {x y : StringLiteral}
    (h : bareValues x.fields = bareValues y.fields) :
    x.placed .nowhere = y.placed .nowhere := by
  cases x
  cases y
  simp only [fields, bareValues, List.map_cons, bare_word, bare_flag, bare_count, List.cons.injEq,
    bare_ofList bare_segment, bare_ofOptionText, flag.injEq, count.injEq] at h
  simpa [placed] using h.2

theorem Segment.placed_eq {x y : Segment} (hkind : x.nodeKind = y.nodeKind)
    (h : bareValues x.fields = bareValues y.fields) :
    x.placed .nowhere = y.placed .nowhere := by
  cases x <;> cases y <;> cases hkind
  all_goals simpa [fields, placed] using h

theorem Call.placed_eq {x y : Call} (h : bareValues x.fields = bareValues y.fields) :
    x.placed .nowhere = y.placed .nowhere := by
  cases x
  cases y
  simpa [fields, placed, bare_ofList bare_expr, CallKind.name_injective.eq_iff] using h

theorem Access.placed_eq {x y : Access} (hkind : x.nodeKind = y.nodeKind)
    (h : bareValues x.fields = bareValues y.fields) :
    x.placed .nowhere = y.placed .nowhere := by
  cases x <;> cases y <;> cases hkind
  all_goals simpa [fields, placed] using h

theorem Param.placed_eq {x y : Param} (h : bareValues x.fields = bareValues y.fields) :
    x.placed .nowhere = y.placed .nowhere := by
  cases x
  cases y
  simpa [fields, placed_mk, bare_ofOption bare_type] using h

theorem Expr.placed_eq {x y : Expr} (hkind : x.nodeKind = y.nodeKind)
    (h : bareValues x.fields = bareValues y.fields) :
    x.placed .nowhere = y.placed .nowhere := by
  cases x <;> cases y <;> try cases hkind
  case number.number => simpa [placed] using NumberLiteral.placed_eq hkind h
  case string.string.refl => simpa [placed] using StringLiteral.placed_eq h
  case identifier.identifier.refl => simpa [placed] using Identifier.placed_eq h
  case call.call.refl => simpa [placed] using Call.placed_eq h
  case null.null.refl => simp [placed]
  all_goals first
    | simpa [fields, placed, placed_letIn, placed_new, bare_ofList bare_param,
        bare_ofList bare_objectBody, bare_ofOption bare_type, DurationUnit.symbol_injective.eq_iff,
        DataSizeUnit.symbol_injective.eq_iff, UnaryOperator.symbol_injective.eq_iff,
        BinaryOperator.symbol_injective.eq_iff] using h
    | simp only [nodeKind, NumberLiteral.nodeKind] at hkind
      split at hkind <;> cases hkind

theorem TypeExpr.placed_eq {x y : TypeExpr} (hkind : x.nodeKind = y.nodeKind)
    (h : bareValues x.fields = bareValues y.fields) :
    x.placed .nowhere = y.placed .nowhere := by
  cases x <;> cases y <;> cases hkind
  case named.named => simpa [placed] using NamedType.placed_eq h
  all_goals simpa [fields, placed, bare_ofList bare_type, bare_ofList bare_expr] using h

theorem ObjectBody.placed_eq {x y : ObjectBody} (h : bareValues x.fields = bareValues y.fields) :
    x.placed .nowhere = y.placed .nowhere := by
  cases x
  cases y
  simpa [fields, placed, bare_ofList bare_ofObjectMember] using h

theorem ObjectForm.placed_eq {x y : ObjectForm} (h : bareValues x.fields = bareValues y.fields) :
    x.placed .nowhere = y.placed .nowhere := by
  cases x
  cases y
  simpa [fields, placed, bare_ofList bare_objectBody] using h

theorem PropertyForm.placed_eq {x y : PropertyForm} (hkind : x.nodeKind = y.nodeKind)
    (h : bareValues x.fields = bareValues y.fields) :
    x.placed .nowhere = y.placed .nowhere := by
  cases x <;> cases y <;> cases hkind
  case object.object => simpa [placed] using ObjectForm.placed_eq h
  all_goals simpa [fields, placed, placed_init, bare_ofOption bare_type] using h

theorem TypeParameter.placed_eq {x y : TypeParameter}
    (h : bareValues x.fields = bareValues y.fields) :
    x.placed .nowhere = y.placed .nowhere := by
  cases x
  cases y
  simpa [fields, placed, Variance.name_injective.eq_iff] using h

theorem Annotation.placed_eq {x y : Annotation} (h : bareValues x.fields = bareValues y.fields) :
    x.placed .nowhere = y.placed .nowhere := by
  cases x
  cases y
  simpa [ Annotation.fields, placed_mk, bare_ofOption bare_objectBody] using h

theorem PropertyDecl.placed_eq {x y : PropertyDecl}
    (h : bareValues x.fields = bareValues y.fields) :
    x.placed .nowhere = y.placed .nowhere := by
  cases x
  cases y
  simpa [fields, placed, bare_ofOption bare_docComment, bare_ofList bare_annotation] using h

theorem FunctionDecl.placed_eq {x y : FunctionDecl}
    (h : bareValues x.fields = bareValues y.fields) :
    x.placed .nowhere = y.placed .nowhere := by
  cases x
  cases y
  simpa [fields, placed_mk, bare_ofList bare_typeParameter, bare_ofList bare_param,
    bare_ofOption bare_type, bare_ofOption bare_expr, bare_ofOption bare_docComment,
    bare_ofList bare_annotation] using h

theorem ObjectMember.placed_eq {x y : ObjectMember} (hkind : x.nodeKind = y.nodeKind)
    (h : bareValues x.fields = bareValues y.fields) :
    x.placed .nowhere = y.placed .nowhere := by
  cases x <;> cases y <;> cases hkind
  case property.property => simpa [placed] using PropertyDecl.placed_eq h
  case function.function => simpa [placed] using FunctionDecl.placed_eq h
  all_goals simpa [fields, placed, placed_whenGenerator, bare_ofOption bare_objectBody,
    bare_ofList bare_identifier] using h

theorem ClassDecl.placed_eq {x y : ClassDecl} (h : bareValues x.fields = bareValues y.fields) :
    x.placed .nowhere = y.placed .nowhere := by
  simpa [fields, placed, bare_ofList bare_typeParameter, bare_ofOption bare_type,
    bare_ofOptionList bare_ofClassMember, bare_ofOption bare_docComment,
    bare_ofList bare_annotation] using h

theorem TypeAliasDecl.placed_eq {x y : TypeAliasDecl}
    (h : bareValues x.fields = bareValues y.fields) :
    x.placed .nowhere = y.placed .nowhere := by
  simpa [fields, placed, bare_ofList bare_typeParameter, bare_ofOption bare_docComment,
    bare_ofList bare_annotation] using h

theorem ModuleClause.placed_eq {x y : ModuleClause}
    (h : bareValues x.fields = bareValues y.fields) :
    x.placed .nowhere = y.placed .nowhere := by
  simpa [fields, placed, bare_ofOption bare_docComment, bare_ofList bare_annotation] using h

theorem ImportDecl.placed_eq {x y : ImportDecl} (h : bareValues x.fields = bareValues y.fields) :
    x.placed .nowhere = y.placed .nowhere := by
  simpa [fields, placed, bare_ofOption bare_identifier, bare_ofOption bare_docComment,
    bare_ofList bare_annotation] using h

end Fields

end PklSyntax
