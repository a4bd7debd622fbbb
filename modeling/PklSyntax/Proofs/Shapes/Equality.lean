import PklSyntax.Proofs.Shapes.Erasure

/-!
# Equal shapes are equality up to positions

Two trees have the same shape just when they are the same syntax once all spans and the names of
files are erased. One direction is an induction on trees: nodes of the same shape hold the same by
themselves and, by induction, children that are the same without positions; and what a node holds
in its fields is all there is to it. Conversely erasing leaves alone what a node holds by itself.

So having the same shape is an equivalence, and no difference is lost: whatever tells two trees apart,
at any depth, is either a position or shows in their shapes.

## Main definitions

* `NodeKind.family`: the kinds of the nodes that are built alike.

## Main statements

* `Node.bare_eq_of_fields`: a kind and the values of the fields determine a bare node.
* `Node.sameShape_of_outlines`: what nodes hold by themselves, along a walk, determines the tree.
* `sameShape_iff_bare_eq`: equality up to positions.
-/

namespace PklSyntax

/-! ### Families of kinds -/

/-- The first of the kinds that are built by the same constructor of nodes. -/
def NodeKind.family : NodeKind → NodeKind
  | floatLit => intLit
  | escapeSegment | interpolation => textSegment
  | nullLit | durationLit | dataSizeLit | unaryExpr | binaryExpr | typeTestExpr | typeCastExpr
  | nonNullExpr | ifExpr | letExpr | lambdaExpr | indexExpr | newExpr | amendExpr | parenExpr
  | amendedValue => boolLit
  | nullSafeAccess | bracketAccess => dotAccess
  | constrainedType | nullableType | defaultType | unionType | functionType
  | stringLiteralType => genericType
  | typeOnly => typedInit
  | predicateEntry | fieldAmend | spreadMember | whenGenerator | forGenerator
  | elementMember => mappingEntry
  | kind => kind

namespace Node

/-- The family of the kinds that the constructor of the node builds. -/
def family : Node → NodeKind
  | number _ => .intLit
  | segment _ => .textSegment
  | expr _ => .boolLit
  | access _ => .dotAccess
  | type _ => .genericType
  | propertyForm _ => .typedInit
  | objectMember _ => .mappingEntry
  | n => n.kind

/-- Once parts are nodes in one way only, the kind tells by which constructor. -/
theorem family_canonical (n : Node) : n.canonical.family = n.kind.family := by
  cases n with
  | expr e =>
    cases e with
    | number literal => cases literal <;> rfl
    | _ => rfl
  | number literal => cases literal <;> rfl
  | segment s => cases s <;> rfl
  | access a => cases a <;> rfl
  | type t => cases t <;> rfl
  | propertyForm form => cases form <;> rfl
  | objectMember member => cases member <;> rfl
  | _ => rfl

theorem bare_eq_of_family {a b : Node} (hfamily : a.family = b.family) (hkind : a.kind = b.kind)
    (h : bareValues a.fields = bareValues b.fields) : a.bare = b.bare := by
  cases a <;> cases b <;> cases hfamily
  case module.module m m' =>
    have h : m.declarations.map (Declaration.placed .nowhere) =
        m'.declarations.map (Declaration.placed .nowhere) := by
      simpa [fields, bareValues, FieldValue.bare_ofList bare_ofDeclaration] using h
    simp [bare, erased, withoutFile, Node.placed, Module.placed, canonical, h]
  case extendsClause.extendsClause x y =>
    have h : x.placed .nowhere = y.placed .nowhere := by
      simpa [fields, bareValues, documentationFields, ExtendsClause.placed,
        FieldValue.bare_ofOption bare_docComment, FieldValue.bare_ofList bare_annotation] using h
    exact congrArg extendsClause h
  case amendsClause.amendsClause x y =>
    have h : x.placed .nowhere = y.placed .nowhere := by
      simpa [fields, bareValues, documentationFields, AmendsClause.placed,
        FieldValue.bare_ofOption bare_docComment, FieldValue.bare_ofList bare_annotation] using h
    exact congrArg amendsClause h
  case moduleClause.moduleClause => exact congrArg moduleClause (ModuleClause.placed_eq h)
  case importDecl.importDecl => exact congrArg importDecl (ImportDecl.placed_eq h)
  case typeAlias.typeAlias => exact congrArg typeAlias (TypeAliasDecl.placed_eq h)
  case classDecl.classDecl => exact congrArg classDecl (ClassDecl.placed_eq h)
  case function.function => exact congrArg function (FunctionDecl.placed_eq h)
  case property.property => exact congrArg property (PropertyDecl.placed_eq h)
  case propertyForm.propertyForm =>
    exact congrArg (fun form => (propertyForm form).canonical) (PropertyForm.placed_eq hkind h)
  case typeParameter.typeParameter => exact congrArg typeParameter (TypeParameter.placed_eq h)
  case param.param => exact congrArg param (Param.placed_eq h)
  case docComment.docComment => exact congrArg docComment (DocComment.placed_eq h)
  case identifier.identifier => exact congrArg identifier (Identifier.placed_eq h)
  case number.number => exact congrArg number (NumberLiteral.placed_eq hkind h)
  case string.string => exact congrArg string (StringLiteral.placed_eq h)
  case segment.segment => exact congrArg segment (Segment.placed_eq hkind h)
  case expr.expr => exact (bare_expr _ _).2 (Expr.placed_eq hkind h)
  case call.call => exact congrArg call (Call.placed_eq h)
  case access.access => exact congrArg access (Access.placed_eq hkind h)
  case type.type => exact (bare_type _ _).2 (TypeExpr.placed_eq hkind h)
  case namedType.namedType => exact congrArg namedType (NamedType.placed_eq h)
  case objectBody.objectBody => exact congrArg objectBody (ObjectBody.placed_eq h)
  case objectForm.objectForm => exact congrArg objectForm (ObjectForm.placed_eq h)
  case objectMember.objectMember =>
    exact congrArg (fun member => (objectMember member).canonical) (ObjectMember.placed_eq hkind h)
  -- what is left is the case of annotations
  exact congrArg annotation ( Annotation.placed_eq h)

/-- The kind of a node and what its fields hold determine the node, up to positions. -/
theorem bare_eq_of_fields {a b : Node} (hkind : a.kind = b.kind)
    (h : bareValues a.fields = bareValues b.fields) : a.bare = b.bare := by
  rw [← bare_canonical a, ← bare_canonical b]
  refine bare_eq_of_family ?_ ?_ ?_
  · rw [family_canonical, family_canonical, hkind]
  · rw [kind_canonical, kind_canonical, hkind]
  · rw [fields_canonical, fields_canonical, h]

end Node

/-! ### Fields with the same outline -/

namespace FieldValue

theorem length_children_eq {v w : FieldValue} (h : v.outline = w.outline) :
    v.children.length = w.children.length := by
  cases v <;> cases w <;> simp_all [outline, children]

theorem bare_eq {v w : FieldValue} (houtline : v.outline = w.outline)
    (hchildren : v.children.map Node.bare = w.children.map Node.bare) : v.bare = w.bare := by
  cases v <;> cases w <;> simp_all [outline, children, bare]

end FieldValue

/-- Fields with the same outlines, taken one by one: what is known of all children, in order, is known
of the children in each field. -/
theorem forall₂_values_iff {γ : Type} (F : Node → γ) {fs gs : List Field} :
    List.Forall₂ (fun f g => f.value.outline = g.value.outline ∧
        f.value.children.map F = g.value.children.map F) fs gs ↔
      (fs.map fun f => f.value.outline) = (gs.map fun g => g.value.outline) ∧
        (fs.flatMap fun f => f.value.children).map F =
          (gs.flatMap fun g => g.value.children).map F := by
  induction fs generalizing gs with
  | nil => cases gs <;> simp
  | cons f fs ih =>
    cases gs with
    | nil => simp
    | cons g gs =>
      rw [List.forall₂_cons, ih, List.map_cons, List.map_cons, List.cons.injEq, List.flatMap_cons,
        List.flatMap_cons, List.map_append, List.map_append]
      constructor
      · rintro ⟨⟨hf, hchildren⟩, hfs, hrest⟩
        exact ⟨⟨hf, hfs⟩, by rw [hchildren, hrest]⟩
      · rintro ⟨⟨hf, hfs⟩, hall⟩
        obtain ⟨hchildren, hrest⟩ := List.append_inj hall
          (by rw [List.length_map, List.length_map, FieldValue.length_children_eq hf])
        exact ⟨⟨hf, hchildren⟩, hfs, hrest⟩

theorem length_flatMap_children_eq {fs gs : List Field}
    (h : (fs.map fun f => f.value.outline) = gs.map fun g => g.value.outline) :
    (fs.flatMap fun f => f.value.children).length =
      (gs.flatMap fun g => g.value.children).length := by
  have hlength : fs.map (fun f => f.value.children.length) =
      gs.map fun g => g.value.children.length := by
    rw [← List.forall₂_eq_eq_eq, List.forall₂_map_left_iff, List.forall₂_map_right_iff] at h ⊢
    exact h.imp fun _ _ => FieldValue.length_children_eq
  rw [List.length_flatMap, List.length_flatMap, hlength]

theorem bareValues_eq {fs gs : List Field}
    (houtline : (fs.map fun f => f.value.outline) = gs.map fun g => g.value.outline)
    (hchildren : (fs.flatMap fun f => f.value.children).map Node.bare =
      (gs.flatMap fun g => g.value.children).map Node.bare) :
    bareValues fs = bareValues gs := by
  rw [bareValues, bareValues, ← List.forall₂_eq_eq_eq, List.forall₂_map_left_iff,
    List.forall₂_map_right_iff]
  exact ((forall₂_values_iff Node.bare).2 ⟨houtline, hchildren⟩).imp fun _ _ h =>
    FieldValue.bare_eq h.1 h.2

namespace Node

theorem length_children_eq {a b : Node} (h : a.outline = b.outline) :
    a.children.length = b.children.length :=
  length_flatMap_children_eq (congrArg NodeOutline.fields h)

/-- Nodes have the same shape when they hold the same by themselves and their children have the same
shapes, one by one. -/
theorem sameShape_iff_forall₂ (a b : Node) :
    a.sameShape b = true ↔
      a.outline = b.outline ∧ List.Forall₂ (fun x y => x.sameShape y = true) a.children b.children := by
  rw [sameShape_iff, List.forall₂_iff_zip]
  refine and_congr_right fun houtline => ?_
  rw [and_iff_right (length_children_eq houtline)]
  exact ⟨fun h x y hxy => h (x, y) hxy, fun h p hp => h hp⟩

/-! ### Equality up to positions -/

/-- Erasing positions leaves what a node holds by itself. -/
theorem outline_bare (n : Node) : n.bare.outline = n.outline := by
  have hfile (m : Node) : m.withoutFile.outline = m.outline := by cases m <;> rfl
  rw [bare, outline, kind_canonical, fields_canonical]
  exact (hfile _).trans (outline_placed_of_text rfl n)

theorem children_bare (n : Node) : n.bare.children = n.children.map (Node.placed .nowhere) := by
  have hfile (m : Node) : m.withoutFile.children = m.children := by cases m <;> rfl
  rw [bare, children, fields_canonical]
  exact (hfile _).trans (children_placed n)

/-- Trees of the same shape are the same up to positions. The induction is on the first tree; its
children are the same up to positions as those of the other, and so are its fields. -/
theorem bare_eq_of_sameShape {a b : Node} (h : a.sameShape b = true) : a.bare = b.bare := by
  obtain ⟨houtline, hzip⟩ := (sameShape_iff a b).1 h
  refine bare_eq_of_fields (congrArg NodeOutline.kind houtline)
    (bareValues_eq (congrArg NodeOutline.fields houtline) ?_)
  show a.children.map bare = b.children.map bare
  rw [← List.forall₂_eq_eq_eq, List.forall₂_map_left_iff, List.forall₂_map_right_iff,
    List.forall₂_iff_zip]
  refine ⟨length_children_eq houtline, fun {x y} hxy => ?_⟩
  have hx : x ∈ a.children := (List.of_mem_zip hxy).1
  exact bare_eq_of_sameShape (hzip (x, y) hxy)
termination_by sizeOf a
decreasing_by exact sizeOf_lt_of_mem_children hx

/-- Trees that are the same up to positions have the same shape. -/
theorem sameShape_of_bare_eq {a b : Node} (h : a.bare = b.bare) : a.sameShape b = true := by
  have houtline : a.outline = b.outline := by rw [← outline_bare a, h, outline_bare]
  have hplaced : a.children.map (Node.placed .nowhere) = b.children.map (Node.placed .nowhere) := by
    rw [← children_bare, h, children_bare]
  have hbare : a.children.map bare = b.children.map bare := by
    have hcanonical := congrArg (List.map fun n => n.withoutFile.canonical) hplaced
    rw [List.map_map, List.map_map] at hcanonical
    exact hcanonical
  rw [← List.forall₂_eq_eq_eq, List.forall₂_map_left_iff, List.forall₂_map_right_iff,
    List.forall₂_iff_zip] at hbare
  refine (sameShape_iff a b).2 ⟨houtline, fun p hp => ?_⟩
  have hx : p.1 ∈ a.children := (List.of_mem_zip hp).1
  exact sameShape_of_bare_eq (hbare.2 hp)
termination_by sizeOf a
decreasing_by exact sizeOf_lt_of_mem_children hx

theorem sameShape_iff_bare (a b : Node) : a.sameShape b = true ↔ a.bare = b.bare :=
  ⟨bare_eq_of_sameShape, sameShape_of_bare_eq⟩

theorem sameShapes_iff_bare (as bs : List Node) :
    sameShapes as bs = true ↔ as.map bare = bs.map bare := by
  rw [sameShapes_iff, ← List.forall₂_eq_eq_eq, List.forall₂_map_left_iff,
    List.forall₂_map_right_iff]
  simp only [sameShape_iff_bare]

/-! ### Walks -/

/-- The outlines along the walks of trees, one after the other, are those of as many trees of the same
shapes only, if this is known of each of the trees alone. -/
theorem forall₂_sameShape_of_outlines {as bs : List Node} {rest rest' : List NodeOutline}
    (ih : ∀ a ∈ as, ∀ (b : Node) (rest rest' : List NodeOutline),
      a.walk.map outline ++ rest = b.walk.map outline ++ rest' →
        a.sameShape b = true ∧ rest = rest')
    (hlength : as.length = bs.length)
    (h : (as.flatMap walk).map outline ++ rest = (bs.flatMap walk).map outline ++ rest') :
    List.Forall₂ (fun a b => a.sameShape b = true) as bs ∧ rest = rest' := by
  induction as generalizing bs with
  | nil =>
    obtain rfl : bs = [] := List.length_eq_zero_iff.1 hlength.symm
    exact ⟨.nil, h⟩
  | cons a as ihas =>
    obtain ⟨b, bs, rfl⟩ := List.exists_cons_of_length_eq_add_one hlength.symm
    rw [List.flatMap_cons, List.flatMap_cons, List.map_append, List.map_append, List.append_assoc,
      List.append_assoc] at h
    obtain ⟨hab, hrest⟩ := ih a List.mem_cons_self b _ _ h
    obtain ⟨hall, heq⟩ := ihas (fun c hc => ih c (List.mem_cons_of_mem a hc))
      (Nat.succ.inj hlength) hrest
    exact ⟨.cons hab hall, heq⟩

/-- The outlines along the walk of a tree say where the tree ends: what stands behind them is not
part of it. The outline of the root says how many children there are, and the induction is on these. -/
theorem sameShape_of_outlines {a b : Node} {rest rest' : List NodeOutline}
    (h : a.walk.map outline ++ rest = b.walk.map outline ++ rest') :
    a.sameShape b = true ∧ rest = rest' := by
  rw [walk_eq a, walk_eq b, List.map_cons, List.map_cons, List.cons_append, List.cons_append,
    List.cons.injEq] at h
  obtain ⟨houtline, h⟩ := h
  obtain ⟨hall, hrest⟩ := forall₂_sameShape_of_outlines
    (fun c hc d _ _ hcd => sameShape_of_outlines hcd) (length_children_eq houtline) h
  exact ⟨(sameShape_iff_forall₂ a b).2 ⟨houtline, hall⟩, hrest⟩
termination_by sizeOf a
decreasing_by exact sizeOf_lt_of_mem_children hc

theorem outlines_eq_of_sameShape {a b : Node} (h : a.sameShape b = true) :
    a.walk.map outline = b.walk.map outline := by
  obtain ⟨houtline, hzip⟩ := (sameShape_iff a b).1 h
  have hwalks : a.children.map (fun c => c.walk.map outline) =
      b.children.map fun c => c.walk.map outline := by
    rw [← List.forall₂_eq_eq_eq, List.forall₂_map_left_iff, List.forall₂_map_right_iff,
      List.forall₂_iff_zip]
    refine ⟨length_children_eq houtline, fun {x y} hxy => ?_⟩
    have hx : x ∈ a.children := (List.of_mem_zip hxy).1
    exact outlines_eq_of_sameShape (hzip (x, y) hxy)
  rw [walk_eq a, walk_eq b, List.map_cons, List.map_cons, List.map_flatMap, List.map_flatMap,
    List.flatMap_def, List.flatMap_def, hwalks, houtline]
termination_by sizeOf a
decreasing_by exact sizeOf_lt_of_mem_children hx

/-- Trees have the same shape just when their walks agree, node by node, in what the nodes hold by
themselves. -/
theorem sameShape_iff_outlines (a b : Node) :
    a.sameShape b = true ↔ a.walk.map outline = b.walk.map outline := by
  refine ⟨outlines_eq_of_sameShape, fun h => ?_⟩
  have hrest : a.walk.map outline ++ [] = b.walk.map outline ++ [] := congrArg (· ++ []) h
  exact (sameShape_of_outlines hrest).1

end Node

/-- Having the same shape is equality up to positions, for trees and for lists of trees: spans and the
name of the file are all that it passes over. So it is an equivalence; it tells trees apart when a node
anywhere on their walks holds something else by itself, be it a kind, a plain value, a child that is
missing or another number of children; and the walks of trees of the same shape are equally long and
have the same kinds of nodes in the same order. -/
theorem sameShape_iff_bare_eq :
    (∀ a b : Node, a.sameShape b = true ↔ a.bare = b.bare) ∧
      (∀ as bs : List Node, Node.sameShapes as bs = true ↔ as.map Node.bare = bs.map Node.bare) ∧
      Equivalence (fun a b : Node => a.sameShape b = true) ∧
      Equivalence (fun as bs : List Node => Node.sameShapes as bs = true) ∧
      (∀ a b : Node, a.sameShape b = true ↔ a.walk.map Node.outline = b.walk.map Node.outline) ∧
      ∀ a b : Module, (Node.module a).sameShape (.module b) = true →
        (Node.module a).walk.length = (Node.module b).walk.length ∧
          (Node.module a).walk.map Node.kind = (Node.module b).walk.map Node.kind := by
  refine ⟨Node.sameShape_iff_bare, Node.sameShapes_iff_bare, ?_, ?_, Node.sameShape_iff_outlines,
    fun a b h => ?_⟩
  · simp only [Node.sameShape_iff_bare]
    exact ⟨fun _ => rfl, Eq.symm, Eq.trans⟩
  · simp only [Node.sameShapes_iff_bare]
    exact ⟨fun _ => rfl, Eq.symm, Eq.trans⟩
  · have houtlines := (Node.sameShape_iff_outlines _ _).1 h
    have hkinds := congrArg (List.map NodeOutline.kind) houtlines
    rw [List.map_map, List.map_map] at hkinds
    exact ⟨by simpa using congrArg List.length houtlines, hkinds⟩

end PklSyntax
