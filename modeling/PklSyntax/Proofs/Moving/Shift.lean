import PklSyntax.Proofs.Placement.Grammar

/-!
# Moving what a parser gives

Two runs of a parser at different places of two texts give the same, except that all offsets in it
differ by one distance. So each type of results comes with what moves the offsets in it: trees are
placed, and numbers among the results of parsers are offsets.

## Main definitions

* `Placement.shift`: all offsets move by one distance.
* `Movable`: values with offsets in them, with what moves these.
-/

namespace PklSyntax

/-- All offsets move by the same distance. -/
def Placement.shift (δ : Int) : Placement where
  offset i := i + δ
  docStop i := i + δ
  text := id
  mono h := Int.add_le_add_right h δ

/-- Values with offsets in them, all of which can be moved. -/
class Movable (α : Type) where
  move : Placement → α → α

export Movable (move)

variable {α β : Type}

instance : Movable Unit := ⟨fun _ u => u⟩

instance : Movable Bool := ⟨fun _ b => b⟩

instance : Movable String := ⟨fun _ s => s⟩

instance : Movable Char := ⟨fun _ c => c⟩

instance : Movable Modifiers := ⟨fun _ m => m⟩

instance : Movable Variance := ⟨fun _ v => v⟩

instance : Movable UnaryOperator := ⟨fun _ op => op⟩

instance : Movable BinaryOperator := ⟨fun _ op => op⟩

/-- Numbers among the results of parsers are offsets. -/
instance : Movable Int := ⟨fun P i => P.offset i⟩

instance : Movable Nat := ⟨fun P i => (P.offset i).toNat⟩

instance [Movable α] : Movable (Option α) := ⟨fun P => Option.map (move P)⟩

instance [Movable α] : Movable (List α) := ⟨fun P => List.map (move P)⟩

instance [Movable α] : Movable (Array α) := ⟨fun P => Array.map (move P)⟩

instance [Movable α] [Movable β] : Movable (α × β) := ⟨fun P => Prod.map (move P) (move P)⟩

instance : Movable Span := ⟨Placement.span⟩

instance : Movable Identifier := ⟨Identifier.placed⟩

instance : Movable DocComment := ⟨DocComment.placed⟩

instance : Movable NumberLiteral := ⟨NumberLiteral.placed⟩

instance : Movable NamedType := ⟨NamedType.placed⟩

instance : Movable Expr := ⟨Expr.placed⟩

instance : Movable StringLiteral := ⟨StringLiteral.placed⟩

instance : Movable Segment := ⟨Segment.placed⟩

instance : Movable Member := ⟨Member.placed⟩

instance : Movable Call := ⟨Call.placed⟩

instance : Movable InfixStep := ⟨InfixStep.placed⟩

instance : Movable Param := ⟨Param.placed⟩

instance : Movable TypeExpr := ⟨TypeExpr.placed⟩

instance : Movable ObjectBody := ⟨ObjectBody.placed⟩

instance : Movable ObjectForm := ⟨ObjectForm.placed⟩

instance : Movable EntryValue := ⟨EntryValue.placed⟩

instance : Movable ObjectMember := ⟨ObjectMember.placed⟩

instance : Movable TypeParameter := ⟨TypeParameter.placed⟩

instance : Movable Annotation := ⟨ Annotation.placed⟩

instance : Movable Preamble := ⟨Preamble.placed⟩

instance : Movable PropertyForm := ⟨PropertyForm.placed⟩

instance : Movable PropertyDecl := ⟨PropertyDecl.placed⟩

instance : Movable FunctionDecl := ⟨FunctionDecl.placed⟩

instance : Movable ClassMember := ⟨ClassMember.placed⟩

instance : Movable ClassHead := ⟨ClassHead.placed⟩

instance : Movable ClassDecl := ⟨ClassDecl.placed⟩

instance : Movable TypeAliasDecl := ⟨TypeAliasDecl.placed⟩

instance : Movable ModuleClause := ⟨ModuleClause.placed⟩

instance : Movable ImportDecl := ⟨ImportDecl.placed⟩

instance : Movable ExtendsClause := ⟨ExtendsClause.placed⟩

instance : Movable AmendsClause := ⟨AmendsClause.placed⟩

instance : Movable Declaration := ⟨Declaration.placed⟩

instance : Movable Progress := ⟨Progress.placed⟩

theorem push_move [Movable α] (P : Placement) (as : Array α) (a : α) :
    (move P as).push (move P a) = move P (as.push a) :=
  Array.map_push.symm

/-- The last entry of an array that is not empty, moved. -/
theorem back?_getD_move [Movable α] (P : Placement) (as : Array α) (a : α) :
    (move P as).back?.getD (move P a) = move P (as.back?.getD a) :=
  Array.getD_back?_map _ _ _

/-! ### Shapes -/

namespace Node

/-- A node at another place holds by itself what it held. -/
theorem outline_placed_of_text {P : Placement} (h : P.text = id) (n : Node) :
    (n.placed P).outline = n.outline := by
  by_cases htext : ∃ text span, n = segment (.text text span)
  · obtain ⟨text, span, rfl⟩ := htext
    simp [outline, kind, fields, Segment.placed, Segment.fields, Segment.nodeKind, h]
  · simp only [not_exists] at htext
    rw [outline, kind_placed, fields_placed n htext, outline, List.map_map]
    exact congrArg (NodeOutline.mk n.kind)
      (List.map_congr_left fun field _ => field.value.outline_placed)

/-- A tree has the same shape wherever it stands. -/
theorem sameShape_shift (δ : Int) (n : Node) : (n.placed (.shift δ)).sameShape n = true := by
  refine (sameShape_iff _ _).2 ⟨outline_placed_of_text rfl n, fun p hp => ?_⟩
  have hzip : (n.children.map (Node.placed (.shift δ))).zip n.children =
      n.children.map fun m => (m.placed (.shift δ), m) := by
    have hzip : (n.children.map (Node.placed (.shift δ))).zip (n.children.map id) = _ :=
      List.zip_map'
    rwa [List.map_id] at hzip
  rw [children_placed, hzip] at hp
  obtain ⟨m, hm, rfl⟩ := List.mem_map.1 hp
  exact sameShape_shift δ m
termination_by sizeOf n
decreasing_by exact sizeOf_lt_of_mem_children hm

/-- Lists have the same shapes when their nodes have, one by one. -/
theorem sameShapes_iff (as bs : List Node) :
    sameShapes as bs = true ↔ List.Forall₂ (fun a b => a.sameShape b = true) as bs := by
  rw [sameShapes, Bool.and_eq_true, beq_iff_eq, List.forall₂_iff_zip, List.all_eq_true]
  exact and_congr_right fun _ => ⟨fun h a b hab => h (a, b) hab, fun h p hp => h hp⟩

end Node

/-- The declaration is the other one at another place. -/
def Declaration.IsMoved (decl' decl : Declaration) : Prop := ∃ δ, decl' = decl.placed (.shift δ)

theorem forall₂_isMoved (δ : Int) (decls : List Declaration) :
    List.Forall₂ Declaration.IsMoved (decls.map (Declaration.placed (.shift δ))) decls := by
  rw [List.forall₂_map_left_iff, List.forall₂_same]
  exact fun decl _ => ⟨δ, rfl⟩

/-- Declarations have the same shapes wherever each of them stands. -/
theorem sameShapes_of_moved {decls' decls : List Declaration}
    (h : List.Forall₂ Declaration.IsMoved decls' decls) :
    Node.sameShapes (decls'.map Node.ofDeclaration) (decls.map Node.ofDeclaration) = true := by
  rw [Node.sameShapes_iff, List.forall₂_map_left_iff, List.forall₂_map_right_iff]
  refine h.imp fun decl' decl hmoved => ?_
  obtain ⟨δ, rfl⟩ := hmoved
  rw [← Node.placed_ofDeclaration]
  exact Node.sameShape_shift δ _

end PklSyntax
