import PklSyntax.Tree.Walk

/-!
# Shapes

Two trees have the same shape when they differ in nothing but the places they were read from. The
*outline* of a node is what it holds by itself: its kind, its plain fields, and which of its fields
hold how many nodes. Nodes have the same shape when their outlines agree and so do, in turn, the
shapes of their children.

## Main definitions

* `FieldOutline`, `FieldValue.outline`, `NodeOutline`, `Node.outline`.
* `Node.sameShape`, `Node.sameShapes`: for two nodes and for two lists of nodes.

## Main statements

* `Node.sameShape_iff`: the two conditions of the definition.
-/

namespace PklSyntax

/-- What a field holds, with the nodes replaced by their number. -/
inductive FieldOutline where
  | node
  | nodes (length : Nat)
  | absent
  | text (value : String)
  | flag (value : Bool)
  | count (value : Nat)
  | word (value : String)
  | modifiers (value : Modifiers)
  deriving Repr, DecidableEq

/-- What a field holds, with the nodes replaced by their number. -/
def FieldValue.outline : FieldValue → FieldOutline
  | node _ => .node
  | nodes ns => .nodes ns.length
  | absent => .absent
  | text value => .text value
  | flag value => .flag value
  | count value => .count value
  | word value => .word value
  | modifiers value => .modifiers value

/-- What a node holds by itself. -/
structure NodeOutline where
  kind : NodeKind
  fields : List FieldOutline
  deriving Repr, DecidableEq

namespace Node

/-- What a node holds by itself. -/
def outline (n : Node) : NodeOutline :=
  ⟨n.kind, n.fields.map fun field => field.value.outline⟩

/-- The nodes differ in nothing but spans and the name of a file. -/
def sameShape (a b : Node) : Bool :=
  a.outline == b.outline &&
    (a.children.attach.zip b.children).all fun ⟨⟨x, _⟩, y⟩ => sameShape x y
termination_by sizeOf a
decreasing_by exact sizeOf_lt_of_mem_children ‹_›

/-- The lists are equally long, and their nodes have the same shapes in order. -/
def sameShapes (as bs : List Node) : Bool :=
  as.length == bs.length && (as.zip bs).all fun (a, b) => sameShape a b

theorem sameShape_iff (a b : Node) :
    a.sameShape b = true ↔
      a.outline = b.outline ∧ ∀ p ∈ a.children.zip b.children, p.1.sameShape p.2 = true := by
  rw [sameShape]
  simp only [Bool.and_eq_true, beq_iff_eq, List.all_eq_true]
  refine and_congr_right fun _ => ?_
  have hzip : a.children.zip b.children =
      (a.children.attach.zip b.children).map (Prod.map (·.1) id) := by
    rw [← List.zip_map_left, List.attach_map_subtype_val]
  rw [hzip, List.forall_mem_map]
  rfl

end Node

end PklSyntax
