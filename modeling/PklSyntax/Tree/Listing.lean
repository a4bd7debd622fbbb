import PklSyntax.Tree.Walk
import PklSyntax.Text.Quoted

/-!
# Listings of trees

A tree is listed line by line: a node has a line with its kind, and with its span on demand, and
below it, indented by two, a line for every field. A field that holds nodes is followed by their
listings, indented by two more. Fields that hold nothing are left out, and so are modifiers when
there are none; texts are quoted, and the values of enumerations stand bare.

## Main definitions

* `Node.listing`: the lines of a node at a given depth.
-/

namespace PklSyntax

namespace Node

theorem mem_children_of_node {n c : Node} {field : Field} (h : field ∈ n.fields)
    (hc : field.value = .node c) : c ∈ n.children :=
  List.mem_flatMap.2 ⟨field, h, by simp [hc, FieldValue.children]⟩

theorem mem_children_of_nodes {n c : Node} {ns : List Node} {field : Field} (h : field ∈ n.fields)
    (hns : field.value = .nodes ns) (hc : c ∈ ns) : c ∈ n.children :=
  List.mem_flatMap.2 ⟨field, h, by simpa [hns, FieldValue.children] using hc⟩

/-- The blanks in front of a line. -/
def indentation (depth : Nat) : String := String.ofList (List.replicate (2 * depth) ' ')

/-- The line of the node itself. -/
def headerLine (spans : Bool) (depth : Nat) (n : Node) : String :=
  indentation depth ++ n.kind.name ++ if spans then " @" ++ n.span.render else ""

/-- The line of a field with a value behind its name. -/
def fieldLine (depth : Nat) (name value : String) : String :=
  indentation (depth + 1) ++ name ++ ": " ++ value

/-- The lines of a node that stands at `depth`, with spans or without. -/
def listing (spans : Bool) (depth : Nat) (n : Node) : List String :=
  headerLine spans depth n :: n.fields.attach.flatMap fun ⟨field, _⟩ =>
    match h : field.value with
    | .node c =>
      (indentation (depth + 1) ++ field.name ++ ":") :: listing spans (depth + 2) c
    | .nodes [] => [fieldLine depth field.name "[]"]
    | .nodes (first :: others) =>
      (indentation (depth + 1) ++ field.name ++ ":") ::
        (first :: others).attach.flatMap fun ⟨c, hc⟩ =>
          listing spans (depth + 2) c
    | .absent => []
    | .text value => [fieldLine depth field.name (quoted value)]
    | .flag value => [fieldLine depth field.name (if value then "True" else "False")]
    | .count value => [fieldLine depth field.name (toString value)]
    | .word value => [fieldLine depth field.name value]
    | .modifiers value =>
      if value.isEmpty then [] else [fieldLine depth field.name (" ".intercalate value.keywords)]
termination_by sizeOf n
decreasing_by
  · exact sizeOf_lt_of_mem_children (mem_children_of_node ‹field ∈ n.fields› h)
  · exact sizeOf_lt_of_mem_children (mem_children_of_nodes ‹field ∈ n.fields› h hc)

end Node

end PklSyntax
