import PklSyntax.Tree.Node

/-!
# Walking a tree

A child is smaller than its parent, so a tree can be walked from the root down.

## Main definitions

* `Node.walk`: a node with all nodes below it, parents before their children and siblings in order.

## Main statements

* `Node.sizeOf_lt_of_mem_children`: a child is smaller than its parent.
* `Node.walk_eq`: the walk of a node is the node and then the walks of its children.
* `Node.forall_mem_walk_iff`: what holds of all nodes of a tree.
-/

namespace PklSyntax

/-! ### Children are smaller than their parents -/

/-- All nodes of the field are smaller than `bound`. -/
def FieldValue.Below (value : FieldValue) (bound : Nat) : Prop :=
  ∀ c ∈ value.children, sizeOf c < bound

namespace FieldValue

variable {α : Type} {bound : Nat}

attribute [local simp] Below children

theorem Below.mono {value : FieldValue} {larger : Nat} (h : value.Below bound)
    (hle : bound ≤ larger) : value.Below larger :=
  fun c hc => Nat.lt_of_lt_of_le (h c hc) hle

@[simp] theorem below_node (n : Node) : (node n).Below bound ↔ sizeOf n < bound := by simp

@[simp] theorem below_absent : absent.Below bound := by simp

@[simp] theorem below_text (s : String) : (text s).Below bound := by simp

@[simp] theorem below_flag (b : Bool) : (flag b).Below bound := by simp

@[simp] theorem below_count (n : Nat) : (count n).Below bound := by simp

@[simp] theorem below_word (s : String) : (word s).Below bound := by simp

@[simp] theorem below_modifiers (m : Modifiers) : (modifiers m).Below bound := by simp

theorem below_ofList [SizeOf α] {node : α → Node} (as : List α)
    (hnode : ∀ a, sizeOf (node a) ≤ 1 + sizeOf a) (h : sizeOf as < bound) :
    (ofList node as).Below bound := by
  intro c hc
  obtain ⟨a, ha, rfl⟩ := List.mem_map.1 hc
  have := List.sizeOf_lt_of_mem ha
  have := hnode a
  omega

theorem below_ofOption [SizeOf α] {node : α → Node} (o : Option α)
    (hnode : ∀ a, sizeOf (node a) ≤ 1 + sizeOf a) (h : sizeOf o < bound) :
    (ofOption node o).Below bound := by
  cases o with
  | none => simp [ofOption]
  | some a =>
    have := hnode a
    simp only [Option.some.sizeOf_spec] at h
    simp only [ofOption, below_node]
    omega

theorem below_ofOptionList [SizeOf α] {node : α → Node} (o : Option (List α))
    (hnode : ∀ a, sizeOf (node a) ≤ 1 + sizeOf a) (h : sizeOf o < bound) :
    (ofOptionList node o).Below bound := by
  cases o with
  | none => simp [ofOptionList]
  | some as =>
    simp only [Option.some.sizeOf_spec] at h
    exact below_ofList as hnode (by omega)

@[simp] theorem below_ofOptionText (o : Option String) : (ofOptionText o).Below bound := by
  cases o <;> simp [ofOptionText]

end FieldValue

namespace Node

theorem sizeOf_ofObjectMember_le (m : ObjectMember) : sizeOf (ofObjectMember m) ≤ 1 + sizeOf m := by
  cases m <;> simp [ofObjectMember]

theorem sizeOf_ofMember_le (m : Member) : sizeOf (ofMember m) ≤ 1 + sizeOf m := by
  cases m <;> simp [ofMember]

theorem sizeOf_ofEntryValue_le (v : EntryValue) : sizeOf (ofEntryValue v) ≤ 1 + sizeOf v := by
  cases v <;> simp [ofEntryValue]

theorem sizeOf_ofPropertyForm_le (f : PropertyForm) : sizeOf (ofPropertyForm f) ≤ 1 + sizeOf f := by
  cases f <;> simp [ofPropertyForm]

theorem sizeOf_ofDeclaration_le (d : Declaration) : sizeOf (ofDeclaration d) ≤ 1 + sizeOf d := by
  cases d <;> simp [ofDeclaration]

theorem sizeOf_ofClassMember_le (m : ClassMember) : sizeOf (ofClassMember m) ≤ 1 + sizeOf m := by
  cases m <;> simp [ofClassMember]

end Node

/-! The lemmas of this section give one bound per type: the nodes in the fields of a part are no
larger than the part. -/

section Bounds

attribute [local simp] FieldValue.below_ofList FieldValue.below_ofOption
  FieldValue.below_ofOptionList Node.sizeOf_ofObjectMember_le Node.sizeOf_ofClassMember_le
  Node.sizeOf_ofDeclaration_le documentationFields

theorem Identifier.below_fields (i : Identifier) :
    ∀ field ∈ i.fields, field.value.Below (1 + sizeOf i) := by
  cases i
  simp +arith [Identifier.fields]

theorem DocComment.below_fields (d : DocComment) :
    ∀ field ∈ d.fields, field.value.Below (1 + sizeOf d) := by
  cases d
  simp +arith [DocComment.fields]

theorem NumberLiteral.below_fields (n : NumberLiteral) :
    ∀ field ∈ n.fields, field.value.Below (1 + sizeOf n) := by
  cases n <;> simp +arith [NumberLiteral.fields]

theorem StringLiteral.below_fields (s : StringLiteral) :
    ∀ field ∈ s.fields, field.value.Below (1 + sizeOf s) := by
  cases s
  simp +arith [StringLiteral.fields]

theorem Segment.below_fields (s : Segment) :
    ∀ field ∈ s.fields, field.value.Below (1 + sizeOf s) := by
  cases s <;> simp +arith [Segment.fields]

theorem NamedType.below_fields (t : NamedType) :
    ∀ field ∈ t.fields, field.value.Below (1 + sizeOf t) := by
  cases t
  simp +arith [NamedType.fields]

theorem Call.below_fields (c : Call) :
    ∀ field ∈ c.fields, field.value.Below (1 + sizeOf c) := by
  cases c
  simp +arith [Call.fields]

theorem Access.below_fields (a : Access) :
    ∀ field ∈ a.fields, field.value.Below (1 + sizeOf a) := by
  cases a <;> simp +arith [Access.fields]
  all_goals
    rename_i member _
    have := Node.sizeOf_ofMember_le member
    omega

theorem Param.below_fields (p : Param) :
    ∀ field ∈ p.fields, field.value.Below (1 + sizeOf p) := by
  cases p
  simp +arith [Param.fields]

theorem ObjectBody.below_fields (b : ObjectBody) :
    ∀ field ∈ b.fields, field.value.Below (1 + sizeOf b) := by
  cases b
  simp +arith [ObjectBody.fields]

theorem ObjectForm.below_fields (f : ObjectForm) :
    ∀ field ∈ f.fields, field.value.Below (1 + sizeOf f) := by
  cases f
  simp +arith [ObjectForm.fields]

theorem TypeParameter.below_fields (p : TypeParameter) :
    ∀ field ∈ p.fields, field.value.Below (1 + sizeOf p) := by
  cases p
  simp +arith [TypeParameter.fields]

theorem Annotation.below_fields (a : Annotation) :
    ∀ field ∈ a.fields, field.value.Below (1 + sizeOf a) := by
  cases a
  simp +arith [ Annotation.fields]

theorem PropertyDecl.below_fields (p : PropertyDecl) :
    ∀ field ∈ p.fields, field.value.Below (1 + sizeOf p) := by
  cases p with
  | mk modifiers name form doc annotations span =>
    simp +arith [PropertyDecl.fields]
    have := Node.sizeOf_ofPropertyForm_le form
    omega

theorem FunctionDecl.below_fields (f : FunctionDecl) :
    ∀ field ∈ f.fields, field.value.Below (1 + sizeOf f) := by
  cases f
  simp +arith [FunctionDecl.fields]

theorem ClassDecl.below_fields (c : ClassDecl) :
    ∀ field ∈ c.fields, field.value.Below (1 + sizeOf c) := by
  cases c
  simp +arith [ClassDecl.fields]

theorem TypeAliasDecl.below_fields (t : TypeAliasDecl) :
    ∀ field ∈ t.fields, field.value.Below (1 + sizeOf t) := by
  cases t
  simp +arith [TypeAliasDecl.fields]

theorem ModuleClause.below_fields (m : ModuleClause) :
    ∀ field ∈ m.fields, field.value.Below (1 + sizeOf m) := by
  cases m
  simp +arith [ModuleClause.fields]

theorem ImportDecl.below_fields (i : ImportDecl) :
    ∀ field ∈ i.fields, field.value.Below (1 + sizeOf i) := by
  cases i
  simp +arith [ImportDecl.fields]

theorem Expr.below_fields (e : Expr) : ∀ field ∈ e.fields, field.value.Below (1 + sizeOf e) := by
  cases e <;> simp +arith [Expr.fields]
  case number n => exact fun f hf => (n.below_fields f hf).mono (by omega)
  case string s => exact fun f hf => (s.below_fields f hf).mono (by omega)
  case identifier i => exact fun f hf => (i.below_fields f hf).mono (by omega)
  case call c => exact fun f hf => (c.below_fields f hf).mono (by omega)

theorem TypeExpr.below_fields (t : TypeExpr) :
    ∀ field ∈ t.fields, field.value.Below (1 + sizeOf t) := by
  cases t <;> simp +arith [TypeExpr.fields]
  case named t => exact fun f hf => (t.below_fields f hf).mono (by omega)

theorem PropertyForm.below_fields (form : PropertyForm) :
    ∀ field ∈ form.fields, field.value.Below (1 + sizeOf form) := by
  cases form <;> simp +arith [PropertyForm.fields]
  case object form => exact fun f hf => (form.below_fields f hf).mono (by omega)

theorem ObjectMember.below_fields (m : ObjectMember) :
    ∀ field ∈ m.fields, field.value.Below (1 + sizeOf m) := by
  cases m <;> simp +arith [ObjectMember.fields]
  case property p => exact fun f hf => (p.below_fields f hf).mono (by omega)
  case function f => exact fun field hf => (f.below_fields field hf).mono (by omega)
  all_goals
    rename_i value _
    have := Node.sizeOf_ofEntryValue_le value
    omega

theorem Node.below_fields (n : Node) : ∀ field ∈ n.fields, field.value.Below (sizeOf n) := by
  cases n
  case module m => cases m; simp +arith [Node.fields]
  case extendsClause clause => cases clause; simp +arith [Node.fields]
  case amendsClause clause => cases clause; simp +arith [Node.fields]
  all_goals
    rename_i part
    exact part.below_fields

end Bounds

namespace Node

/-- A child is smaller than its parent. -/
theorem sizeOf_lt_of_mem_children {n c : Node} (h : c ∈ n.children) : sizeOf c < sizeOf n := by
  obtain ⟨field, hfield, hc⟩ := List.mem_flatMap.1 h
  exact n.below_fields field hfield c hc

/-! ### The walk -/

/-- A node with all nodes below it: the node first, then the walks of its children in order. -/
def walk (n : Node) : List Node :=
  n :: n.children.attach.flatMap fun ⟨c, _⟩ => walk c
termination_by sizeOf n
decreasing_by exact sizeOf_lt_of_mem_children ‹_›

theorem walk_eq (n : Node) : n.walk = n :: n.children.flatMap walk := by
  rw [walk]
  simp

theorem mem_walk_self (n : Node) : n ∈ n.walk := by
  rw [walk_eq]
  exact List.mem_cons_self

/-- The nodes below a node of a tree are nodes of the tree. -/
theorem mem_walk_trans {root n m : Node} (hn : n ∈ root.walk) (hm : m ∈ n.walk) :
    m ∈ root.walk := by
  rw [walk_eq] at hn
  rcases List.mem_cons.1 hn with rfl | hn
  · exact hm
  · obtain ⟨child, hchild, hn⟩ := List.mem_flatMap.1 hn
    rw [walk_eq]
    exact List.mem_cons_of_mem _ (List.mem_flatMap.2 ⟨child, hchild, mem_walk_trans hn hm⟩)
termination_by sizeOf root
decreasing_by exact sizeOf_lt_of_mem_children hchild

/-- The children of a node of a tree are nodes of the tree. -/
theorem mem_walk_child {root n child : Node} (hn : n ∈ root.walk) (hchild : child ∈ n.children) :
    child ∈ root.walk := by
  refine mem_walk_trans hn ?_
  rw [walk_eq]
  exact List.mem_cons_of_mem _ (List.mem_flatMap.2 ⟨child, hchild, mem_walk_self child⟩)

/-- What holds of all nodes of a tree holds of its root and of all nodes of the trees below it. -/
theorem forall_mem_walk_iff {P : Node → Prop} (n : Node) :
    (∀ m ∈ n.walk, P m) ↔ P n ∧ ∀ child ∈ n.children, ∀ m ∈ child.walk, P m := by
  rw [walk_eq, List.forall_mem_cons]
  apply and_congr_right
  intro _
  constructor
  · intro h child hchild m hm
    exact h m (List.mem_flatMap.2 ⟨child, hchild, hm⟩)
  · intro h m hm
    obtain ⟨child, hchild, hm⟩ := List.mem_flatMap.1 hm
    exact h child hchild m hm

end Node

end PklSyntax
