import PklSyntax.Proofs.Printing.Tokens
import PklSyntax.Tree.Grouping

/-!
# Trees of infix operators

A sequence of operands with operators between them can be made into a tree in many ways. A tree is
*grouped* when each operand that is built with an operator may stand where it stands: on the left of
an operator that binds less tight, or as tight and groups to the left, and on the right of one that
binds less tight, or as tight and groups to the right.

There is no more than one grouped tree for a sequence. All operators in the left operand of a root
could stand there by themselves, and so could all in the right one. So if two grouped trees for one
sequence had their roots in different places, each root would stand in an operand of the other tree,
one on the left and one on the right; they would bind equally tight and yet group to different
sides.

Operands are not looked into here: one that is itself built with an infix operator is a leaf like
any other.

## Main definitions

* `InfixTree`, `InfixTree.operands`, `InfixTree.operators`: a tree, with what it consists of from
  left to right.
* `InfixTree.Grouped`: the operands of all operators may stand where they stand.
* `InfixTree.toExpr`: the expression that a tree stands for; an operator spans all its operands.

## Main statements

* `InfixTree.Grouped.eq_of_sequence`: one sequence has no two grouped trees.
-/

namespace PklSyntax

/-! ### Spans of several operands -/

/-- The least span around all spans of a list. -/
def Span.coverAll : List Span → Span
  | [] => default
  | first :: others => others.foldl cover first

theorem Span.cover_assoc (a b c : Span) : (a.cover b).cover c = a.cover (b.cover c) := by
  simp only [cover, Int.min_assoc, Int.max_assoc]

theorem Span.foldl_cover (a b : Span) (spans : List Span) :
    spans.foldl cover (a.cover b) = a.cover (spans.foldl cover b) := by
  induction spans generalizing b with
  | nil => rfl
  | cons c spans ih => rw [List.foldl_cons, List.foldl_cons, cover_assoc, ih]

theorem Span.coverAll_append {as bs : List Span} (has : as ≠ []) (hbs : bs ≠ []) :
    coverAll (as ++ bs) = (coverAll as).cover (coverAll bs) := by
  obtain ⟨a, as, rfl⟩ := List.exists_cons_of_ne_nil has
  obtain ⟨b, bs, rfl⟩ := List.exists_cons_of_ne_nil hbs
  rw [List.cons_append, coverAll, List.foldl_append, List.foldl_cons, foldl_cover]
  rfl

namespace BinaryOperator

variable {op a b : BinaryOperator}

theorem TakesLeft.level_le (h : op.TakesLeft a) : op.level ≤ a.level := by
  rcases h with h | ⟨h, -⟩ <;> omega

theorem TakesRight.level_le (h : op.TakesRight a) : op.level ≤ a.level := by
  rcases h with h | ⟨h, -⟩ <;> omega

/-- What binds as tight as an operator that may stand on the left may stand there too. -/
theorem TakesLeft.of_le (h : op.TakesLeft a) (hle : a.level ≤ b.level) : op.TakesLeft b := by
  rcases h with h | ⟨h, hside⟩
  · exact .inl (by omega)
  · rcases Nat.lt_or_eq_of_le hle with hlt | heq
    · exact .inl (by omega)
    · exact .inr ⟨h.trans heq, hside⟩

/-- What binds as tight as an operator that may stand on the right may stand there too. -/
theorem TakesRight.of_le (h : op.TakesRight a) (hle : a.level ≤ b.level) : op.TakesRight b := by
  rcases h with h | ⟨h, hside⟩
  · exact .inl (by omega)
  · rcases Nat.lt_or_eq_of_le hle with hlt | heq
    · exact .inl (by omega)
    · exact .inr ⟨h.trans heq, hside⟩

/-- Operators of one level group to one side. -/
theorem groupsRight_eq_of_level (h : a.level = b.level) : a.groupsRight = b.groupsRight := by
  revert h
  cases a <;> cases b <;> decide

/-- Of two operators that may stand in operands of each other, not one is on the left and the other
on the right. -/
theorem TakesLeft.not_takesRight (h : a.TakesLeft b) : ¬ b.TakesRight a := by
  intro h'
  have hlevel : a.level = b.level := Nat.le_antisymm h.level_le h'.level_le
  have hleft : a.groupsRight = false := by
    rcases h with h | ⟨-, h⟩
    · omega
    · exact h
  have hright : b.groupsRight = true := by
    rcases h' with h' | ⟨-, h'⟩
    · omega
    · exact h'
  rw [groupsRight_eq_of_level hlevel, hright] at hleft
  cases hleft

end BinaryOperator

/-! ### Trees -/

/-- Operands that are grouped by operators. -/
inductive InfixTree where
  | leaf (operand : Expr)
  | node (left : InfixTree) (op : BinaryOperator) (right : InfixTree)

namespace InfixTree

/-- The operands from left to right. -/
def operands : InfixTree → List Expr
  | leaf operand => [operand]
  | node left _ right => left.operands ++ right.operands

/-- The operators from left to right. -/
def operators : InfixTree → List BinaryOperator
  | leaf _ => []
  | node left op right => left.operators ++ op :: right.operators

/-- The operator at the root. -/
def root? : InfixTree → Option BinaryOperator
  | leaf _ => none
  | node _ op _ => some op

/-- Every operand that is built with an operator binds tight enough for the place where it
stands. -/
inductive Grouped : InfixTree → Prop
  | leaf (operand : Expr) : Grouped (leaf operand)
  | node {left right : InfixTree} {op : BinaryOperator} (hleft : left.Grouped)
      (hright : right.Grouped)
      (htakesLeft : ∀ other, left.root? = some other → op.TakesLeft other)
      (htakesRight : ∀ other, right.root? = some other → op.TakesRight other) :
      Grouped (node left op right)

/-- The least span around all operands. -/
def span (t : InfixTree) : Span := Span.coverAll (t.operands.map Expr.span)

/-- The expression that the tree stands for. -/
def toExpr : InfixTree → Expr
  | leaf operand => operand
  | node left op right => .binary left.toExpr op right.toExpr (node left op right).span

theorem operands_ne_nil (t : InfixTree) : t.operands ≠ [] := by
  induction t with
  | leaf operand => exact List.cons_ne_nil _ _
  | node left op right ihleft ihright => exact List.append_ne_nil_of_left_ne_nil ihleft _

theorem length_operands (t : InfixTree) : t.operands.length = t.operators.length + 1 := by
  induction t with
  | leaf operand => rfl
  | node left op right ihleft ihright =>
    simp only [operands, operators, List.length_append, List.length_cons, ihleft, ihright]
    omega

/-! ### Expressions of trees -/

theorem span_node (left right : InfixTree) (op : BinaryOperator) :
    (node left op right).span = left.span.cover right.span := by
  rw [span, operands, List.map_append, Span.coverAll_append]
  · rfl
  · exact fun h => left.operands_ne_nil (List.map_eq_nil_iff.1 h)
  · exact fun h => right.operands_ne_nil (List.map_eq_nil_iff.1 h)

@[simp] theorem span_toExpr (t : InfixTree) : t.toExpr.span = t.span := by
  cases t <;> rfl

theorem toExpr_node (left right : InfixTree) (op : BinaryOperator) :
    (node left op right).toExpr = left.toExpr.combine op right.toExpr := by
  rw [toExpr, Expr.combine, span_node, span_toExpr, span_toExpr]

/-! ### Uniqueness -/

/-- The root of a grouped tree binds least tight of all its operators. -/
theorem Grouped.level_le_of_mem {t : InfixTree} (h : t.Grouped) {root : BinaryOperator}
    (hroot : t.root? = some root) : ∀ op ∈ t.operators, root.level ≤ op.level := by
  induction h generalizing root with
  | leaf operand => cases hroot
  | @node left right op hleft hright htakesLeft htakesRight ihleft ihright =>
    cases hroot
    intro other hmem
    rw [operators, List.mem_append, List.mem_cons] at hmem
    rcases hmem with hmem | rfl | hmem
    · cases hside : left.root? with
      | none => cases left <;> simp [root?, operators] at hside hmem
      | some a => exact (htakesLeft a hside).level_le.trans (ihleft hside other hmem)
    · exact Nat.le_refl _
    · cases hside : right.root? with
      | none => cases right <;> simp [root?, operators] at hside hmem
      | some a => exact (htakesRight a hside).level_le.trans (ihright hside other hmem)

/-- A tree with an operator has a root. -/
theorem exists_root_of_mem {t : InfixTree} {op : BinaryOperator} (h : op ∈ t.operators) :
    ∃ root, t.root? = some root := by
  cases t with
  | leaf operand => cases h
  | node left root right => exact ⟨root, rfl⟩

section Operands

variable {left right : InfixTree} {op other : BinaryOperator}

/-- Every operator in the left operand could stand there by itself. -/
theorem Grouped.takesLeft_of_mem (h : (InfixTree.node left op right).Grouped)
    (hmem : other ∈ left.operators) : op.TakesLeft other := by
  cases h with
  | node hleft hright htakesLeft htakesRight =>
    obtain ⟨root, hroot⟩ := exists_root_of_mem hmem
    exact (htakesLeft root hroot).of_le (hleft.level_le_of_mem hroot other hmem)

/-- Every operator in the right operand could stand there by itself. -/
theorem Grouped.takesRight_of_mem (h : (InfixTree.node left op right).Grouped)
    (hmem : other ∈ right.operators) : op.TakesRight other := by
  cases h with
  | node hleft hright htakesLeft htakesRight =>
    obtain ⟨root, hroot⟩ := exists_root_of_mem hmem
    exact (htakesRight root hroot).of_le (hright.level_le_of_mem hroot other hmem)

end Operands

/-- The roots of two grouped trees for the same operators stand in the same place. -/
theorem Grouped.operators_eq {left right left' right' : InfixTree} {op op' : BinaryOperator}
    (h : (InfixTree.node left op right).Grouped) (h' : (InfixTree.node left' op' right').Grouped)
    (heq : (InfixTree.node left op right).operators = (InfixTree.node left' op' right').operators) :
    left.operators = left'.operators ∧ op = op' ∧ right.operators = right'.operators := by
  rw [operators, operators, List.append_eq_append_iff] at heq
  rcases heq with ⟨between, hleft, hright⟩ | ⟨between, hleft, hright⟩
  · cases between with
    | nil =>
      rw [List.nil_append, List.cons.injEq] at hright
      rw [List.append_nil] at hleft
      exact ⟨hleft.symm, hright.1, hright.2⟩
    | cons a between =>
      rw [List.cons_append, List.cons.injEq] at hright
      obtain ⟨rfl, hright⟩ := hright
      have hin : op ∈ left'.operators := by simp [hleft]
      have hin' : op' ∈ right.operators := by simp [hright]
      exact absurd (h.takesRight_of_mem hin') (h'.takesLeft_of_mem hin).not_takesRight
  · cases between with
    | nil =>
      rw [List.nil_append, List.cons.injEq] at hright
      rw [List.append_nil] at hleft
      exact ⟨hleft, hright.1.symm, hright.2.symm⟩
    | cons a between =>
      rw [List.cons_append, List.cons.injEq] at hright
      obtain ⟨rfl, hright⟩ := hright
      have hin : op' ∈ left.operators := by simp [hleft]
      have hin' : op ∈ right'.operators := by simp [hright]
      exact absurd (h'.takesRight_of_mem hin') (h.takesLeft_of_mem hin).not_takesRight

/-- One sequence of operands and operators has no two grouped trees. -/
theorem Grouped.eq_of_sequence {t t' : InfixTree} (h : t.Grouped) (h' : t'.Grouped)
    (hoperands : t.operands = t'.operands) (hoperators : t.operators = t'.operators) : t = t' := by
  induction t generalizing t' with
  | leaf operand =>
    cases t' with
    | leaf operand' =>
      rw [operands, operands, List.cons.injEq] at hoperands
      rw [hoperands.1]
    | node left op right => simp [operators] at hoperators
  | node left op right ihleft ihright =>
    cases t' with
    | leaf operand => simp [operators] at hoperators
    | node left' op' right' =>
      obtain ⟨hleftOps, rfl, hrightOps⟩ := h.operators_eq h' hoperators
      -- Operators in equal number stand between operands in equal number.
      have hlength : left.operands.length = left'.operands.length := by
        rw [length_operands, length_operands, hleftOps]
      obtain ⟨hleftOperands, hrightOperands⟩ := List.append_inj hoperands hlength
      cases h with
      | node hleft hright _ _ =>
        cases h' with
        | node hleft' hright' _ _ =>
          rw [ihleft hleft hleft' hleftOperands hleftOps,
            ihright hright hright' hrightOperands hrightOps]

end InfixTree

end PklSyntax
