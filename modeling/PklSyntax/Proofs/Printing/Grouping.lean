import Mathlib.Data.List.Forall2
import PklSyntax.Proofs.Printing.Tokens
import PklSyntax.Tree.Shape

/-!
# Grouping what was written

An expression that was read is *like* the one that was written when it has the same shape. The
operands and operators of a plain expression stand in the text in the order of the tree, without a
mark of how they belong together. Grouping finds that again: a subtree is taken as a whole, since
the operators inside it bind at least as tight as the one around it asks for, and tighter than the
one behind it.

## Main definitions

* `Expr.Alike`: an expression is like another one.
* `Expr.Spread`: operands with operators between them are like those of an expression.

## Main statements

* `Expr.Spread.climb`: a subtree is taken as a whole.
* `Expr.Spread.groupInfix`: grouping finds the tree again.
-/

namespace PklSyntax

/-! ### Expressions of the same shape -/

/-- Nodes have the same shape. -/
abbrev Node.Alike (a b : Node) : Prop := a.sameShape b = true

/-- Nodes have the same shape when they hold the same by themselves and so do their children. -/
theorem Node.Alike.of_children {a b : Node} (houtline : a.outline = b.outline)
    (hchildren : List.Forall₂ Node.Alike a.children b.children) : a.Alike b := by
  exact (Node.sameShape_iff a b).2
    ⟨houtline, fun _ hp => (List.forall₂_iff_zip.1 hchildren).2 hp⟩

/-- The names are the same. -/
structure Identifier.Alike (v name : Identifier) : Prop where
  name_eq : v.name = name.name
  kind_eq : v.kind = name.kind

/-- The expression differs from the other one in nothing but spans. -/
structure Expr.Alike (v e : Expr) : Prop where
  shape : (Node.expr v).Alike (.expr e)
  rightDepth_eq : v.rightDepth = e.rightDepth

/-- The call differs from the other one in nothing but spans. -/
structure Call.Alike (v c : Call) : Prop where
  callee : v.callee.Alike c.callee
  kind_eq : v.kind = c.kind
  args : List.Forall₂ Expr.Alike v.args c.args

/-- The member differs from the other one in nothing but spans. -/
def Member.Alike (v m : Member) : Prop := (Node.ofMember v).Alike (.ofMember m)

theorem Identifier.Alike.outline_eq {v name : Identifier} (h : v.Alike name) :
    (Node.identifier v).outline = (Node.identifier name).outline := by
  simp [Node.outline, Node.kind, Node.fields, Identifier.fields, FieldValue.outline, h.name_eq,
    h.kind_eq]

theorem Identifier.Alike.node {v name : Identifier} (h : v.Alike name) :
    (Node.identifier v).Alike (.identifier name) :=
  .of_children h.outline_eq .nil

/-- What holds of the node of a call, holds of it as an expression and as a member. -/
theorem Call.Alike.outline_eq {v c : Call} (h : v.Alike c) :
    (Node.call v).outline = (Node.call c).outline := by
  simp [Node.outline, Node.kind, Node.fields, Call.fields, FieldValue.outline, h.kind_eq,
    FieldValue.ofList, h.args.length_eq]

theorem Call.Alike.children {v c : Call} (h : v.Alike c) :
    List.Forall₂ Node.Alike (Node.call v).children (Node.call c).children := by
  have hargs : List.Forall₂ Node.Alike (v.args.map Node.expr) (c.args.map Node.expr) := by
    rw [List.forall₂_map_left_iff, List.forall₂_map_right_iff]
    exact h.args.imp fun _ _ harg => harg.shape
  have hchildren (c : Call) :
      (Node.call c).children = .identifier c.callee :: c.args.map Node.expr := by
    simp [Node.children, Node.fields, Call.fields, FieldValue.children, FieldValue.ofList]
  rw [hchildren, hchildren]
  exact .cons h.callee.node hargs

theorem Member.Alike.identifier {v name : Identifier} (h : v.Alike name) :
    Member.Alike (.identifier v) (.identifier name) := h.node

theorem Member.Alike.call {v c : Call} (h : v.Alike c) : Member.Alike (.call v) (.call c) :=
  Node.Alike.of_children h.outline_eq h.children

namespace Expr.Alike

variable {v v' e e' : Expr} {span span' span₁ span₂ : Span}

theorem number {literal : IntLiteral} (h : literal.base = .decimal) :
    Alike (.number (.int ⟨.decimal, literal.digits, span⟩)) (.number (.int literal)) := by
  refine ⟨.of_children ?_ .nil, rfl⟩
  simp [Node.outline, Node.kind, Node.fields, Expr.fields, NumberLiteral.fields,
    FieldValue.outline, Expr.nodeKind, NumberLiteral.nodeKind, h]

theorem identifier {name name' : Identifier} (h : name.Alike name') :
    Alike (.identifier name) (.identifier name') :=
  ⟨.of_children h.outline_eq .nil, rfl⟩

theorem call {c c' : Call} (h : c.Alike c') : Alike (.call c) (.call c') :=
  ⟨.of_children h.outline_eq h.children, rfl⟩

theorem paren (h : v.Alike e) : Alike (.paren v span) (.paren e span') :=
  ⟨.of_children rfl (.cons h.shape .nil), rfl⟩

theorem nonNull (h : v.Alike e) : Alike (.nonNull v span) (.nonNull e span') :=
  ⟨.of_children rfl (.cons h.shape .nil), rfl⟩

theorem dot {m m' : Member} (h : v.Alike e) (hm : m.Alike m') :
    Alike (.index v (.dot m span₁) span) (.index e (.dot m' span₂) span') :=
  ⟨.of_children rfl (.cons h.shape (.cons (.of_children rfl (.cons hm .nil)) .nil)), rfl⟩

theorem nullSafe {m m' : Member} (h : v.Alike e) (hm : m.Alike m') :
    Alike (.index v (.nullSafe m span₁) span) (.index e (.nullSafe m' span₂) span') :=
  ⟨.of_children rfl (.cons h.shape (.cons (.of_children rfl (.cons hm .nil)) .nil)), rfl⟩

theorem bracket (h : v.Alike e) (h' : v'.Alike e') :
    Alike (.index v (.bracket v' span₁) span) (.index e (.bracket e' span₂) span') :=
  ⟨.of_children rfl (.cons h.shape (.cons (.of_children rfl (.cons h'.shape .nil)) .nil)), rfl⟩

theorem typeTest {name name' : Identifier} (h : v.Alike e) (hname : name.Alike name') :
    Alike (.typeTest v (.single name span₁) span) (.typeTest e (.single name' span₂) span') :=
  ⟨.of_children rfl (.cons h.shape (.cons (.of_children rfl (.cons hname.node .nil)) .nil)), rfl⟩

theorem typeCast {name name' : Identifier} (h : v.Alike e) (hname : name.Alike name') :
    Alike (.typeCast v (.single name span₁) span) (.typeCast e (.single name' span₂) span') :=
  ⟨.of_children rfl (.cons h.shape (.cons (.of_children rfl (.cons hname.node .nil)) .nil)), rfl⟩

theorem unary (op : UnaryOperator) (h : v.Alike e) :
    Alike (.unary op v span) (.unary op e span') :=
  ⟨.of_children rfl (.cons h.shape .nil), rfl⟩

theorem binary (op : BinaryOperator) (h : v.Alike e) (h' : v'.Alike e') :
    Alike (.binary v op v' span) (.binary e op e' span') :=
  ⟨.of_children rfl (.cons h.shape (.cons h'.shape .nil)), by
    rw [rightDepth, rightDepth, h.rightDepth_eq, h'.rightDepth_eq]⟩

end Expr.Alike

/-! ### Operands with operators between them -/

/-- The operand and the steps behind it are like what the expression consists of, in the order of
the text: what its operators combine, as far as they stand at its top. -/
inductive Expr.Spread : Expr → Expr → List InfixStep → Prop
  | operand {e v : Expr} (h : v.Alike e) : Spread e v []
  | binary {left right first first' : Expr} {steps steps' : List InfixStep} {op : BinaryOperator}
      {span : Span} (hleft : Spread left first steps) (hright : Spread right first' steps') :
      Spread (.binary left op right span) first (steps ++ ⟨op, first'⟩ :: steps')

/-- Climbing over a step whose operator binds tight enough. -/
theorem climb_cons {least : Nat} (left : Expr) {op : BinaryOperator} {operand right : Expr}
    {tail rest : List InfixStep} (hle : least ≤ op.level)
    (htree : (climb op.rightLevel operand tail).tree = right)
    (hrest : (climb op.rightLevel operand tail).rest = rest) :
    (climb least left (⟨op, operand⟩ :: tail)).tree =
        (climb least (left.combine op right) rest).tree ∧
      (climb least left (⟨op, operand⟩ :: tail)).rest =
        (climb least (left.combine op right) rest).rest := by
  subst htree hrest
  rw [climb, if_neg (Nat.not_lt.2 hle)]
  exact ⟨rfl, rfl⟩

/-- Where an operator does not bind tight enough, climbing comes to an end. -/
theorem climb_of_lt {least : Nat} (left : Expr) {steps : List InfixStep}
    (h : ∀ step, steps.head? = some step → step.op.level < least) :
    (climb least left steps).tree = left ∧ (climb least left steps).rest = steps := by
  cases steps with
  | nil =>
    rw [climb]
    exact ⟨rfl, rfl⟩
  | cons step tail =>
    rw [climb, if_pos (h step rfl)]
    exact ⟨rfl, rfl⟩

/-- The operator at the root of an expression, when it has one, binds at the level or tighter. -/
def Expr.BindsAt (e : Expr) (least : Nat) : Prop :=
  ∀ op, e.rootOperator? = some op → least ≤ op.level

/-- The steps begin with no operator that a right operand of the root of the expression takes. -/
def Expr.EndsBefore (e : Expr) (steps : List InfixStep) : Prop :=
  ∀ op step, e.rootOperator? = some op → steps.head? = some step → step.op.level < op.rightLevel

/-- What an expression consists of is taken as a whole, when its operators bind tight enough for
the place where it stands and tighter than the operator behind it. -/
theorem Expr.Spread.climb {e first : Expr} {steps : List InfixStep} (h : e.Spread first steps)
    (he : e.Plain) {least : Nat} {tail : List InfixStep} (hleast : e.BindsAt least)
    (htail : e.EndsBefore tail) :
    ∃ v, v.Alike e ∧
      (climb least first (steps ++ tail)).tree = (PklSyntax.climb least v tail).tree ∧
        (PklSyntax.climb least first (steps ++ tail)).rest = (PklSyntax.climb least v tail).rest := by
  induction h generalizing least tail with
  | @operand e v halike => exact ⟨v, halike, rfl, rfl⟩
  | @binary left right first first' steps steps' op span hleft hright ihleft ihright =>
    cases he with
    | binary hplain hplain' htakesLeft htakesRight =>
      have hop : least ≤ op.level := hleast op rfl
      have hleftLeast : left.BindsAt least := fun other hother =>
        Nat.le_trans hop (htakesLeft other hother).lt_rightLevel.2
      have hleftEnds : left.EndsBefore (⟨op, first'⟩ :: (steps' ++ tail)) := by
        rintro other step hother hstep
        cases hstep
        exact (htakesLeft other hother).lt_rightLevel.1
      obtain ⟨v, hv, htree, hrest⟩ := ihleft hplain hleftLeast hleftEnds
      -- The right operand ends before the operator that ends the whole.
      have hrightLeast : right.BindsAt op.rightLevel := fun other hother =>
        (htakesRight other hother).rightLevel_le
      have hrightEnds : right.EndsBefore tail := by
        intro other step hother hstep
        have hlt := htail op step rfl hstep
        have hle := (htakesRight other hother).rightLevel_le
        have hle' := other.level_le_rightLevel
        omega
      obtain ⟨v', hv', htree', hrest'⟩ := ihright hplain' hrightLeast hrightEnds
      obtain ⟨hstop, hleft⟩ := climb_of_lt v' fun step hstep => htail op step rfl hstep
      obtain ⟨hwhole, hwhole'⟩ := climb_cons v hop (htree'.trans hstop) (hrest'.trans hleft)
      rw [List.append_assoc, List.cons_append]
      exact ⟨v.combine op v', hv.binary op hv', htree.trans hwhole, hrest.trans hwhole'⟩

/-- Grouping finds the tree again. -/
theorem Expr.Spread.groupInfix {e first : Expr} {steps : List InfixStep}
    (h : e.Spread first steps) (he : e.Plain) : (groupInfix first steps).Alike e := by
  have hleast : e.BindsAt 0 := fun _ _ => Nat.zero_le _
  have hend : e.EndsBefore [] := fun _ _ _ hstep => by cases hstep
  obtain ⟨v, hv, htree, -⟩ := h.climb he hleast hend
  have hnil : (PklSyntax.climb 0 v []).tree = v := by rw [PklSyntax.climb]
  rw [List.append_nil, hnil] at htree
  rw [PklSyntax.groupInfix, htree]
  exact hv

/-- The operators of a plain expression do not lie too deep in one another. -/
theorem Expr.Plain.rightDepth_le {e : Expr} (h : e.Plain) : e.rightDepth ≤ nestingLimit := by
  cases h with
  | binary _ _ _ _ hdepth => exact hdepth
  | _ => exact Nat.zero_le _

end PklSyntax
