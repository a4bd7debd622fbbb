import PklSyntax.Tree.Basic

/-!
# Grouping of infix operators

The grammar reads `operand (operator operand)*` as a flat sequence. Its tree is found by climbing:
an operand takes the operators that follow it as long as they bind at some least level, and the
right operand of each is what the same procedure makes of the rest at the least level that the
operator grants it.

## Main definitions

* `InfixStep`: an operator with the operand to its right.
* `climb`: the tree for the steps that bind at a least level, and the steps that are left.
* `groupInfix`: the tree of a whole sequence.
* `groupSymbols`: the same for operators given as they are written; it may fail.
* `Expr.rightDepth`: how often a right operand is itself built with an operator, along one branch.
-/

namespace PklSyntax

/-- An operator with the operand to its right. -/
structure InfixStep where
  op : BinaryOperator
  operand : Expr

/-- The tree of an operator with both operands. -/
def Expr.combine (left : Expr) (op : BinaryOperator) (right : Expr) : Expr :=
  .binary left op right (left.span.cover right.span)

/-- What `climb` has made of a sequence of steps: a tree, and the steps that are left. -/
structure Climbed (steps : List InfixStep) where
  tree : Expr
  rest : List InfixStep
  length_le : rest.length ≤ steps.length

/-- Lets `left` take the steps whose operators bind at `least` or tighter, until one does not. -/
def climb (least : Nat) (left : Expr) (steps : List InfixStep) : Climbed steps :=
  match steps with
  | [] => ⟨left, [], Nat.le_refl _⟩
  | step :: tail =>
    if step.op.level < least then ⟨left, step :: tail, Nat.le_refl _⟩
    else
      match climb step.op.rightLevel step.operand tail with
      | ⟨right, rest, length_le⟩ =>
        match climb least (left.combine step.op right) rest with
        | ⟨whole, left, length_le'⟩ =>
          ⟨whole, left, Nat.le_trans length_le' (Nat.le_succ_of_le length_le)⟩
termination_by steps.length
decreasing_by all_goals simp only [List.length_cons]; omega

/-- The tree of an operand and the steps that follow it. -/
def groupInfix (first : Expr) (steps : List InfixStep) : Expr :=
  (climb 0 first steps).tree

/-- Why a sequence of operands and operators has no tree. -/
inductive GroupingError where
  | operandCount (operators operands : Nat)
  | unknownOperator (symbol : String)
  deriving Repr, DecidableEq

/-- The text of the error. -/
def GroupingError.message : GroupingError → String
  | operandCount operators operands =>
    "expected " ++ toString (operators + 1) ++ " operands for " ++ toString operators ++
      " operators, got " ++ toString operands
  | unknownOperator symbol => "unknown operator '" ++ symbol ++ "'"

/-- The operator that is written so, or the error that there is none. -/
def BinaryOperator.ofSymbol (symbol : String) : Except GroupingError BinaryOperator :=
  match ofSymbol? symbol with
  | some op => .ok op
  | none => .error (.unknownOperator symbol)

/-- The tree of operands with operators, given as they are written, between them. A wrong number
of operands is reported before an unknown operator. -/
def groupSymbols (operands : List Expr) (symbols : List String) : Except GroupingError Expr :=
  match operands with
  | [] => .error (.operandCount symbols.length 0)
  | first :: others =>
    if others.length ≠ symbols.length then
      .error (.operandCount symbols.length operands.length)
    else do
      let ops ← symbols.mapM BinaryOperator.ofSymbol
      return groupInfix first (List.zipWith InfixStep.mk ops others)

/-- The greatest number of right operands, each within the one before, that lie on one branch of
the infix operators at the top of an expression. -/
def Expr.rightDepth : Expr → Nat
  | .binary left _ right _ => max left.rightDepth (right.rightDepth + 1)
  | _ => 0

end PklSyntax
