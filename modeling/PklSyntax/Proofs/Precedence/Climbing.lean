import PklSyntax.Proofs.Precedence.InfixTree
import PklSyntax.Proofs.Printing.Grouping

/-!
# Climbing builds the grouped tree

Climbing begins with a tree to the left of all that is still to be read. As long as the next
operator binds at the least level that is asked for, it takes the tree as its left operand, and
climbing from the operand behind it, at the level that it grants, gives its right one.

What carries the induction is that the next operator is never one that the right operand of the root
would have taken: such an operator binds less tight than the root asks of its right operand, so the
root may stand on its left. On the right, climbing has taken only operators at the level that was
granted. At the level of a whole sequence no operator is left over.

## Main definitions

* `InfixTree.ClimbsTo`: the tree to which climbing leads, and the steps that are left.

## Main statements

* `InfixTree.exists_climbsTo`: climbing leads from a grouped tree to a grouped one.
* `groupSymbols_iff_grouped`: a sequence is given its one grouped tree, or refused for the number of
  its operands or for a symbol that is no operator.
-/

namespace PklSyntax

/-- An operator that a right operand does not take may have its owner on its left. -/
theorem BinaryOperator.takesLeft_of_lt_rightLevel {op other : BinaryOperator}
    (h : op.level < other.rightLevel) : op.TakesLeft other := by
  rw [TakesLeft]
  revert h
  cases op <;> cases other <;> decide

/-- What binds at the level that an operator grants may stand on its right. -/
theorem BinaryOperator.takesRight_of_rightLevel_le {op other : BinaryOperator}
    (h : op.rightLevel ≤ other.level) : op.TakesRight other := by
  rw [TakesRight]
  revert h
  cases op <;> cases other <;> decide

namespace InfixTree

/-- The operator at the root, when there is one, binds at the level or tighter. -/
def BindsAt (t : InfixTree) (least : Nat) : Prop := ∀ op, t.root? = some op → least ≤ op.level

/-- The steps begin with no operator that the right operand of the root takes. -/
def EndsBefore (t : InfixTree) (steps : List InfixStep) : Prop :=
  ∀ op step, t.root? = some op → steps.head? = some step → step.op.level < op.rightLevel

/-- Climbing from `t` over the steps leads to `u`, which has taken all steps but `rest`. -/
structure ClimbsTo (least : Nat) (t : InfixTree) (steps : List InfixStep) (u : InfixTree)
    (rest : List InfixStep) : Prop where
  tree : (climb least t.toExpr steps).tree = u.toExpr
  left : (climb least t.toExpr steps).rest = rest
  grouped : u.Grouped
  operands : t.operands ++ steps.map InfixStep.operand = u.operands ++ rest.map InfixStep.operand
  operators : t.operators ++ steps.map InfixStep.op = u.operators ++ rest.map InfixStep.op
  bindsAt : t.BindsAt least → u.BindsAt least
  stops : ∀ step, rest.head? = some step → step.op.level < least

/-- Where the next operator does not bind at the level, nothing is taken. -/
theorem ClimbsTo.of_lt {least : Nat} {t : InfixTree} {steps : List InfixStep} (ht : t.Grouped)
    (hstop : ∀ step, steps.head? = some step → step.op.level < least) :
    ClimbsTo least t steps t steps where
  tree := (climb_of_lt t.toExpr hstop).1
  left := (climb_of_lt t.toExpr hstop).2
  grouped := ht
  operands := rfl
  operators := rfl
  bindsAt := id
  stops := hstop

/-- A step whose operator binds at the level takes the tree on its left, and on its right what
climbing makes of the rest. -/
theorem ClimbsTo.step {least : Nat} {t right u : InfixTree} {step : InfixStep}
    {tail between rest : List InfixStep} (hle : least ≤ step.op.level)
    (hright : ClimbsTo step.op.rightLevel (leaf step.operand) tail right between)
    (hwhole : ClimbsTo least (node t step.op right) between u rest) :
    ClimbsTo least t (step :: tail) u rest := by
  obtain ⟨htree, hleft⟩ := climb_cons t.toExpr hle hright.tree hright.left
  rw [← toExpr_node] at htree hleft
  refine ⟨htree.trans hwhole.tree, hleft.trans hwhole.left, hwhole.grouped, ?_, ?_, ?_,
    hwhole.stops⟩
  · calc t.operands ++ (step :: tail).map InfixStep.operand
        = t.operands ++ ((leaf step.operand).operands ++ tail.map InfixStep.operand) := rfl
      _ = (node t step.op right).operands ++ between.map InfixStep.operand := by
        rw [hright.operands, InfixTree.operands, List.append_assoc]
      _ = u.operands ++ rest.map InfixStep.operand := hwhole.operands
  · calc t.operators ++ (step :: tail).map InfixStep.op
        = t.operators ++ step.op :: ((leaf step.operand).operators ++ tail.map InfixStep.op) := rfl
      _ = (node t step.op right).operators ++ between.map InfixStep.op := by
        rw [hright.operators, InfixTree.operators, List.append_assoc, List.cons_append]
      _ = u.operators ++ rest.map InfixStep.op := hwhole.operators
  · intro _
    refine hwhole.bindsAt fun op hop => ?_
    cases hop
    exact hle

/-- Climbing leads from a grouped tree to a grouped one. -/
theorem exists_climbsTo (least : Nat) {t : InfixTree} {steps : List InfixStep} (ht : t.Grouped)
    (hends : t.EndsBefore steps) : ∃ u rest, ClimbsTo least t steps u rest := by
  induction hn : steps.length using Nat.strong_induction_on generalizing least t steps with
  | _ n ih =>
    subst hn
    cases steps with
    | nil => exact ⟨t, [], .of_lt ht fun step hstep => nomatch hstep⟩
    | cons step tail =>
      rcases Nat.lt_or_ge step.op.level least with hlt | hle
      · refine ⟨t, step :: tail, .of_lt ht fun other hother => ?_⟩
        cases hother
        exact hlt
      · obtain ⟨right, between, hright⟩ := ih tail.length (Nat.lt_succ_self _)
          step.op.rightLevel (.leaf step.operand) (fun op other hop => nomatch hop) rfl
        have hgrouped : (node t step.op right).Grouped := by
          refine .node ht hright.grouped (fun other hother => ?_) fun other hother => ?_
          · exact BinaryOperator.takesLeft_of_lt_rightLevel (hends other step hother rfl)
          · exact BinaryOperator.takesRight_of_rightLevel_le
              (hright.bindsAt (fun op hop => nomatch hop) other hother)
        have hbetween : (node t step.op right).EndsBefore between := by
          intro op other hop hother
          cases hop
          exact hright.stops other hother
        have hlength : between.length < (step :: tail).length := by
          have hle' := (climb step.op.rightLevel step.operand tail).length_le
          have hrest : (climb step.op.rightLevel step.operand tail).rest = between := hright.left
          rw [hrest] at hle'
          exact Nat.lt_succ_of_le hle'
        obtain ⟨u, rest, hwhole⟩ := ih between.length hlength least hgrouped hbetween rfl
        exact ⟨u, rest, .step hle hright hwhole⟩

/-- Grouping gives a grouped tree of the whole sequence. -/
theorem exists_groupInfix (first : Expr) (steps : List InfixStep) :
    ∃ t : InfixTree, groupInfix first steps = t.toExpr ∧ t.Grouped ∧
      t.operands = first :: steps.map InfixStep.operand ∧
      t.operators = steps.map InfixStep.op := by
  have hends : (leaf first).EndsBefore steps := fun op other hop => nomatch hop
  obtain ⟨t, rest, h⟩ := exists_climbsTo 0 (.leaf first) hends
  have hrest : rest = [] := by
    cases rest with
    | nil => rfl
    | cons step rest => exact absurd (h.stops step rfl) (Nat.not_lt_zero _)
  subst hrest
  have hoperands := h.operands
  have hoperators := h.operators
  rw [List.map_nil, List.append_nil] at hoperands hoperators
  exact ⟨t, h.tree, h.grouped, hoperands.symm, hoperators.symm⟩

end InfixTree

/-! ### Operators as they are written -/

/-- A symbol is found when it is the symbol of an operator. -/
theorem BinaryOperator.ofSymbol_eq (symbol : String) :
    (∃ op : BinaryOperator, op.symbol = symbol ∧ ofSymbol symbol = .ok op) ∨
      (∀ op : BinaryOperator, op.symbol ≠ symbol) ∧
        ofSymbol symbol = .error (.unknownOperator symbol) := by
  rw [ofSymbol]
  cases hfind : ofSymbol? symbol with
  | some op => exact .inl ⟨op, by simpa using List.find?_some hfind, rfl⟩
  | none =>
    refine .inr ⟨fun op heq => ?_, rfl⟩
    have hall : op ∈ all := by cases op <;> decide
    have := List.find?_eq_none.1 hfind op hall
    simp [heq] at this

/-- Symbols stand for operators, or there is one among them that stands for none. -/
theorem BinaryOperator.mapM_ofSymbol (symbols : List String) :
    (∃ ops : List BinaryOperator, ops.map symbol = symbols ∧
        symbols.mapM ofSymbol = .ok ops) ∨
      ∃ unknown ∈ symbols, (∀ op : BinaryOperator, op.symbol ≠ unknown) ∧
        symbols.mapM ofSymbol = .error (.unknownOperator unknown) := by
  induction symbols with
  | nil => exact .inl ⟨[], rfl, rfl⟩
  | cons first symbols ih =>
    rw [List.mapM_cons]
    rcases ofSymbol_eq first with ⟨op, hop, hfirst⟩ | ⟨hnone, hfirst⟩
    · rw [hfirst]
      rcases ih with ⟨ops, hops, hrest⟩ | ⟨unknown, hmem, hnone, hrest⟩
      · exact .inl ⟨op :: ops, by rw [List.map_cons, hop, hops], by rw [hrest]; rfl⟩
      · exact .inr ⟨unknown, List.mem_cons_of_mem _ hmem, hnone, by rw [hrest]; rfl⟩
    · exact .inr ⟨first, List.mem_cons_self, hnone, by rw [hfirst]; rfl⟩

/-- The symbols of operators are those of the operators, and of no others. -/
theorem BinaryOperator.mapM_ofSymbol_map (ops : List BinaryOperator) :
    (ops.map symbol).mapM ofSymbol = .ok ops := by
  rcases mapM_ofSymbol (ops.map symbol) with ⟨ops', hops', hrun⟩ | ⟨unknown, hmem, hnone, -⟩
  · rw [hrun, List.map_injective_iff.2 symbol_injective hops']
  · obtain ⟨op, -, hop⟩ := List.mem_map.1 hmem
    exact absurd hop (hnone op)

/-- Operators and as many operands, taken together, are the steps of a sequence. -/
theorem InfixStep.map_zipWith {ops : List BinaryOperator} {others : List Expr}
    (hlength : ops.length = others.length) :
    (List.zipWith mk ops others).map operand = others ∧
      (List.zipWith mk ops others).map op = ops := by
  have hsnd := List.map_snd_zip hlength.ge
  have hfst := List.map_fst_zip hlength.le
  rw [List.zip, List.map_zipWith] at hsnd hfst
  rw [List.map_zipWith, List.map_zipWith]
  exact ⟨hsnd, hfst⟩

/-- A sequence is refused when it has not one operand more than operators, and otherwise when one of
its symbols is no operator. Else it is given a grouped tree with the operands and the operators in
their order, and there is no other one. -/
theorem groupSymbols_iff_grouped (operands : List Expr) (symbols : List String) :
    (operands.length ≠ symbols.length + 1 →
        groupSymbols operands symbols =
          .error (.operandCount symbols.length operands.length)) ∧
      (operands.length = symbols.length + 1 →
        ((∃ unknown ∈ symbols, ∀ op : BinaryOperator, op.symbol ≠ unknown) ↔
          ∃ unknown ∈ symbols,
            groupSymbols operands symbols = .error (.unknownOperator unknown)) ∧
        ∀ ops : List BinaryOperator, ops.map BinaryOperator.symbol = symbols →
          ∃ t : InfixTree, groupSymbols operands symbols = .ok t.toExpr ∧
            t.operands = operands ∧ t.operators = ops ∧ t.Grouped ∧
            ∀ other : InfixTree, other.operands = operands → other.operators = ops →
              other.Grouped → other = t) := by
  cases operands with
  | nil => exact ⟨fun _ => rfl, fun h => nomatch h⟩
  | cons first others =>
    rw [groupSymbols, List.length_cons]
    refine ⟨fun hcount => if_pos fun h => hcount (by rw [h]), fun hcount => ?_⟩
    have hlength : others.length = symbols.length := Nat.succ.inj hcount
    rw [if_neg (not_not_intro hlength)]
    refine ⟨?_, ?_⟩
    · rcases BinaryOperator.mapM_ofSymbol symbols with
        ⟨ops, rfl, hrun⟩ | ⟨unknown, hmem, hnone, hrun⟩
      · rw [hrun]
        refine ⟨fun ⟨unknown, hmem, hnone⟩ => ?_, fun ⟨unknown, hmem, herror⟩ => nomatch herror⟩
        obtain ⟨op, -, hop⟩ := List.mem_map.1 hmem
        exact absurd hop (hnone op)
      · rw [hrun]
        exact ⟨fun _ => ⟨unknown, hmem, rfl⟩, fun _ => ⟨unknown, hmem, hnone⟩⟩
    · rintro ops rfl
      rw [List.length_map] at hlength
      obtain ⟨hothers, hops⟩ := InfixStep.map_zipWith hlength.symm
      obtain ⟨t, htree, hgrouped, hoperands, hoperators⟩ :=
        InfixTree.exists_groupInfix first (List.zipWith InfixStep.mk ops others)
      rw [hothers] at hoperands
      rw [hops] at hoperators
      refine ⟨t, ?_, hoperands, hoperators, hgrouped, fun other hother hother' hgrouped' => ?_⟩
      · rw [BinaryOperator.mapM_ofSymbol_map, ← htree]
        rfl
      · exact hgrouped'.eq_of_sequence hgrouped (hother.trans hoperands.symm)
          (hother'.trans hoperators.symm)

end PklSyntax
