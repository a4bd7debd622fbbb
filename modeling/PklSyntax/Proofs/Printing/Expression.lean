import PklSyntax.Grammar.Nesting
import PklSyntax.Proofs.Layout.Expression
import PklSyntax.Proofs.Printing.Operand

/-!
# Reading plain expressions

The operands of an expression stand in the text in the order of its tree, so they are read by
induction on the tree: whoever goes on behind an expression goes on behind its last operand, and the
operator between two of them is a round of the loop over operators. What the loop has collected at
the end is grouped to the tree again.

A grammar that admits one more level of nesting applies the rules with the one before inside them,
so that plain expressions are read as deep as the grammar goes.

## Main statements

* `Grammar.ReadsPlain.operands`: the operands and operators of an expression.
* `Grammar.ReadsPlain.expressionRule`: plain expressions, when those inside them are read.
* `Grammar.readsPlain_nested`: plain expressions in the grammars that admit nesting.
-/

namespace PklSyntax

open PklSyntax.Parser

/-! ### Infix operators -/

section Infix

variable {ctx : Context} {s : State} {rest : List String}

theorem find?_operator_symbol : ∀ op ∈ BinaryOperator.all,
    BinaryOperator.longestFirst.find?
      (fun other => other.symbol.toList.isPrefixOf op.symbol.toList) = some op := by
  decide

/-- The operators that are looked for at the cursor are looked for in the first token. -/
theorem Line.firstOperator?_eq (h : At ctx.text s rest) :
    (BinaryOperator.longestFirst.find? fun op => matchesAt ctx.text op.symbol s.pos) =
      BinaryOperator.longestFirst.find? fun op =>
        op.symbol.toList.isPrefixOf (firstToken rest).toList := by
  have hblank : ∀ op : BinaryOperator, ' ' ∉ op.symbol.toList := by
    intro op
    cases op <;> decide
  exact congrArg (BinaryOperator.longestFirst.find? ·)
    (funext fun op => h.matchesAt_eq op.symbol (hblank op))

/-- An operator that stands at the cursor goes on an expression. -/
theorem Near.infixOperator? (op : BinaryOperator) (left : Expr)
    (h : Near ctx.text s (op.symbol :: rest)) :
    (Grammar.infixOperator? left).Reads ctx s fun op? s' =>
      op? = some op ∧ At ctx.text s' (op.symbol :: rest) := by
  refine h.skip.bind fun _ s₁ hat => .look (Grammar.firstOperator?_looks _) ?_
  have hfound : (BinaryOperator.longestFirst.find? fun other =>
      matchesAt ctx.text other.symbol s₁.pos) = some op := by
    rw [hat.firstOperator?_eq]
    exact find?_operator_symbol op (by cases op <;> decide)
  rw [hfound]
  cases op with
  | subtract =>
    refine .look (startsWith_looks "->") (.look (newlineSince_looks _) (.ite_false ?_ ?_))
    · rw [hat.sign "->" (by decide : _ ∧ _ = false), hat.hasLineFeed_eq]
      rfl
    · exact .pure ⟨rfl, hat⟩
  | _ => exact .pure ⟨rfl, hat⟩

/-- No operator stands where an expression ends. -/
theorem Near.not_infixOperator? (left : Expr) (h : Near ctx.text s rest)
    (hrest : firstToken rest ∈ exprEnds) :
    (Grammar.infixOperator? left).Reads ctx s fun op? s' => op? = none ∧ At ctx.text s' rest := by
  refine h.skip.bind fun _ s₁ hat => .look (Grammar.firstOperator?_looks _) ?_
  have hnone : (BinaryOperator.longestFirst.find? fun other =>
      matchesAt ctx.text other.symbol s₁.pos) = none := by
    rw [hat.firstOperator?_eq, List.find?_eq_none]
    exact fun op hop => Bool.eq_false_iff.1 (not_operator_of_exprEnds _ hrest op hop)
  rw [hnone]
  exact .pure ⟨rfl, hat⟩

end Infix

namespace Grammar.ReadsPlain

variable {g : Grammar} {ctx : Context} {depth : Nat} {s : State} {rest : List String}

/-! ### Expressions -/

/-- A round of the loop over the operators behind the operand `first`. -/
abbrev infixStep (g : Grammar) (first : Expr) (steps : Array InfixStep) :
    Parser (Round (Array InfixStep) (Array InfixStep)) := do
  match ← infixOperator? ((steps.back?.map InfixStep.operand).getD first) with
  | some op =>
    advance op.symbol.length
    return .next (steps.push ⟨op, ← g.operand⟩)
  | none => return .done steps

/-- The operands of an expression are read with the operators between them. The first operand is the
first of all, or it stands behind an operator: in either case, what comes of the loop behind the
expression comes of it behind the first operand. -/
theorem operands (hg : g.ReadsPlain ctx depth) {e : Expr} (hplain : e.Plain)
    (hdepth : e.nesting ≤ depth) {Q : Expr → Array InfixStep → State → Prop}
    (first : Expr → Expr) (before : Expr → Array InfixStep)
    (h : Near ctx.text s (e.tokens ++ rest)) (hrest : firstToken rest ∈ operandEnds)
    (hnext : ∀ v steps s', e.Spread v steps → At ctx.text s' rest →
      Loops (infixStep g (first v)) ctx (Q (first v)) (before v ++ steps) s') :
    g.operand.Reads ctx s fun v s' => s.pos < s'.pos ∧ s'.pos ≤ ctx.text.size ∧
      Loops (infixStep g (first v)) ctx (Q (first v)) (before v) s' := by
  have hoperand {e : Expr} {rest : List String} {s : State} {before : Expr → Array InfixStep}
      {first : Expr → Expr} (hplain : e.Plain) (hroot : e.rootOperator? = none)
      (hdepth : e.nesting ≤ depth) (h : Near ctx.text s (e.tokens ++ rest))
      (hrest : firstToken rest ∈ operandEnds)
      (hnext : ∀ v steps s', e.Spread v steps → At ctx.text s' rest →
        Loops (infixStep g (first v)) ctx (Q (first v)) (before v ++ steps) s') :
      g.operand.Reads ctx s fun v s' => s.pos < s'.pos ∧ s'.pos ≤ ctx.text.size ∧
        Loops (infixStep g (first v)) ctx (Q (first v)) (before v) s' := by
    refine (hg.operand hplain hroot hdepth hrest h).mono ?_
    rintro v s' ⟨hv, hat⟩
    refine ⟨h.pos_lt _ hplain.tokens_ne_nil hat.near_at, hat.pos_le, ?_⟩
    have hloop := hnext v [] s' (.operand hv) hat
    rwa [Array.appendList_nil] at hloop
  induction hplain generalizing rest s first before with
  | @binary left right op span hleft hright htakesLeft htakesRight hrightDepth ihleft ihright =>
    obtain ⟨hleftDepth, hdepth'⟩ := Nat.max_le.1 hdepth
    rw [Expr.tokens, List.append_assoc] at h
    have hop : ∀ op : BinaryOperator, op.symbol ∈ operandEnds := by
      intro op
      cases op <;> decide
    refine ihleft hleftDepth first before h (hop op) fun v steps s₁ hsteps hat => .next ?_
    refine (hat.near_at.infixOperator? op _).bind ?_
    rintro _ s₂ ⟨rfl, hat₂⟩
    refine (hat₂.advance_token rfl).bind fun _ s₃ hbehind => ?_
    refine (ihright hdepth' (fun _ => first v) (fun w => (before v ++ steps).push ⟨op, w⟩)
      hbehind.near_behind hrest fun w steps' s' hsteps' hat' => ?_).bind
        fun w s₄ hright => .pure ⟨_, rfl, ?_, hright.2⟩
    · have hloop := hnext v (steps ++ ⟨op, w⟩ :: steps') s' (.binary hsteps hsteps') hat'
      have harrays : (before v ++ steps).push ⟨op, w⟩ ++ steps' =
          before v ++ (steps ++ ⟨op, w⟩ :: steps') := by
        apply Array.toList_inj.1
        simp
      rwa [harrays]
    · have hlt := hat.near_at.pos_lt [op.symbol] (by simp) hbehind.near_behind
      exact Nat.lt_trans hlt hright.1
  | number hliteral => exact hoperand (.number hliteral) rfl hdepth h hrest hnext
  | identifier hname => exact hoperand (.identifier hname) rfl hdepth h hrest hnext
  | paren hinner => exact hoperand (.paren hinner) rfl hdepth h hrest hnext
  | call hcallee hargs => exact hoperand (.call hcallee hargs) rfl hdepth h hrest hnext
  | dot ht hf hm => exact hoperand (.dot ht hf hm) rfl hdepth h hrest hnext
  | nullSafe ht hf hm => exact hoperand (.nullSafe ht hf hm) rfl hdepth h hrest hnext
  | bracket ht hf hi => exact hoperand (.bracket ht hf hi) rfl hdepth h hrest hnext
  | nonNull ho hf => exact hoperand (.nonNull ho hf) rfl hdepth h hrest hnext
  | typeTest he ht hn => exact hoperand (.typeTest he ht hn) rfl hdepth h hrest hnext
  | typeCast he ht hn => exact hoperand (.typeCast he ht hn) rfl hdepth h hrest hnext
  | unary ho hr => exact hoperand (.unary ho hr) rfl hdepth h hrest hnext

/-- A plain expression is read, up to where it ends, when the grammar reads those inside it. -/
theorem expressionRule (hg : g.ReadsPlain ctx depth) {e : Expr} (hplain : e.Plain)
    (hdepth : e.nesting ≤ depth) (h : Near ctx.text s (e.tokens ++ rest))
    (hrest : firstToken rest ∈ exprEnds) :
    g.expressionRule.Reads ctx s fun v s' => v.Alike e ∧ Near ctx.text s' rest := by
  have hdone (v : Expr) (steps : List InfixStep) (s' : State) (hsteps : e.Spread v steps)
      (hat : At ctx.text s' rest) : Loops (infixStep g v) ctx
        (fun found s'' => e.Spread v found.toList ∧ At ctx.text s'' rest)
          ((#[] : Array InfixStep) ++ steps) s' := by
    refine .done ((hat.near_at.not_infixOperator? _ hrest).bind ?_)
    rintro _ s'' ⟨rfl, hat'⟩
    exact .pure ⟨_, rfl, by simpa using hsteps, hat'⟩
  have hoperands := hg.operands hplain hdepth
    (Q := fun v found s' => e.Spread v found.toList ∧ At ctx.text s' rest) id (fun _ => #[]) h
    (List.mem_append_left _ hrest) hdone
  refine hoperands.bind fun first s₁ ⟨_, _, hloop⟩ => hloop.reads.bind
    fun steps s₂ ⟨hsteps, hat⟩ => ?_
  have halike : (groupInfix first steps.toList).Alike e := hsteps.groupInfix hplain
  have hdeep : ¬ nestingLimit < (groupInfix first steps.toList).rightDepth := by
    rw [halike.rightDepth_eq]
    exact Nat.not_lt.2 hplain.rightDepth_le
  dsimp only
  rw [if_neg hdeep]
  exact .pure ⟨halike, hat.near_at⟩

end Grammar.ReadsPlain

/-- Grammars read the plain expressions for which they admit nesting enough. -/
theorem Grammar.readsPlain_nested (ctx : Context) (depth : Nat) :
    (Grammar.nested depth).ReadsPlain ctx depth := by
  induction depth with
  | zero => exact ⟨fun _ h => absurd h (Nat.not_lt_zero _), fun h => absurd h (Nat.not_lt_zero _)⟩
  | succ depth ih =>
    exact ⟨fun hplain hdepth h hrest => ih.expressionRule hplain (Nat.le_of_lt_succ hdepth) h hrest,
      fun _ hname h hend => h.singleType hname hend⟩

end PklSyntax
