import PklSyntax.Grammar.Expression
import PklSyntax.Proofs.Names.Type

/-!
# Names in expressions

An expression names parameters and the variables of `let`. It refers to values by their names, and
calls by the name of what is called; here some keywords are admitted, not the same ones for both.
What is built with operators, selected or amended names nothing more than its parts do.

## Main statements

* `Grammar.WellNamed.param`, `Grammar.WellNamed.letExpression`: names that are given.
* `Grammar.WellNamed.nameExpression`, `Grammar.WellNamed.identifierExpression`: names and calls.
* `Grammar.WellNamed.expressionRule`: an expression is well-named when what stands inside it is.
-/

namespace PklSyntax

/-! ### Infix operators -/

/-- The operands of the steps are well-named. -/
def OperandsWellNamed (steps : List InfixStep) : Prop :=
  ∀ step ∈ steps, (Node.expr step.operand).WellNamed

theorem Expr.wellNamed_combine {left right : Expr} (op : BinaryOperator)
    (hleft : (Node.expr left).WellNamed) (hright : (Node.expr right).WellNamed) :
    (Node.expr (left.combine op right)).WellNamed := by
  refine .of_children trivial ?_
  simpa [combine, Node.children, Node.fields, Expr.fields] using ⟨hleft, hright⟩

/-- Climbing brings no name into a tree that its operands do not have. -/
theorem wellNamed_climb (least : Nat) {left : Expr} {steps : List InfixStep}
    (hleft : (Node.expr left).WellNamed) (hsteps : OperandsWellNamed steps) :
    (Node.expr (climb least left steps).tree).WellNamed ∧
      OperandsWellNamed (climb least left steps).rest := by
  fun_induction climb least left steps with
  | case1 least left => exact ⟨hleft, hsteps⟩
  | case2 least left step tail hlt => exact ⟨hleft, hsteps⟩
  | case3 least left step tail hge right rest hle hright whole rest' hle' hwhole ih₁ ih₂ =>
    obtain ⟨hoperand, htail⟩ := List.forall_mem_cons.1 hsteps
    have hclimbed := ih₁ hoperand htail
    rw [hright] at hclimbed
    rw [hwhole] at ih₂
    exact ih₂ (Expr.wellNamed_combine step.op hleft hclimbed.1) hclimbed.2

theorem wellNamed_groupInfix {first : Expr} {steps : List InfixStep}
    (hfirst : (Node.expr first).WellNamed) (hsteps : OperandsWellNamed steps) :
    (Node.expr (groupInfix first steps)).WellNamed :=
  (wellNamed_climb 0 hfirst hsteps).1

namespace Grammar

open PklSyntax.Parser

variable {g : Grammar} {e : Expr}

/-! ### Amendments and selections -/

theorem wellNamed_select {access : Access} (he : (Node.expr e).WellNamed)
    (haccess : (Node.access access).WellNamed) : (Node.expr (select e access)).WellNamed := by
  refine .of_children trivial ?_
  simpa [select, Node.children, Node.fields, Expr.fields] using ⟨he, haccess⟩

theorem wellNamed_unitLiteral {target : Expr} {member : Member}
    (h : unitLiteral? target member = some e) : (Node.expr e).WellNamed := by
  rw [unitLiteral?.eq_def] at h
  split at h
  next amount name =>
    simp only at h
    split at h
    next => cases h
    next =>
      split at h <;> cases h
      all_goals
        refine .of_children trivial ?_
        simp [Node.children, Node.fields, Expr.fields]
  next => cases h

theorem wellNamed_amended {bodies : List ObjectBody} (he : (Node.expr e).WellNamed)
    (hbodies : ∀ body ∈ bodies, (Node.objectBody body).WellNamed) (span : Span) :
    (Node.expr (.amended e bodies span)).WellNamed := by
  refine .of_children trivial ?_
  simpa [Node.children, Node.fields, Expr.fields, or_imp, forall_and] using ⟨he, hbodies⟩

/-- The parentheses around a base that is amended are dropped. -/
theorem wellNamed_amend_inner {inner : Expr} {first : ObjectBody} {span : Span}
    (he : (Node.expr (.paren inner span)).WellNamed) (hfirst : (Node.objectBody first).WellNamed)
    (span' : Span) : (Node.expr (.amend inner first span')).WellNamed := by
  have hinner : (Node.expr inner).WellNamed :=
    ((Node.wellNamed_iff _).1 he).2 _ (by simp [Node.children, Node.fields, Expr.fields])
  refine .of_children trivial ?_
  simpa [Node.children, Node.fields, Expr.fields] using ⟨hinner, hfirst⟩

theorem wellNamed_amend {first : ObjectBody} {others : List ObjectBody} {span : Span}
    (he : (Node.expr e).WellNamed) (hfirst : (Node.objectBody first).WellNamed)
    (hothers : ∀ body ∈ others, (Node.objectBody body).WellNamed) :
    (Node.expr (amend e first others span)).WellNamed := by
  rw [amend.eq_def]
  split
  next => exact wellNamed_amend_inner he hfirst _
  next => exact wellNamed_amended (wellNamed_amend_inner he hfirst _) hothers _
  next => exact wellNamed_amended he (List.forall_mem_cons.2 ⟨hfirst, hothers⟩) _

/-- Prefix operators bring no name to their operand. -/
theorem wellNamed_applyPrefixes (operators : List (UnaryOperator × Nat))
    (he : (Node.expr e).WellNamed) : (Node.expr (applyPrefixes operators e)).WellNamed := by
  induction operators generalizing e with
  | nil => exact he
  | cons operator operators ih =>
    apply ih
    refine .of_children trivial ?_
    simpa [Node.children, Node.fields, Expr.fields] using he

/-! ### Constants and calls -/

theorem constant?_gives :
    constant?.Gives fun constant? => ∀ e ∈ constant?, (Node.expr e).WellNamed := by
  have hbool (value : Bool) (span : Span) : ∀ e ∈ some (Expr.bool value span),
      (Node.expr e).WellNamed := by
    rintro _ ⟨⟩
    exact .of_children trivial (by simp [Node.children, Node.fields, Expr.fields])
  have hnull (span : Span) : ∀ e ∈ some (Expr.null span), (Node.expr e).WellNamed := by
    rintro _ ⟨⟩
    exact .of_children trivial (by simp [Node.children, Node.fields, Expr.fields])
  refine .after fun _ => .ite (fun _ => .after fun span => .pure (hbool true span)) fun _ => ?_
  refine .after fun _ => .ite (fun _ => .after fun span => .pure (hbool false span)) fun _ => ?_
  refine .after fun _ => .ite (fun _ => .after fun span => .pure (hnull span)) fun _ => ?_
  apply Gives.pure
  simp

/-- A call that stands by itself is well-named when its callee may be called. -/
theorem wellNamed_call {c : Call} (h : (Node.call c).WellNamed)
    (hcallee : c.callee.FreeExcept callableKeywords) : (Node.expr (.call c)).WellNamed :=
  h.recast hcallee rfl

/-- A round of the loops of an operand keeps well-named what has been read of it. -/
abbrev WellNamedRound : Round Expr Expr → Prop :=
  Round.Meets (fun e => (Node.expr e).WellNamed) fun e => (Node.expr e).WellNamed

namespace WellNamed

/-! ### Calls and members -/

theorem call (hg : g.WellNamed) {callee : Identifier} {kind : CallKind} :
    (g.call callee kind).Gives fun c => c.callee = callee ∧ (Node.call c).WellNamed := by
  apply Gives.after
  intro _
  apply (commaList_gives hg.expr).bind
  intro args hargs
  apply Gives.after
  intro close
  apply Gives.pure
  constructor
  · rfl
  · refine .of_children trivial ?_
    simpa [Node.children, Node.fields, Call.fields] using hargs

/-- A member may have any name. -/
theorem member (hg : g.WellNamed) : g.member.Gives fun m => (Node.ofMember m).WellNamed := by
  refine .after fun _ => .after fun name => .after fun c => .ite (fun _ => ?_) fun _ => ?_
  · apply hg.call.bind
    intro c hc
    exact .pure hc.2
  · exact .pure (Node.wellNamed_identifier name)

/-! ### Parameters and lambdas -/

/-- A type behind a colon, if there is one. -/
theorem annotatedType (hg : g.WellNamed) {β : Type} {k : Option TypeExpr → Parser β}
    {Q : β → Prop} (hk : ∀ type?, (∀ t ∈ type?, (Node.type t).WellNamed) → (k type?).Gives Q) :
    (do
      let found ← accept ":"
      if found = true then do
        let type ← some <$> g.type
        k type
      else do
        let type ← pure none
        k type : Parser β).Gives Q :=
  announced_gives hg.type hk

theorem param (hg : g.WellNamed) : g.param.Gives fun p => (Node.param p).WellNamed := by
  apply expectName_gives.bind
  intro name hname
  apply hg.annotatedType
  intro type? htype
  apply Gives.pure
  refine .of_children hname ?_
  simpa [Node.children, Node.fields, Param.fields] using htype

theorem params (hg : g.WellNamed) :
    g.params.Gives fun params => ∀ p ∈ params.1, (Node.param p).WellNamed := by
  apply Gives.after
  intro _
  apply (commaList_gives hg.param).bind
  intro params hparams
  apply Gives.after
  intro close
  exact .pure hparams

theorem lambda? (hg : g.WellNamed) :
    g.lambda?.Gives fun lambda? => ∀ e ∈ lambda?, (Node.expr e).WellNamed := by
  refine .after fun before => .after fun start => hg.params.attempt.bind fun params? hparams => ?_
  cases params? with
  | none =>
    apply Gives.after
    intro _
    apply Gives.pure
    simp
  | some params =>
    refine .after fun arrow => .ite (fun _ => ?_) fun _ => ?_
    · apply Gives.after
      intro _
      apply hg.expr.bind
      intro body hbody
      apply Gives.pure
      simp only [Option.mem_def, Option.some.injEq, forall_eq']
      refine .of_children trivial ?_
      simpa [Node.children, Node.fields, Expr.fields, or_imp, forall_and]
        using ⟨hparams params rfl, hbody⟩
    · apply Gives.after
      intro _
      apply Gives.pure
      simp

/-! ### Primary expressions -/

theorem parenthesized (hg : g.WellNamed) :
    g.parenthesized.Gives fun e => (Node.expr e).WellNamed := by
  apply Gives.after
  intro start
  apply hg.lambda?.bind
  intro lambda? hlambda
  cases lambda? with
  | some lambda => exact .pure (hlambda lambda rfl)
  | none =>
    apply Gives.after
    intro _
    apply hg.expr.bind
    intro inner hinner
    apply Gives.after
    intro close
    apply Gives.pure
    refine .of_children trivial ?_
    simpa [Node.children, Node.fields, Expr.fields] using hinner

theorem conditional (hg : g.WellNamed) :
    g.conditional.Gives fun e => (Node.expr e).WellNamed := by
  refine .after fun start => .after fun _ => .after fun _ => ?_
  apply hg.expr.bind
  intro condition hcondition
  apply Gives.after
  intro _
  apply hg.expr.bind
  intro thenBranch hthen
  apply Gives.after
  intro _
  apply hg.expr.bind
  intro elseBranch helse
  apply Gives.pure
  refine .of_children trivial ?_
  simpa [Node.children, Node.fields, Expr.fields] using ⟨hcondition, hthen, helse⟩

theorem letExpression (hg : g.WellNamed) :
    g.letExpression.Gives fun e => (Node.expr e).WellNamed := by
  refine .after fun start => .after fun _ => .after fun _ => ?_
  apply expectName_gives.bind
  intro name hname
  apply hg.annotatedType
  intro type? htype
  refine .after fun assign => .guard failExpected_gives fun _ => .after fun _ => ?_
  apply hg.expr.bind
  intro value hvalue
  apply Gives.after
  intro _
  apply hg.expr.bind
  intro body hbody
  apply Gives.pure
  refine .of_children hname ?_
  simpa [Node.children, Node.fields, Expr.fields, or_imp, forall_and] using ⟨htype, hvalue, hbody⟩

theorem newExpression (hg : g.WellNamed) :
    g.newExpression.Gives fun e => (Node.expr e).WellNamed := by
  refine .after fun start => .after fun _ => .after fun untyped => .branch
    (P := fun type? => ∀ t ∈ type?, (Node.type t).WellNamed) (fun _ => .pure (by simp))
    (fun _ => .map (hg.type.mono fun t ht => by simpa using ht)) fun type? htype => ?_
  apply hg.body.bind
  intro body hbody
  apply Gives.pure
  refine .of_children trivial ?_
  simpa [Node.children, Node.fields, Expr.fields, or_imp, forall_and] using ⟨htype, hbody⟩

/-- A name that stands by itself is free or refers to what surrounds it, and the name of a call is
free or a keyword that is called like a function. -/
theorem nameExpression (hg : g.WellNamed) :
    g.nameExpression.Gives fun e => (Node.expr e).WellNamed := by
  refine .after fun name => .after fun c => .ite (fun _ => ?_) fun _ => ?_
  · apply Gives.guard failWith_gives
    intro hname
    rw [Bool.not_eq_true, ← Identifier.freeExcept_iff] at hname
    apply hg.call.bind
    rintro c ⟨rfl, hc⟩
    exact .pure (wellNamed_call hc hname)
  · apply Gives.guard failWith_gives
    intro hname
    rw [Bool.not_eq_true, ← Identifier.freeExcept_iff] at hname
    exact .pure ((Node.wellNamed_identifier name).recast hname rfl)

/-- `read?` and `read*` are called under the name `read`. -/
theorem identifierExpression (hg : g.WellNamed) :
    g.identifierExpression.Gives fun e => (Node.expr e).WellNamed := by
  apply Gives.after
  intro kind?
  cases kind? with
  | none => exact hg.nameExpression
  | some kind =>
    refine .after fun start => .after fun _ => hg.call.bind fun c hc => .pure ?_
    apply wellNamed_call hc.2
    rw [hc.1]
    intro _ _
    simp [callableKeywords]

/-- A primary expression is well-named when what stands inside it is. -/
theorem primary (hg : g.WellNamed) : g.primary.Gives fun e => (Node.expr e).WellNamed := by
  refine .after fun _ => .after fun _ => .ite (fun _ => hg.conditional) fun _ => ?_
  refine .after fun _ => .ite (fun _ => hg.letExpression) fun _ => ?_
  refine .after fun _ => .ite (fun _ => hg.parenthesized) fun _ => ?_
  refine .after fun _ => .ite (fun _ => hg.newExpression) fun _ => ?_
  refine .after fun _ => .ite (fun _ => ?_) fun _ => ?_
  · refine .after fun options => .after fun literal => .pure ?_
    exact (Node.wellNamed_number literal).recast trivial rfl
  refine .after fun _ => .ite (fun _ => ?_) fun _ => ?_
  · apply hg.string.bind
    intro literal hliteral
    exact .pure (hliteral.recast trivial rfl)
  apply constant?_gives.bind
  intro constant? hconstant
  cases constant? with
  | some e => exact .pure (hconstant e rfl)
  | none =>
    exact .after fun _ => .ite (fun _ => hg.identifierExpression) fun _ => failExpected_gives

/-! ### Selections and amendments -/

/-- The member behind a point goes into a selection or into a literal with a unit. -/
theorem dotAccess (hg : g.WellNamed) (he : (Node.expr e).WellNamed) :
    (g.dotAccess e).Gives fun e => (Node.expr e).WellNamed := by
  refine .after fun start => .after fun _ => hg.member.bind fun member hmember => .pure ?_
  have hselect : (Node.expr (select e (.dot member ⟨start, member.span.stop⟩))).WellNamed := by
    apply wellNamed_select he
    refine .of_children trivial ?_
    simpa [Node.children, Node.fields, Access.fields] using hmember
  split
  · cases hunit : unitLiteral? e member with
    | some e => exact wellNamed_unitLiteral hunit
    | none => exact hselect
  · exact hselect

theorem nullSafeAccess (hg : g.WellNamed) (he : (Node.expr e).WellNamed) :
    (g.nullSafeAccess e).Gives fun e => (Node.expr e).WellNamed := by
  refine .after fun start => .after fun _ => hg.member.bind fun member hmember => .pure ?_
  apply wellNamed_select he
  refine .of_children trivial ?_
  simpa [Node.children, Node.fields, Access.fields] using hmember

theorem bracketAccess (hg : g.WellNamed) (he : (Node.expr e).WellNamed) :
    (g.bracketAccess e).Gives fun e => (Node.expr e).WellNamed := by
  refine .after fun start => .after fun _ => hg.expr.bind fun index hindex => .after fun close =>
    .pure ?_
  apply wellNamed_select he
  refine .of_children trivial ?_
  simpa [Node.children, Node.fields, Access.fields] using hindex

theorem moreBodies (hg : g.WellNamed) {first : ObjectBody}
    (hfirst : (Node.objectBody first).WellNamed) :
    (g.moreBodies first).Gives fun bodies =>
      ∀ body ∈ bodies.toList, (Node.objectBody body).WellNamed :=
  collect_gives hg.body (by simpa using hfirst)

theorem amendments (hg : g.WellNamed) (he : (Node.expr e).WellNamed) :
    (g.amendments e).Gives fun e => (Node.expr e).WellNamed := by
  apply hg.body.bind
  intro first hfirst
  apply (hg.moreBodies hfirst).bind
  intro bodies hbodies
  apply Gives.pure
  apply wellNamed_amend he hfirst
  intro body hbody
  exact hbodies body (List.mem_of_mem_drop hbody)

theorem postfixStep (hg : g.WellNamed) (he : (Node.expr e).WellNamed) :
    (g.postfixStep e).Gives WellNamedRound := by
  refine .after fun _ => .after fun _ => .ite (fun _ => ?_) fun _ => ?_
  · exact (hg.nullSafeAccess he).bind fun e he => .pure he
  refine .after fun _ => .after fun _ => .ite (fun _ => ?_) fun _ => ?_
  · exact (hg.dotAccess he).bind fun e he => .pure he
  refine .after fun _ => .after fun _ => .ite (fun _ => ?_) fun _ => ?_
  · exact (hg.bracketAccess he).bind fun e he => .pure he
  refine .after fun _ => .ite (fun _ => ?_) fun _ => ?_
  · refine .after fun _ => .after fun stop => .pure ?_
    refine .of_children trivial ?_
    simpa [Node.children, Node.fields, Expr.fields] using he
  refine .after fun _ => .ite (fun _ => ?_) fun _ => .pure he
  exact (hg.amendments he).bind fun e he => .pure he

/-! ### Operators -/

theorem typeTestStep (hg : g.WellNamed) (he : (Node.expr e).WellNamed) :
    (g.typeTestStep e).Gives WellNamedRound := by
  refine .after fun _ => .after fun _ => .ite (fun _ => ?_) fun _ => .after fun _ =>
    .ite (fun _ => ?_) fun _ => .pure he
  all_goals
    apply Gives.after
    intro _
    apply hg.type.bind
    intro type htype
    apply Gives.pure
    refine .of_children trivial ?_
    simpa [Node.children, Node.fields, Expr.fields] using ⟨he, htype⟩

theorem operand (hg : g.WellNamed) : g.operand.Gives fun e => (Node.expr e).WellNamed := by
  apply Gives.after
  intro operators
  apply hg.primary.bind
  intro primary hprimary
  apply (Gives.repeating (fun e => (Node.expr e).WellNamed) hprimary fun _ => hg.postfixStep).bind
  intro selected hselected
  apply (Gives.repeating (fun e => (Node.expr e).WellNamed) hselected fun _ => hg.typeTestStep).bind
  intro tested htested
  exact .pure (wellNamed_applyPrefixes operators htested)

theorem infixSteps (hg : g.WellNamed) {first : Expr} :
    (g.infixSteps first).Gives fun steps => OperandsWellNamed steps.toList := by
  apply Gives.repeating fun steps => OperandsWellNamed steps.toList
  · simp [OperandsWellNamed]
  · intro steps hsteps
    apply Gives.after
    intro op?
    cases op? with
    | none => exact .pure hsteps
    | some op =>
      apply Gives.after
      intro _
      apply hg.operand.bind
      intro e he
      exact .pure (forall_mem_toList_push hsteps he)

theorem expressionRule (hg : g.WellNamed) :
    g.expressionRule.Gives fun e => (Node.expr e).WellNamed := by
  apply hg.operand.bind
  intro first hfirst
  apply hg.infixSteps.bind
  intro steps hsteps
  apply Gives.guard throw_gives
  intro _
  exact .pure (wellNamed_groupInfix hfirst hsteps)

end WellNamed

end Grammar

end PklSyntax
