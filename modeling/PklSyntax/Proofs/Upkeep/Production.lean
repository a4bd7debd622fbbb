import PklSyntax.Proofs.Upkeep.Token
import PklSyntax.Proofs.Growth.ClassBody

/-!
# What the productions of the grammar uphold

All productions uphold every relation that the steps uphold, the bodies of classes among them, which
go on behind members that were given up. Where a production reads ahead and goes back, it is in the
state again in which it began, since nothing of that state is lost on the way.

## Main definitions

* `Grammar.Upholds`: the grammar for what stands inside upholds the relation.

## Main statements

* `Grammar.Upholds.expressionRule`, `Grammar.Upholds.typeRule`, `Grammar.Upholds.bodyRule`.
* `Grammar.Upholds.classBody`, `Grammar.Upholds.declarationRule`.
* `Grammar.upholds_nested`: the grammars of all depths uphold the relation.
-/

namespace PklSyntax

/-- The grammar upholds the relation, and it loses nothing that is on record. -/
structure Grammar.Upholds (g : Grammar) (U : Upkeep) : Prop where
  grows : g.Grows U.ctx
  expr : g.expr.Upholds U
  type : g.type.Upholds U
  body : g.body.Upholds U

namespace Parser

variable {U : Upkeep}

/-- Trying the name of a property loses nothing. -/
theorem kept_propertyName? {ctx : Context} {s s' : State} {name? : Option Identifier}
    (h : propertyName? ctx s = .ok name? s') : Kept ctx.text s s' := by
  rw [propertyName?, bind_apply] at h
  cases hrun : attempt identifier? ctx s with
  | ok a t =>
    rw [hrun] at h
    cases h
    exact kept_of_attempt identifier?_grows hrun
  | error =>
    rw [hrun] at h
    cases h

theorem propertyName?_upholds : propertyName?.Upholds U :=
  identifier?_upholds.attempt.bind fun _ => .pure _

/-- Whether the name of a property stands at the cursor. -/
theorem atPropertyHead_upholds : atPropertyHead.Upholds U := by
  refine fun s => .mark (.bind (U.refl s) (propertyName?_upholds s) fun name? s₁ h₁ hs₁ => ?_)
  have hkept := kept_propertyName? h₁
  cases name? with
  | none => exact .rewind hkept (.pure (U.refl s))
  | some name =>
    refine .bind hs₁ (skip_upholds s₁) fun _ s₂ h₂ _ => .look peek_looks (.look (peekAt_looks 1) ?_)
    exact .rewind (hkept.trans (skip_grows.of_ok h₂).1.toKept) (.pure (U.refl s))

/-- Whether the amendment of an element stands at the cursor. -/
theorem atFieldAmend_upholds : atFieldAmend.Upholds U := by
  refine .look (startsWith_looks "(") fun opened => .ite (.pure false) fun s => .mark ?_
  refine .bind (U.refl s) (advance_upholds 1 s) fun _ s₁ h₁ hs₁ =>
    .bind hs₁ (acceptKeyword_upholds "this" s₁) fun found s₂ h₂ hs₂ => ?_
  have hkept := ((advance_grows 1).of_ok h₁).1.toKept.trans
    ((acceptKeyword_grows (by decide)).of_ok h₂).1.toKept
  cases found with
  | true =>
    exact .bind hs₂ (atToken_upholds "[" s₂) fun found s₃ h₃ _ =>
      .rewind (hkept.trans ((atToken_grows "[").of_ok h₃).1.toKept) (.pure (U.refl s))
  | false => exact .rewind hkept (.pure (U.refl s))

theorem modifiers_upholds : modifiers.Upholds U :=
  repeating_upholds (fun found => skip_upholds.bind fun _ =>
    .look (firstModifier?_looks _) fun modifier? => by
      cases modifier? with
      | some modifier => exact (advance_upholds _).bind fun _ => .pure _
      | none => exact .pure _) _

theorem variance_upholds : variance.Upholds U :=
  .look (atWord_looks "in") fun _ => .ite ((advance_upholds 2).bind fun _ => .pure _)
    (.look (atWord_looks "out") fun _ => .ite ((advance_upholds 3).bind fun _ => .pure _) (.pure _))

end Parser

namespace Grammar

open PklSyntax.Parser

variable {g : Grammar} {U : Upkeep}

/-! ### Strings and types -/

theorem Upholds.string (hg : g.Upholds U) : g.string.Upholds U :=
  .look theOptions_looks fun _ => stringLiteral_upholds hg.expr _

theorem Upholds.sourceString (hg : g.Upholds U) (keyword : String) :
    (g.sourceString keyword).Upholds U :=
  skip_upholds.bind fun _ => .look atString_looks fun _ =>
    .option () (failExpected_upholds _) fun _ => hg.string.bind fun _ =>
      .option () (failWith_upholds rfl _) fun _ => .pure _

theorem Upholds.typeArguments (hg : g.Upholds U) (base : NamedType) :
    (g.typeArguments base).Upholds U :=
  (takeToken_upholds 1).bind fun _ => (commaList_upholds hg.type).bind fun _ =>
    (expect_upholds ">").bind fun _ => .ite ((report_upholds rfl _).bind fun _ => .pure _) (.pure _)

theorem Upholds.arrowResult? (hg : g.Upholds U) : g.arrowResult?.Upholds U := by
  refine fun s => .mark (.bind (U.refl s) (skip_upholds s) fun _ s₁ h₁ hs₁ =>
    .look (startsWith_looks "->") (.ite (fun _ => .of_upholds hs₁ ?_) fun _ => ?_))
  · exact (advance_upholds 2).bind fun _ => hg.type.bind fun _ => .pure _
  · exact .rewind (skip_grows.of_ok h₁).1.toKept (.pure (U.refl s))

theorem Upholds.parenthesizedType (hg : g.Upholds U) : g.parenthesizedType.Upholds U := by
  refine .look position_looks fun start => (advance_upholds 1).bind fun _ =>
    (commaList_upholds hg.type).bind fun params => (expect_upholds ")").bind fun close =>
      hg.arrowResult?.bind fun result? => ?_
  cases result? with
  | some result => exact .pure _
  | none =>
    dsimp only
    split
    · exact .pure _
    · exact failExpected_upholds _

theorem Upholds.stringType (hg : g.Upholds U) : g.stringType.Upholds U :=
  hg.string.bind fun _ => .option () (failWith_upholds rfl _) fun _ => .pure _

theorem Upholds.typeAtom (hg : g.Upholds U) : g.typeAtom.Upholds U :=
  .look peek_looks fun _ => .ite hg.parenthesizedType (.look atString_looks fun _ =>
    .ite hg.stringType (.look atIdentifier_looks fun _ => .ite ((qualifiedName_upholds _).bind
      fun name => .look peek_looks fun _ => .ite (hg.typeArguments name) (.pure _))
        (failExpected_upholds _)))

theorem Upholds.constraints (hg : g.Upholds U) (base : TypeExpr) : (g.constraints base).Upholds U :=
  (advance_upholds 1).bind fun _ => hg.expr.bind fun _ => (repeating_upholds (fun _ =>
    (accept_upholds ",").bind fun _ => .ite (hg.expr.bind fun _ => .pure _) (.pure _)) _).bind
      fun _ => (expect_upholds ")").bind fun _ => .pure _

theorem Upholds.typeSuffix (hg : g.Upholds U) (base : TypeExpr) : (g.typeSuffix base).Upholds U :=
  .look peek_looks fun _ => .look (peekAt_looks 1) fun _ =>
    .ite ((advance_upholds 1).bind fun _ => .look position_looks fun _ => .pure _)
      (.ite ((hg.constraints base).bind fun _ => .pure _) (.pure _))

theorem Upholds.typeSegment (hg : g.Upholds U) : g.typeSegment.Upholds U := by
  refine skip_upholds.bind fun _ => .look position_looks fun start => .look peek_looks fun c => ?_
  -- The atom with its suffixes, behind the mark of a default or without one.
  have hatom : (do
      let base ← g.typeAtom
      let type ← repeating g.typeSuffix base
      if c == '*' then return .default type ⟨start, type.span.stop⟩ else return type :
      Parser TypeExpr).Upholds U :=
    hg.typeAtom.bind fun base => (repeating_upholds hg.typeSuffix base).bind fun _ =>
      .ite (.pure _) (.pure _)
  exact .ite ((advance_upholds 1).bind fun _ => skip_upholds.bind fun _ => hatom) hatom

theorem atUnionBar_upholds : atUnionBar.Upholds U :=
  (atToken_upholds "|").bind fun _ => .ite (.pure _) (.look (startsWith_looks "||") fun _ =>
    .ite (.pure _) (.look (startsWith_looks "|>") fun _ => .pure _))

theorem Upholds.typeRule (hg : g.Upholds U) : g.typeRule.Upholds U := by
  refine skip_upholds.bind fun _ => .look position_looks fun start => hg.typeSegment.bind
    fun first => .bind (repeating_upholds (fun members => atUnionBar_upholds.bind fun _ => ?_) _)
      fun members => ?_
  · exact .ite ((advance_upholds 1).bind fun _ => hg.typeSegment.bind fun _ => .pure _) (.pure _)
  split
  · exact .pure _
  · exact .pure _

/-! ### Calls and lambdas -/

theorem Upholds.call (hg : g.Upholds U) (callee : Identifier) (kind : CallKind) :
    (g.call callee kind).Upholds U :=
  (advance_upholds 1).bind fun _ => (commaList_upholds hg.expr).bind fun _ =>
    (expect_upholds ")").bind fun _ => .pure _

theorem Upholds.member (hg : g.Upholds U) : g.member.Upholds U :=
  skip_upholds.bind fun _ => (identifier_upholds _).bind fun name => .look peek_looks fun _ =>
    .ite ((hg.call name _).bind fun _ => .pure _) (.pure _)

theorem Upholds.param (hg : g.Upholds U) : g.param.Upholds U :=
  (expectName_upholds _).bind fun _ => announced_upholds (accept_upholds ":") hg.type fun _ =>
    .pure _

theorem Upholds.params (hg : g.Upholds U) : g.params.Upholds U :=
  (expect_upholds "(").bind fun _ => (commaList_upholds hg.param).bind fun _ =>
    (expect_upholds ")").bind fun _ => .pure _

theorem Upholds.lambda? (hg : g.Upholds U) : g.lambda?.Upholds U := by
  refine fun s => .mark (.look position_looks
    (.bind (U.refl s) (hg.params.attempt s) fun params? s₁ h₁ hs₁ => ?_))
  have hkept := kept_of_attempt hg.grows.params h₁
  cases params? with
  | none => exact .rewind hkept (.pure (U.refl s))
  | some params =>
    refine .bind hs₁ (atToken_upholds "->" s₁) fun arrow s₂ h₂ hs₂ => ?_
    cases arrow with
    | false =>
      exact .rewind (hkept.trans ((atToken_grows _).of_ok h₂).1.toKept) (.pure (U.refl s))
    | true =>
      exact .of_upholds hs₂ ((advance_upholds 2).bind fun _ => hg.expr.bind fun _ => .pure _)

/-! ### Primary expressions -/

theorem Upholds.parenthesized (hg : g.Upholds U) : g.parenthesized.Upholds U := by
  refine .look position_looks fun start => hg.lambda?.bind fun lambda? => ?_
  cases lambda? with
  | some lambda => exact .pure lambda
  | none =>
    exact (advance_upholds 1).bind fun _ => hg.expr.bind fun _ => (expect_upholds ")").bind
      fun _ => .pure _

theorem Upholds.conditional (hg : g.Upholds U) : g.conditional.Upholds U :=
  .look position_looks fun _ => (advance_upholds _).bind fun _ => (expect_upholds "(").bind fun _ =>
    hg.expr.bind fun _ => (expect_upholds ")").bind fun _ => hg.expr.bind fun _ =>
      (expectKeyword_upholds "else").bind fun _ => hg.expr.bind fun _ => .pure _

theorem Upholds.letExpression (hg : g.Upholds U) : g.letExpression.Upholds U :=
  .look position_looks fun _ => (advance_upholds _).bind fun _ => (expect_upholds "(").bind fun _ =>
    (expectName_upholds _).bind fun _ => announced_upholds (accept_upholds ":") hg.type fun _ =>
      atAssign_upholds.bind fun _ => .option () (failExpected_upholds _) fun _ =>
        (advance_upholds 1).bind fun _ => hg.expr.bind fun _ => (expect_upholds ")").bind fun _ =>
          hg.expr.bind fun _ => .pure _

theorem Upholds.newExpression (hg : g.Upholds U) : g.newExpression.Upholds U :=
  .look position_looks fun _ => (advance_upholds _).bind fun _ => (atToken_upholds "\x7b").bind
    fun _ => .branch (.pure none) hg.type.map fun _ => hg.body.bind fun _ => .pure _

theorem Upholds.nameExpression (hg : g.Upholds U) : g.nameExpression.Upholds U :=
  (identifier_upholds _).bind fun name => .look peek_looks fun _ =>
    .ite (.option () (failWith_upholds rfl _) fun _ => (hg.call name _).bind fun _ => .pure _)
      (.option () (failWith_upholds rfl _) fun _ => .pure _)

theorem Upholds.identifierExpression (hg : g.Upholds U) : g.identifierExpression.Upholds U :=
  .look readKind?_looks fun kind? => by
    cases kind? with
    | some kind =>
      exact .look position_looks fun _ => (advance_upholds 5).bind fun _ => (hg.call _ kind).bind
        fun _ => .pure _
    | none => exact hg.nameExpression

theorem constant?_upholds : constant?.Upholds U :=
  .look (atWord_looks _) fun _ => .ite ((takeToken_upholds 4).bind fun _ => .pure _)
    (.look (atWord_looks _) fun _ => .ite ((takeToken_upholds 5).bind fun _ => .pure _)
      (.look (atWord_looks _) fun _ => .ite ((takeToken_upholds 4).bind fun _ => .pure _)
        (.pure _)))

theorem Upholds.primary (hg : g.Upholds U) : g.primary.Upholds U := by
  refine skip_upholds.bind fun _ => .look (atWord_looks "if") fun _ => .ite hg.conditional
    (.look (atWord_looks "let") fun _ => .ite hg.letExpression (.look (startsWith_looks "(")
      fun _ => .ite hg.parenthesized (.look (atWord_looks "new") fun _ => .ite hg.newExpression
        (.look atNumber_looks fun _ => .ite ?_ (.look atString_looks fun _ =>
          .ite (hg.string.bind fun _ => .pure _) ?_)))))
  · exact .look theOptions_looks fun _ => (number_upholds _).bind fun _ => .pure _
  · refine constant?_upholds.bind fun constant? => ?_
    cases constant? with
    | some constant => exact .pure constant
    | none =>
      exact .look atIdentifier_looks fun _ => .ite hg.identifierExpression (failExpected_upholds _)

/-! ### Selections and operators -/

theorem Upholds.moreBodies (hg : g.Upholds U) (first : ObjectBody) :
    (g.moreBodies first).Upholds U :=
  repeating_upholds (fun _ => (atToken_upholds "\x7b").bind fun _ =>
    .ite (hg.body.bind fun _ => .pure _) (.pure _)) _

theorem Upholds.amendments (hg : g.Upholds U) (base : Expr) : (g.amendments base).Upholds U :=
  hg.body.bind fun first => (hg.moreBodies first).bind fun _ => .pure _

theorem Upholds.dotAccess (hg : g.Upholds U) (target : Expr) : (g.dotAccess target).Upholds U :=
  .look position_looks fun _ => (advance_upholds 1).bind fun _ => hg.member.bind fun _ => .pure _

theorem Upholds.nullSafeAccess (hg : g.Upholds U) (target : Expr) :
    (g.nullSafeAccess target).Upholds U :=
  .look position_looks fun _ => (advance_upholds 2).bind fun _ => hg.member.bind fun _ => .pure _

theorem Upholds.bracketAccess (hg : g.Upholds U) (target : Expr) :
    (g.bracketAccess target).Upholds U :=
  .look position_looks fun _ => (advance_upholds 1).bind fun _ => hg.expr.bind fun _ =>
    (expect_upholds "]").bind fun _ => .pure _

theorem Upholds.postfixStep (hg : g.Upholds U) (target : Expr) :
    (g.postfixStep target).Upholds U := by
  refine skip_upholds.bind fun _ => .look (startsWith_looks "?.") fun _ =>
    .ite ((hg.nullSafeAccess target).bind fun _ => .pure _) ?_
  refine .look (startsWith_looks ".") fun _ => .look (startsWith_looks "...") fun _ =>
    .ite ((hg.dotAccess target).bind fun _ => .pure _) ?_
  refine .look (startsWith_looks "[") fun _ => .look (newlineSince_looks _) fun _ =>
    .ite ((hg.bracketAccess target).bind fun _ => .pure _) ?_
  refine .look (startsWith_looks "!!") fun _ => .ite ((advance_upholds 2).bind fun _ =>
    .look position_looks fun _ => .pure _) ?_
  exact .look (startsWith_looks "\x7b") fun _ => .ite ((hg.amendments target).bind fun _ => .pure _)
    (.pure _)

theorem Upholds.typeTestStep (hg : g.Upholds U) (expr : Expr) : (g.typeTestStep expr).Upholds U :=
  skip_upholds.bind fun _ => .look (atWord_looks "is") fun _ =>
    .ite ((advance_upholds 2).bind fun _ => hg.type.bind fun _ => .pure _)
      (.look (atWord_looks "as") fun _ =>
        .ite ((advance_upholds 2).bind fun _ => hg.type.bind fun _ => .pure _) (.pure _))

theorem prefixStep_upholds (operators : List (UnaryOperator × Nat)) :
    (prefixStep operators).Upholds U :=
  skip_upholds.bind fun _ => .look position_looks fun _ => .look (startsWith_looks "-") fun _ =>
    .look (startsWith_looks "->") fun _ => .ite ((advance_upholds 1).bind fun _ => .pure _)
      (.look (startsWith_looks "!") fun _ => .look (startsWith_looks "!=") fun _ =>
        .ite ((advance_upholds 1).bind fun _ => .pure _) (.pure _))

theorem Upholds.operand (hg : g.Upholds U) : g.operand.Upholds U :=
  (repeating_upholds prefixStep_upholds _).bind fun _ => hg.primary.bind fun _ =>
    (repeating_upholds hg.postfixStep _).bind fun _ =>
      (repeating_upholds hg.typeTestStep _).bind fun _ => .pure _

theorem infixOperator?_upholds (left : Expr) : (infixOperator? left).Upholds U := by
  refine skip_upholds.bind fun _ => .look (firstOperator?_looks _) fun op? => ?_
  split
  · exact .look (startsWith_looks "->") fun _ => .look (newlineSince_looks _) fun _ =>
      .ite (.pure _) (.pure _)
  · exact .pure _

theorem Upholds.infixSteps (hg : g.Upholds U) (first : Expr) : (g.infixSteps first).Upholds U := by
  refine repeating_upholds (fun steps => (infixOperator?_upholds _).bind fun op? => ?_) _
  cases op? with
  | some op => exact (advance_upholds _).bind fun _ => hg.operand.bind fun _ => .pure _
  | none => exact .pure _

theorem Upholds.expressionRule (hg : g.Upholds U) : g.expressionRule.Upholds U := by
  refine hg.operand.bind fun first => (hg.infixSteps first).bind fun steps => ?_
  dsimp only
  split
  · exact Upholds.bind (.throw .tooDeep) fun _ => .pure _
  · exact .pure _

/-! ### Declarations -/

theorem Upholds.annotationRule (hg : g.Upholds U) : g.annotationRule.Upholds U :=
  .look position_looks fun _ => (advance_upholds 1).bind fun _ => (qualifiedName_upholds _).bind
    fun _ => announced_upholds (atToken_upholds "\x7b") hg.body fun _ => .pure _

theorem Upholds.annotationRules (hg : g.Upholds U) : g.annotationRules.Upholds U :=
  (repeating_upholds (fun _ => (atToken_upholds "@").bind fun _ =>
    .ite (hg.annotationRule.bind fun _ => .pure _) (.pure _)) _).bind fun _ => .pure _

theorem Upholds.preamble (hg : g.Upholds U) : g.preamble.Upholds U :=
  .look position_looks fun _ => takeDoc_upholds.bind fun _ => hg.annotationRules.bind fun _ =>
    modifiers_upholds.bind fun _ => skip_upholds.bind fun _ => .pure _

theorem Upholds.typeParameter (hg : g.Upholds U) : g.typeParameter.Upholds U :=
  skip_upholds.bind fun _ => .look position_looks fun _ => variance_upholds.bind fun _ =>
    hg.type.bind fun _ => .pure _

theorem Upholds.typeParameters (hg : g.Upholds U) (stop : Int) :
    (g.typeParameters stop).Upholds U := by
  refine (accept?_upholds "<").bind fun opening? => ?_
  cases opening? with
  | none => exact .pure _
  | some opening =>
    refine (accept?_upholds ">").bind fun close? => ?_
    cases close? with
    | some close => exact (report_upholds rfl _).bind fun _ => .pure _
    | none =>
      exact hg.typeParameter.bind fun _ => (repeating_upholds (fun _ =>
        (accept_upholds ",").bind fun _ => .ite (hg.typeParameter.bind fun _ => .pure _)
          (.pure _)) _).bind fun _ => (expect_upholds ">").bind fun _ => .pure _

theorem Upholds.objectForm (hg : g.Upholds U) : g.objectForm.Upholds U :=
  hg.body.bind fun first => (hg.moreBodies first).bind fun _ => .pure _

theorem Upholds.propertyForm (hg : g.Upholds U) (name : Identifier) :
    (g.propertyForm name).Upholds U := by
  refine (atToken_upholds "\x7b").bind fun _ => .ite (hg.objectForm.bind fun _ => .pure _)
    (announced_upholds (accept_upholds ":") hg.type fun type? => atAssign_upholds.bind fun _ =>
      .ite ((advance_upholds 1).bind fun _ => hg.expr.bind fun _ => .pure _) ?_)
  cases type? with
  | some type => exact .pure _
  | none => exact failWith_upholds rfl _

theorem Upholds.propertyRule (hg : g.Upholds U) (before : Preamble) :
    (g.propertyRule before).Upholds U :=
  (expectName_upholds _).bind fun name => (hg.propertyForm name).bind fun _ => .pure _

theorem Upholds.functionRule (hg : g.Upholds U) (before : Preamble) :
    (g.functionRule before).Upholds U :=
  (advance_upholds _).bind fun _ => (expectName_upholds _).bind fun _ => (hg.typeParameters _).bind
    fun _ => hg.params.bind fun _ => announced_upholds (accept_upholds ":") hg.type fun _ =>
      atAssign_upholds.bind fun _ => .option () (advance_upholds 1) fun _ =>
        .branch hg.expr.map (.pure none) fun _ => .pure _

/-- Members go on behind the one that was given up. -/
theorem skipMember_upholds (start : Nat) : (skipMember start).Upholds U := fun _ =>
  .look theText_looks (.look position_looks (U.moveTo (kept_memberResume start)))

theorem Upholds.classMember (hg : g.Upholds U) : g.classMember.Upholds U :=
  hg.preamble.bind fun before => .look (atWord_looks "function") fun _ =>
    .ite ((hg.functionRule before).bind fun _ => .pure _) (.look atIdentifier_looks fun _ =>
      .ite ((hg.propertyRule before).bind fun _ => .pure _) (failExpected_upholds _))

theorem Upholds.classRound (hg : g.Upholds U) (opening : Span) (members : Array ClassMember) :
    (g.classRound opening members).Upholds U := by
  refine skip_upholds.bind fun _ => .look atEnd_looks fun _ => .ite (failWith_bind_upholds rfl _)
    (.look peek_looks fun _ => .ite ((advance_upholds 1).bind fun _ => .pure _)
      (.look position_looks fun start => hg.classMember.attempt.bind fun member? => ?_))
  cases member? with
  | some member => exact .pure _
  | none =>
    exact .look limitReached_looks fun _ => .option () (.throw .failed) fun _ =>
      (skipMember_upholds start).bind fun _ => .pure _

theorem Upholds.classBody (hg : g.Upholds U) : g.classBody.Upholds U := by
  rw [classBody_eq]
  exact (expect_upholds "\x7b").bind fun opening =>
    (repeating_upholds (hg.classRound opening) #[]).bind fun _ => .look position_looks fun _ =>
      .pure _

theorem Upholds.classRule (hg : g.Upholds U) (before : Preamble) : (g.classRule before).Upholds U :=
  (advance_upholds _).bind fun _ => (expectName_upholds _).bind fun _ => (hg.typeParameters _).bind
    fun _ => announced_upholds (acceptKeyword_upholds "extends") hg.type fun _ =>
      announced_upholds (atToken_upholds "\x7b") hg.classBody fun _ => .pure _

theorem moduleClauseRule_upholds (before : Preamble) : (moduleClauseRule before).Upholds U :=
  (advance_upholds _).bind fun _ => skip_upholds.bind fun _ => (qualifiedName_upholds _).bind
    fun _ => .pure _

theorem Upholds.importRule (hg : g.Upholds U) (before : Preamble) :
    (g.importRule before).Upholds U :=
  (advance_upholds _).bind fun _ => .look peek_looks fun _ => .option () (advance_upholds 1)
    fun _ => (hg.sourceString _).bind fun _ => announced_upholds (acceptKeyword_upholds "as")
      (expectName_upholds _) fun _ => .pure _

theorem Upholds.extendsRule (hg : g.Upholds U) (before : Preamble) :
    (g.extendsRule before).Upholds U :=
  (advance_upholds _).bind fun _ => (hg.sourceString _).bind fun _ => .pure _

theorem Upholds.amendsRule (hg : g.Upholds U) (before : Preamble) :
    (g.amendsRule before).Upholds U :=
  (advance_upholds _).bind fun _ => (hg.sourceString _).bind fun _ => .pure _

theorem Upholds.typeAliasRule (hg : g.Upholds U) (before : Preamble) :
    (g.typeAliasRule before).Upholds U :=
  (advance_upholds _).bind fun _ => (expectName_upholds _).bind fun _ => (hg.typeParameters _).bind
    fun _ => (expect_upholds "=").bind fun _ => hg.type.bind fun _ => .pure _

theorem failDeclaration_upholds : failDeclaration.Upholds U :=
  .look peek_looks fun _ => .look atEnd_looks fun _ => .ite (failExpected_upholds _)
    (.ite (.bind (.idle here_idle) fun _ => failWith_upholds rfl _)
      (.bind (.idle describeCurrent_idle) fun _ => .bind (.idle here_idle) fun _ =>
        failWith_upholds rfl _))

/-- A declaration of a module, with the body of a class or without one. -/
theorem Upholds.declarationRule (hg : g.Upholds U) : g.declarationRule.Upholds U := by
  refine hg.preamble.bind fun before => .look (atWord_looks "module") fun _ =>
    .ite ((moduleClauseRule_upholds before).bind fun _ => .pure _) ?_
  refine .look (atWord_looks "import") fun _ =>
    .ite ((hg.importRule before).bind fun _ => .pure _) ?_
  refine .look (atWord_looks "extends") fun _ =>
    .ite ((hg.extendsRule before).bind fun _ => .pure _) ?_
  refine .look (atWord_looks "amends") fun _ =>
    .ite ((hg.amendsRule before).bind fun _ => .pure _) ?_
  refine .look (atWord_looks "typealias") fun _ =>
    .ite ((hg.typeAliasRule before).bind fun _ => .pure _) ?_
  refine .look (atWord_looks "class") fun _ => .ite ((hg.classRule before).bind fun _ => .pure _) ?_
  refine .look (atWord_looks "function") fun _ =>
    .ite ((hg.functionRule before).bind fun _ => .pure _) ?_
  exact .look atIdentifier_looks fun _ => .ite ((hg.propertyRule before).bind fun _ => .pure _)
    failDeclaration_upholds

/-! ### Object bodies -/

theorem Upholds.entryValue (hg : g.Upholds U) : g.entryValue.Upholds U :=
  atAssign_upholds.bind fun _ =>
    .ite ((advance_upholds 1).bind fun _ => hg.expr.bind fun _ => .pure _)
      ((atToken_upholds "\x7b").bind fun _ => .ite (hg.objectForm.bind fun _ => .pure _)
        (failExpected_upholds _))

theorem Upholds.mappingEntry (hg : g.Upholds U) : g.mappingEntry.Upholds U :=
  .look position_looks fun _ => (advance_upholds 1).bind fun _ => hg.expr.bind fun _ =>
    (expect_upholds "]").bind fun _ => hg.entryValue.bind fun _ => .pure _

theorem Upholds.predicateEntry (hg : g.Upholds U) : g.predicateEntry.Upholds U :=
  .look position_looks fun _ => (advance_upholds 2).bind fun _ => hg.expr.bind fun _ =>
    (expect_upholds "]]").bind fun _ => hg.entryValue.bind fun _ => .pure _

theorem Upholds.spread (hg : g.Upholds U) : g.spread.Upholds U :=
  .look position_looks fun _ => (advance_upholds 3).bind fun _ => .look peek_looks fun _ =>
    .option () (advance_upholds 1) fun _ => hg.expr.bind fun _ => .pure _

theorem Upholds.fieldAmend (hg : g.Upholds U) : g.fieldAmend.Upholds U :=
  .look position_looks fun _ => (advance_upholds 1).bind fun _ =>
    (expectKeyword_upholds "this").bind fun _ => (expect_upholds "[").bind fun _ => hg.expr.bind
      fun _ => (expect_upholds "]").bind fun _ => (expect_upholds ")").bind fun _ => hg.body.bind
        fun _ => .pure _

theorem Upholds.whenGenerator (hg : g.Upholds U) : g.whenGenerator.Upholds U :=
  .look position_looks fun _ => (advance_upholds _).bind fun _ => (expect_upholds "(").bind fun _ =>
    hg.expr.bind fun _ => (expect_upholds ")").bind fun _ => hg.body.bind fun _ =>
      announced_upholds (acceptKeyword_upholds "else") hg.body fun _ => .pure _

theorem loopNames_upholds : loopNames.Upholds U :=
  (expectName_upholds _).bind fun _ => (accept_upholds ",").bind fun _ =>
    .ite ((expectName_upholds _).bind fun _ => .pure _) (.pure _)

theorem Upholds.forGenerator (hg : g.Upholds U) : g.forGenerator.Upholds U :=
  .look position_looks fun _ => (advance_upholds _).bind fun _ => (expect_upholds "(").bind fun _ =>
    loopNames_upholds.bind fun _ => (expectKeyword_upholds "in").bind fun _ => hg.expr.bind fun _ =>
      (expect_upholds ")").bind fun _ => hg.body.bind fun _ => .pure _

theorem Upholds.propertyMember? (hg : g.Upholds U) : g.propertyMember?.Upholds U := by
  refine fun s => .mark (.bind (U.refl s) (hg.preamble s) fun before s₁ h₁ hs₁ =>
    .look (atWord_looks _) (.ite (fun _ => .of_upholds hs₁ ?_) fun _ => ?_))
  · exact (hg.functionRule before).bind fun _ => .pure _
  refine .bind hs₁ (atPropertyHead_upholds s₁) fun head s₂ h₂ hs₂ =>
    .ite (fun _ => .of_upholds hs₂ ?_) fun _ => .rewind ?_ (.pure (U.refl s))
  · exact (hg.propertyRule before).bind fun _ => .pure _
  · exact (hg.grows.preamble.of_ok h₁).1.toKept.trans (atPropertyHead_grows.of_ok h₂).1.toKept

theorem Upholds.namedMember (hg : g.Upholds U) : g.namedMember.Upholds U := by
  refine hg.propertyMember?.bind fun member? => ?_
  cases member? with
  | some member => exact .pure member
  | none => exact hg.expr.bind fun _ => .pure _

theorem Upholds.objectMember (hg : g.Upholds U) : g.objectMember.Upholds U :=
  .look (startsWith_looks "[[") fun _ => .ite hg.predicateEntry (.look (startsWith_looks "[")
    fun _ => .ite hg.mappingEntry (.look (startsWith_looks "...") fun _ => .ite hg.spread
      (atFieldAmend_upholds.bind fun _ => .ite hg.fieldAmend (.look (atWord_looks "when") fun _ =>
        .ite hg.whenGenerator (.look (atWord_looks "for") fun _ => .ite hg.forGenerator
          hg.namedMember)))))

theorem Upholds.objectMembers (hg : g.Upholds U) (opening : Span) :
    (g.objectMembers opening).Upholds U :=
  repeating_upholds (fun _ => skip_upholds.bind fun _ => .look peek_looks fun _ =>
    .look atEnd_looks fun _ => .ite (failWith_upholds rfl _)
      (.ite ((advance_upholds 1).bind fun _ => .pure _) (.ite ((advance_upholds 1).bind
        fun _ => .pure _) (hg.objectMember.bind fun _ => .pure _)))) _

theorem Upholds.bodyRule (hg : g.Upholds U) : g.bodyRule.Upholds U :=
  (expect_upholds "\x7b").bind fun opening => (hg.objectMembers opening).inMode.bind fun _ =>
    .look position_looks fun _ => .pure _

/-! ### Grammars -/

/-- The grammars of all depths uphold the relation. The induction is on the depth. -/
theorem upholds_nested (U : Upkeep) (depth : Nat) : (nested depth).Upholds U := by
  induction depth with
  | zero => exact ⟨grows_nested U.ctx 0, .throw .tooDeep, .throw .tooDeep, .throw .tooDeep⟩
  | succ depth ih =>
    exact ⟨grows_nested U.ctx (depth + 1), ih.expressionRule, ih.typeRule, ih.bodyRule⟩

theorem upholds_full (U : Upkeep) : full.Upholds U := upholds_nested U nestingLimit

end Grammar

end PklSyntax
