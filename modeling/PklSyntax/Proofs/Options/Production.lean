import PklSyntax.Proofs.Options.Token
import PklSyntax.Proofs.Growth.Object

/-!
# Other options: productions

All productions sift but those that count errors, which are the bodies of classes and what they stand
in. Where a production reads ahead and goes back, what was recorded in between is known to be a
continuation of what was on record before.

## Main definitions

* `Grammar.Sifts`: the grammar for what stands inside does the same in both readings.

## Main statements

* `Grammar.Sifts.expressionRule`, `Grammar.Sifts.typeRule`, `Grammar.Sifts.bodyRule`.
* `Grammar.Sifts.classMember`, `Grammar.Sifts.classHead`: of a class, all but its body.
* `Grammar.sifts_nested`: the grammars of all depths sift.
-/

namespace PklSyntax

/-- The grammar does the same in both readings, and it loses nothing that is on record. -/
structure Grammar.Sifts (g : Grammar) (W : Sieve) : Prop where
  grows : g.Grows W.front
  expr : g.expr.Sifts W
  type : g.type.Sifts W
  body : g.body.Sifts W

namespace Parser

variable {W : Sieve}

/-- Whether the name of a property stands at the cursor. -/
theorem atPropertyHead_sifts : atPropertyHead.Sifts W := by
  intro s
  refine .mark ?_
  rw [propertyName?, bind_assoc, bind_assoc]
  refine (identifier?_sifts.attempt s).bind fun name? s₁ h₁ => ?_
  have hkept := kept_of_attempt identifier?_grows h₁
  rw [pure_bind, pure_bind]
  split
  · exact .rewind hkept (.pure false)
  · refine (skip_sifts s₁).bind fun _ s₂ h₂ => .look peek_looks rfl (.look (peekAt_looks 1) rfl ?_)
    exact .rewind (hkept.trans (skip_grows.of_ok h₂).1.toKept) (.pure _)

/-- Whether the amendment of an element stands at the cursor. -/
theorem atFieldAmend_sifts : atFieldAmend.Sifts W := by
  refine (startsWith_sifts "(").bind fun opened => .ite (.pure false) fun s => .mark ?_
  refine (advance_sifts 1 s).bind fun _ s₁ h₁ => (acceptKeyword_sifts "this" s₁).bind
    fun found s₂ h₂ => ?_
  have hkept := ((advance_grows 1).of_ok h₁).1.toKept.trans
    ((acceptKeyword_grows (by decide)).of_ok h₂).1.toKept
  cases found with
  | true =>
    exact (atToken_sifts "[" s₂).bind fun found s₃ h₃ =>
      .rewind (hkept.trans ((atToken_grows "[").of_ok h₃).1.toKept) (.pure found)
  | false =>
    refine .bind (.pure false) fun found s₃ h₃ => ?_
    cases h₃
    exact .rewind hkept (.pure false)

theorem modifiers_sifts : modifiers.Sifts W :=
  repeating_sifts (fun found => skip_sifts.bind fun _ =>
    Sifts.bind (.look (firstModifier?_looks _) fun _ => rfl) fun modifier? => by
      cases modifier? with
      | some modifier => exact (advance_sifts _).bind fun _ => .pure _
      | none => exact .pure _) _

theorem variance_sifts : variance.Sifts W :=
  (atWord_sifts "in").bind fun _ => .ite ((advance_sifts 2).bind fun _ => .pure _)
    ((atWord_sifts "out").bind fun _ => .ite ((advance_sifts 3).bind fun _ => .pure _) (.pure _))

theorem atString_sifts : atString.Sifts W := .look atString_looks fun _ => rfl

theorem atNumber_sifts : atNumber.Sifts W := .look atNumber_looks fun _ => rfl

end Parser

namespace Grammar

open PklSyntax.Parser

variable {g : Grammar} {W : Sieve}

/-! ### Strings and types -/

theorem Sifts.string (hg : g.Sifts W) : g.string.Sifts W :=
  fun s => .options (stringLiteral_siftsAt hg.expr s)

theorem Sifts.sourceString (hg : g.Sifts W) (keyword : String) : (g.sourceString keyword).Sifts W :=
  skip_sifts.bind fun _ => atString_sifts.bind fun _ => .option () (failExpected_sifts _) fun _ =>
    hg.string.bind fun _ => .option () (failWith_sifts rfl _) fun _ => .pure _

theorem Sifts.typeArguments (hg : g.Sifts W) (base : NamedType) : (g.typeArguments base).Sifts W :=
  (takeToken_sifts 1).bind fun _ => (commaList_sifts hg.type).bind fun _ => (expect_sifts ">").bind
    fun _ => .ite ((report_sifts rfl _).bind fun _ => .pure _) (.pure _)

theorem Sifts.arrowResult? (hg : g.Sifts W) : g.arrowResult?.Sifts W := by
  refine fun s => .mark ((skip_sifts s).bind fun _ s₁ h₁ => .look (startsWith_looks "->") rfl
    (.ite (((advance_sifts 2).bind fun _ => hg.type.bind fun _ => .pure _) s₁) ?_))
  exact .rewind (skip_grows.of_ok h₁).1.toKept (.pure none)

theorem Sifts.parenthesizedType (hg : g.Sifts W) : g.parenthesizedType.Sifts W := by
  refine position_sifts.bind fun start => (advance_sifts 1).bind fun _ =>
    (commaList_sifts hg.type).bind fun params => (expect_sifts ")").bind fun close =>
      hg.arrowResult?.bind fun result? => ?_
  cases result? with
  | some result => exact .pure _
  | none =>
    dsimp only
    split
    · exact .pure _
    · exact failExpected_sifts _

theorem Sifts.stringType (hg : g.Sifts W) : g.stringType.Sifts W :=
  hg.string.bind fun _ => .option () (failWith_sifts rfl _) fun _ => .pure _

theorem Sifts.typeAtom (hg : g.Sifts W) : g.typeAtom.Sifts W :=
  peek_sifts.bind fun _ => .ite hg.parenthesizedType (atString_sifts.bind fun _ => .ite hg.stringType
    (atIdentifier_sifts.bind fun _ => .ite ((qualifiedName_sifts _).bind fun name => peek_sifts.bind
      fun _ => .ite (hg.typeArguments name) (.pure _)) (failExpected_sifts _)))

theorem Sifts.constraints (hg : g.Sifts W) (base : TypeExpr) : (g.constraints base).Sifts W :=
  (advance_sifts 1).bind fun _ => hg.expr.bind fun _ => (repeating_sifts (fun _ =>
    (accept_sifts ",").bind fun _ => .ite (hg.expr.bind fun _ => .pure _) (.pure _)) _).bind fun _ =>
      (expect_sifts ")").bind fun _ => .pure _

theorem Sifts.typeSuffix (hg : g.Sifts W) (base : TypeExpr) : (g.typeSuffix base).Sifts W :=
  peek_sifts.bind fun _ => (peekAt_sifts 1).bind fun _ =>
    .ite ((advance_sifts 1).bind fun _ => position_sifts.bind fun _ => .pure _)
      (.ite ((hg.constraints base).bind fun _ => .pure _) (.pure _))

theorem Sifts.typeSegment (hg : g.Sifts W) : g.typeSegment.Sifts W := by
  refine skip_sifts.bind fun _ => position_sifts.bind fun start => peek_sifts.bind fun c => ?_
  -- The atom with its suffixes, behind the mark of a default or without one.
  have hatom : (do
      let base ← g.typeAtom
      let type ← repeating g.typeSuffix base
      if c == '*' then return .default type ⟨start, type.span.stop⟩ else return type :
      Parser TypeExpr).Sifts W :=
    hg.typeAtom.bind fun base => (repeating_sifts hg.typeSuffix base).bind fun _ =>
      .ite (.pure _) (.pure _)
  exact .ite ((advance_sifts 1).bind fun _ => skip_sifts.bind fun _ => hatom) hatom

theorem atUnionBar_sifts : atUnionBar.Sifts W :=
  (atToken_sifts "|").bind fun _ => .ite (.pure _) ((startsWith_sifts "||").bind fun _ =>
    .ite (.pure _) ((startsWith_sifts "|>").bind fun _ => .pure _))

theorem Sifts.typeRule (hg : g.Sifts W) : g.typeRule.Sifts W := by
  refine skip_sifts.bind fun _ => position_sifts.bind fun start => hg.typeSegment.bind fun first =>
    (repeating_sifts (fun _ => atUnionBar_sifts.bind fun _ => .ite ((advance_sifts 1).bind fun _ =>
      hg.typeSegment.bind fun _ => .pure _) (.pure _)) _).bind fun members => ?_
  split
  · exact .pure _
  · exact .pure _

/-! ### Calls and lambdas -/

theorem Sifts.call (hg : g.Sifts W) (callee : Identifier) (kind : CallKind) :
    (g.call callee kind).Sifts W :=
  (advance_sifts 1).bind fun _ => (commaList_sifts hg.expr).bind fun _ => (expect_sifts ")").bind
    fun _ => .pure _

theorem Sifts.member (hg : g.Sifts W) : g.member.Sifts W :=
  skip_sifts.bind fun _ => (identifier_sifts _).bind fun name => peek_sifts.bind fun _ =>
    .ite ((hg.call name _).bind fun _ => .pure _) (.pure _)

theorem Sifts.param (hg : g.Sifts W) : g.param.Sifts W :=
  (expectName_sifts _).bind fun _ => announced_sifts (accept_sifts ":") hg.type fun _ => .pure _

theorem Sifts.params (hg : g.Sifts W) : g.params.Sifts W :=
  (expect_sifts "(").bind fun _ => (commaList_sifts hg.param).bind fun _ => (expect_sifts ")").bind
    fun _ => .pure _

theorem Sifts.lambda? (hg : g.Sifts W) : g.lambda?.Sifts W := by
  intro s
  refine .mark (.look position_looks rfl ((hg.params.attempt s).bind fun params? s₁ h₁ => ?_))
  have hkept := kept_of_attempt hg.grows.params h₁
  cases params? with
  | none => exact .rewind hkept (.pure none)
  | some params =>
    refine (atToken_sifts "->" s₁).bind fun arrow s₂ h₂ => ?_
    cases arrow with
    | false => exact .rewind (hkept.trans ((atToken_grows _).of_ok h₂).1.toKept) (.pure none)
    | true => exact ((advance_sifts 2).bind fun _ => hg.expr.bind fun _ => .pure _) s₂

/-! ### Primary expressions -/

theorem Sifts.parenthesized (hg : g.Sifts W) : g.parenthesized.Sifts W := by
  refine position_sifts.bind fun start => hg.lambda?.bind fun lambda? => ?_
  cases lambda? with
  | some lambda => exact .pure lambda
  | none =>
    exact (advance_sifts 1).bind fun _ => hg.expr.bind fun _ => (expect_sifts ")").bind fun _ => .pure _

theorem Sifts.conditional (hg : g.Sifts W) : g.conditional.Sifts W :=
  position_sifts.bind fun _ => (advance_sifts _).bind fun _ => (expect_sifts "(").bind fun _ =>
    hg.expr.bind fun _ => (expect_sifts ")").bind fun _ => hg.expr.bind fun _ =>
      (expectKeyword_sifts "else").bind fun _ => hg.expr.bind fun _ => .pure _

theorem Sifts.letExpression (hg : g.Sifts W) : g.letExpression.Sifts W :=
  position_sifts.bind fun _ => (advance_sifts _).bind fun _ => (expect_sifts "(").bind fun _ =>
    (expectName_sifts _).bind fun _ => announced_sifts (accept_sifts ":") hg.type fun _ =>
      atAssign_sifts.bind fun _ => .option () (failExpected_sifts _) fun _ =>
        (advance_sifts 1).bind fun _ => hg.expr.bind fun _ => (expect_sifts ")").bind fun _ =>
          hg.expr.bind fun _ => .pure _

theorem Sifts.newExpression (hg : g.Sifts W) : g.newExpression.Sifts W :=
  position_sifts.bind fun _ => (advance_sifts _).bind fun _ => (atToken_sifts "\x7b").bind fun _ =>
    .branch (.pure none) hg.type.map fun _ => hg.body.bind fun _ => .pure _

theorem Sifts.nameExpression (hg : g.Sifts W) : g.nameExpression.Sifts W :=
  (identifier_sifts _).bind fun name => peek_sifts.bind fun _ =>
    .ite (.option () (failWith_sifts rfl _) fun _ => (hg.call name _).bind fun _ => .pure _)
      (.option () (failWith_sifts rfl _) fun _ => .pure _)

theorem Sifts.identifierExpression (hg : g.Sifts W) : g.identifierExpression.Sifts W :=
  Sifts.bind (.look readKind?_looks fun _ => rfl) fun kind? => by
    cases kind? with
    | some kind =>
      exact position_sifts.bind fun _ => (advance_sifts 5).bind fun _ => (hg.call _ kind).bind
        fun _ => .pure _
    | none => exact hg.nameExpression

theorem constant?_sifts : constant?.Sifts W :=
  (atWord_sifts _).bind fun _ => .ite ((takeToken_sifts 4).bind fun _ => .pure _)
    ((atWord_sifts _).bind fun _ => .ite ((takeToken_sifts 5).bind fun _ => .pure _)
      ((atWord_sifts _).bind fun _ => .ite ((takeToken_sifts 4).bind fun _ => .pure _) (.pure _)))

theorem Sifts.primary (hg : g.Sifts W) : g.primary.Sifts W := by
  refine skip_sifts.bind fun _ => (atWord_sifts "if").bind fun _ => .ite hg.conditional
    ((atWord_sifts "let").bind fun _ => .ite hg.letExpression ((startsWith_sifts "(").bind fun _ =>
      .ite hg.parenthesized ((atWord_sifts "new").bind fun _ => .ite hg.newExpression
        (atNumber_sifts.bind fun _ => .ite ?_ (atString_sifts.bind fun _ =>
          .ite (hg.string.bind fun _ => .pure _) ?_)))))
  · exact fun s => .options ((number_siftsAt s).bind fun _ _ _ => .pure _)
  · refine constant?_sifts.bind fun constant? => ?_
    cases constant? with
    | some constant => exact .pure constant
    | none => exact atIdentifier_sifts.bind fun _ => .ite hg.identifierExpression (failExpected_sifts _)

/-! ### Selections and operators -/

theorem Sifts.moreBodies (hg : g.Sifts W) (first : ObjectBody) : (g.moreBodies first).Sifts W :=
  repeating_sifts (fun _ => (atToken_sifts "\x7b").bind fun _ => .ite (hg.body.bind fun _ => .pure _)
    (.pure _)) _

theorem Sifts.amendments (hg : g.Sifts W) (base : Expr) : (g.amendments base).Sifts W :=
  hg.body.bind fun first => (hg.moreBodies first).bind fun _ => .pure _

theorem Sifts.dotAccess (hg : g.Sifts W) (target : Expr) : (g.dotAccess target).Sifts W :=
  position_sifts.bind fun _ => (advance_sifts 1).bind fun _ => hg.member.bind fun _ => .pure _

theorem Sifts.nullSafeAccess (hg : g.Sifts W) (target : Expr) : (g.nullSafeAccess target).Sifts W :=
  position_sifts.bind fun _ => (advance_sifts 2).bind fun _ => hg.member.bind fun _ => .pure _

theorem Sifts.bracketAccess (hg : g.Sifts W) (target : Expr) : (g.bracketAccess target).Sifts W :=
  position_sifts.bind fun _ => (advance_sifts 1).bind fun _ => hg.expr.bind fun _ =>
    (expect_sifts "]").bind fun _ => .pure _

theorem Sifts.postfixStep (hg : g.Sifts W) (target : Expr) : (g.postfixStep target).Sifts W := by
  refine skip_sifts.bind fun _ => (startsWith_sifts "?.").bind fun _ =>
    .ite ((hg.nullSafeAccess target).bind fun _ => .pure _) ?_
  refine (startsWith_sifts ".").bind fun _ => (startsWith_sifts "...").bind fun _ =>
    .ite ((hg.dotAccess target).bind fun _ => .pure _) ?_
  refine (startsWith_sifts "[").bind fun _ => (newlineSince_sifts _).bind fun _ =>
    .ite ((hg.bracketAccess target).bind fun _ => .pure _) ?_
  refine (startsWith_sifts "!!").bind fun _ => .ite ((advance_sifts 2).bind fun _ =>
    position_sifts.bind fun _ => .pure _) ?_
  exact (startsWith_sifts "\x7b").bind fun _ => .ite ((hg.amendments target).bind fun _ => .pure _)
    (.pure _)

theorem Sifts.typeTestStep (hg : g.Sifts W) (expr : Expr) : (g.typeTestStep expr).Sifts W :=
  skip_sifts.bind fun _ => (atWord_sifts "is").bind fun _ => .ite ((advance_sifts 2).bind fun _ =>
    hg.type.bind fun _ => .pure _) ((atWord_sifts "as").bind fun _ => .ite ((advance_sifts 2).bind
      fun _ => hg.type.bind fun _ => .pure _) (.pure _))

theorem prefixStep_sifts (operators : List (UnaryOperator × Nat)) : (prefixStep operators).Sifts W :=
  skip_sifts.bind fun _ => position_sifts.bind fun _ => (startsWith_sifts "-").bind fun _ =>
    (startsWith_sifts "->").bind fun _ => .ite ((advance_sifts 1).bind fun _ => .pure _)
      ((startsWith_sifts "!").bind fun _ => (startsWith_sifts "!=").bind fun _ =>
        .ite ((advance_sifts 1).bind fun _ => .pure _) (.pure _))

theorem Sifts.operand (hg : g.Sifts W) : g.operand.Sifts W :=
  (repeating_sifts prefixStep_sifts _).bind fun _ => hg.primary.bind fun _ =>
    (repeating_sifts hg.postfixStep _).bind fun _ => (repeating_sifts hg.typeTestStep _).bind fun _ =>
      .pure _

theorem infixOperator?_sifts (left : Expr) : (infixOperator? left).Sifts W := by
  refine skip_sifts.bind fun _ => Sifts.bind (.look (firstOperator?_looks _) fun _ => rfl) fun op? => ?_
  split
  · exact (startsWith_sifts "->").bind fun _ => (newlineSince_sifts _).bind fun _ =>
      .ite (.pure _) (.pure _)
  · exact .pure _

theorem Sifts.infixSteps (hg : g.Sifts W) (first : Expr) : (g.infixSteps first).Sifts W := by
  refine repeating_sifts (fun steps => (infixOperator?_sifts _).bind fun op? => ?_) _
  cases op? with
  | some op => exact (advance_sifts _).bind fun _ => hg.operand.bind fun _ => .pure _
  | none => exact .pure _

theorem Sifts.expressionRule (hg : g.Sifts W) : g.expressionRule.Sifts W := by
  refine hg.operand.bind fun first => (hg.infixSteps first).bind fun steps => ?_
  dsimp only
  split
  · exact Sifts.bind (.throw .tooDeep) fun _ => .pure _
  · exact .pure _

/-! ### Declarations -/

theorem Sifts.annotationRule (hg : g.Sifts W) : g.annotationRule.Sifts W :=
  position_sifts.bind fun _ => (advance_sifts 1).bind fun _ => (qualifiedName_sifts _).bind fun _ =>
    announced_sifts (atToken_sifts "\x7b") hg.body fun _ => .pure _

theorem Sifts.annotationRules (hg : g.Sifts W) : g.annotationRules.Sifts W :=
  (repeating_sifts (fun _ => (atToken_sifts "@").bind fun _ => .ite (hg.annotationRule.bind fun _ =>
    .pure _) (.pure _)) _).bind fun _ => .pure _

theorem Sifts.preamble (hg : g.Sifts W) : g.preamble.Sifts W :=
  position_sifts.bind fun _ => takeDoc_sifts.bind fun _ => hg.annotationRules.bind fun _ =>
    modifiers_sifts.bind fun _ => skip_sifts.bind fun _ => .pure _

theorem Sifts.typeParameter (hg : g.Sifts W) : g.typeParameter.Sifts W :=
  skip_sifts.bind fun _ => position_sifts.bind fun _ => variance_sifts.bind fun _ => hg.type.bind
    fun _ => .pure _

theorem Sifts.typeParameters (hg : g.Sifts W) (stop : Int) : (g.typeParameters stop).Sifts W := by
  refine (accept?_sifts "<").bind fun opening? => ?_
  cases opening? with
  | none => exact .pure _
  | some opening =>
    refine (accept?_sifts ">").bind fun close? => ?_
    cases close? with
    | some close => exact (report_sifts rfl _).bind fun _ => .pure _
    | none =>
      exact hg.typeParameter.bind fun _ => (repeating_sifts (fun _ => (accept_sifts ",").bind fun _ =>
        .ite (hg.typeParameter.bind fun _ => .pure _) (.pure _)) _).bind fun _ =>
          (expect_sifts ">").bind fun _ => .pure _

theorem Sifts.objectForm (hg : g.Sifts W) : g.objectForm.Sifts W :=
  hg.body.bind fun first => (hg.moreBodies first).bind fun _ => .pure _

theorem Sifts.propertyForm (hg : g.Sifts W) (name : Identifier) : (g.propertyForm name).Sifts W := by
  refine (atToken_sifts "\x7b").bind fun _ => .ite (hg.objectForm.bind fun _ => .pure _)
    (announced_sifts (accept_sifts ":") hg.type fun type? => atAssign_sifts.bind fun _ =>
      .ite ((advance_sifts 1).bind fun _ => hg.expr.bind fun _ => .pure _) ?_)
  cases type? with
  | some type => exact .pure _
  | none => exact failWith_sifts rfl _

theorem Sifts.propertyRule (hg : g.Sifts W) (before : Preamble) : (g.propertyRule before).Sifts W :=
  (expectName_sifts _).bind fun name => (hg.propertyForm name).bind fun _ => .pure _

theorem Sifts.functionRule (hg : g.Sifts W) (before : Preamble) : (g.functionRule before).Sifts W :=
  (advance_sifts _).bind fun _ => (expectName_sifts _).bind fun _ => (hg.typeParameters _).bind
    fun _ => hg.params.bind fun _ => announced_sifts (accept_sifts ":") hg.type fun _ =>
      atAssign_sifts.bind fun _ => .option () (advance_sifts 1) fun _ =>
        .branch hg.expr.map (.pure none) fun _ => .pure _

theorem Sifts.classMember (hg : g.Sifts W) : g.classMember.Sifts W :=
  hg.preamble.bind fun before => (atWord_sifts "function").bind fun _ =>
    .ite ((hg.functionRule before).bind fun _ => .pure _) (atIdentifier_sifts.bind fun _ =>
      .ite ((hg.propertyRule before).bind fun _ => .pure _) (failExpected_sifts _))

theorem Sifts.classHead (hg : g.Sifts W) (before : Preamble) : (g.classHead before).Sifts W :=
  (advance_sifts _).bind fun _ => (expectName_sifts _).bind fun _ => (hg.typeParameters _).bind
    fun _ => announced_sifts (acceptKeyword_sifts "extends") hg.type fun _ => .pure _

theorem moduleClauseRule_sifts (before : Preamble) : (moduleClauseRule before).Sifts W :=
  (advance_sifts _).bind fun _ => skip_sifts.bind fun _ => (qualifiedName_sifts _).bind fun _ => .pure _

theorem Sifts.importRule (hg : g.Sifts W) (before : Preamble) : (g.importRule before).Sifts W :=
  (advance_sifts _).bind fun _ => peek_sifts.bind fun _ => .option () (advance_sifts 1) fun _ =>
    (hg.sourceString _).bind fun _ => announced_sifts (acceptKeyword_sifts "as") (expectName_sifts _)
      fun _ => .pure _

theorem Sifts.extendsRule (hg : g.Sifts W) (before : Preamble) : (g.extendsRule before).Sifts W :=
  (advance_sifts _).bind fun _ => (hg.sourceString _).bind fun _ => .pure _

theorem Sifts.amendsRule (hg : g.Sifts W) (before : Preamble) : (g.amendsRule before).Sifts W :=
  (advance_sifts _).bind fun _ => (hg.sourceString _).bind fun _ => .pure _

theorem Sifts.typeAliasRule (hg : g.Sifts W) (before : Preamble) : (g.typeAliasRule before).Sifts W :=
  (advance_sifts _).bind fun _ => (expectName_sifts _).bind fun _ => (hg.typeParameters _).bind
    fun _ => (expect_sifts "=").bind fun _ => hg.type.bind fun _ => .pure _

theorem failDeclaration_sifts : failDeclaration.Sifts W :=
  peek_sifts.bind fun _ => atEnd_sifts.bind fun _ => .ite (failExpected_sifts _)
    (.ite (here_sifts.bind fun _ => failWith_sifts rfl _)
      (describeCurrent_sifts.bind fun _ => here_sifts.bind fun _ => failWith_sifts rfl _))

/-! ### Object bodies -/

theorem Sifts.entryValue (hg : g.Sifts W) : g.entryValue.Sifts W :=
  atAssign_sifts.bind fun _ => .ite ((advance_sifts 1).bind fun _ => hg.expr.bind fun _ => .pure _)
    ((atToken_sifts "\x7b").bind fun _ => .ite (hg.objectForm.bind fun _ => .pure _)
      (failExpected_sifts _))

theorem Sifts.mappingEntry (hg : g.Sifts W) : g.mappingEntry.Sifts W :=
  position_sifts.bind fun _ => (advance_sifts 1).bind fun _ => hg.expr.bind fun _ =>
    (expect_sifts "]").bind fun _ => hg.entryValue.bind fun _ => .pure _

theorem Sifts.predicateEntry (hg : g.Sifts W) : g.predicateEntry.Sifts W :=
  position_sifts.bind fun _ => (advance_sifts 2).bind fun _ => hg.expr.bind fun _ =>
    (expect_sifts "]]").bind fun _ => hg.entryValue.bind fun _ => .pure _

theorem Sifts.spread (hg : g.Sifts W) : g.spread.Sifts W :=
  position_sifts.bind fun _ => (advance_sifts 3).bind fun _ => peek_sifts.bind fun _ =>
    .option () (advance_sifts 1) fun _ => hg.expr.bind fun _ => .pure _

theorem Sifts.fieldAmend (hg : g.Sifts W) : g.fieldAmend.Sifts W :=
  position_sifts.bind fun _ => (advance_sifts 1).bind fun _ => (expectKeyword_sifts "this").bind
    fun _ => (expect_sifts "[").bind fun _ => hg.expr.bind fun _ => (expect_sifts "]").bind fun _ =>
      (expect_sifts ")").bind fun _ => hg.body.bind fun _ => .pure _

theorem Sifts.whenGenerator (hg : g.Sifts W) : g.whenGenerator.Sifts W :=
  position_sifts.bind fun _ => (advance_sifts _).bind fun _ => (expect_sifts "(").bind fun _ =>
    hg.expr.bind fun _ => (expect_sifts ")").bind fun _ => hg.body.bind fun _ =>
      announced_sifts (acceptKeyword_sifts "else") hg.body fun _ => .pure _

theorem loopNames_sifts : loopNames.Sifts W :=
  (expectName_sifts _).bind fun _ => (accept_sifts ",").bind fun _ =>
    .ite ((expectName_sifts _).bind fun _ => .pure _) (.pure _)

theorem Sifts.forGenerator (hg : g.Sifts W) : g.forGenerator.Sifts W :=
  position_sifts.bind fun _ => (advance_sifts _).bind fun _ => (expect_sifts "(").bind fun _ =>
    loopNames_sifts.bind fun _ => (expectKeyword_sifts "in").bind fun _ => hg.expr.bind fun _ =>
      (expect_sifts ")").bind fun _ => hg.body.bind fun _ => .pure _

theorem Sifts.propertyMember? (hg : g.Sifts W) : g.propertyMember?.Sifts W := by
  refine fun s => .mark ((hg.preamble s).bind fun before s₁ h₁ => .look (atWord_looks _) rfl
    (.ite (((hg.functionRule before).bind fun _ => .pure _) s₁) ?_))
  refine (atPropertyHead_sifts s₁).bind fun head s₂ h₂ => .ite
    (((hg.propertyRule before).bind fun _ => .pure _) s₂) (.rewind ?_ (.pure none))
  exact (hg.grows.preamble.of_ok h₁).1.toKept.trans (atPropertyHead_grows.of_ok h₂).1.toKept

theorem Sifts.namedMember (hg : g.Sifts W) : g.namedMember.Sifts W := by
  refine hg.propertyMember?.bind fun member? => ?_
  cases member? with
  | some member => exact .pure member
  | none => exact hg.expr.bind fun _ => .pure _

theorem Sifts.objectMember (hg : g.Sifts W) : g.objectMember.Sifts W :=
  (startsWith_sifts "[[").bind fun _ => .ite hg.predicateEntry ((startsWith_sifts "[").bind fun _ =>
    .ite hg.mappingEntry ((startsWith_sifts "...").bind fun _ => .ite hg.spread
      (atFieldAmend_sifts.bind fun _ => .ite hg.fieldAmend ((atWord_sifts "when").bind fun _ =>
        .ite hg.whenGenerator ((atWord_sifts "for").bind fun _ => .ite hg.forGenerator
          hg.namedMember)))))

theorem Sifts.objectMembers (hg : g.Sifts W) (opening : Span) : (g.objectMembers opening).Sifts W :=
  repeating_sifts (fun _ => skip_sifts.bind fun _ => peek_sifts.bind fun _ => atEnd_sifts.bind fun _ =>
    .ite (failWith_sifts rfl _) (.ite ((advance_sifts 1).bind fun _ => .pure _)
      (.ite ((advance_sifts 1).bind fun _ => .pure _) (hg.objectMember.bind fun _ => .pure _)))) _

theorem Sifts.bodyRule (hg : g.Sifts W) : g.bodyRule.Sifts W :=
  (expect_sifts "\x7b").bind fun opening => (hg.objectMembers opening).inMode.bind fun _ =>
    position_sifts.bind fun _ => .pure _

/-! ### Grammars -/

/-- The grammars of all depths do the same in both readings. -/
theorem sifts_nested (W : Sieve) (depth : Nat) : (nested depth).Sifts W := by
  induction depth with
  | zero => exact ⟨grows_nested W.front 0, .throw .tooDeep, .throw .tooDeep, .throw .tooDeep⟩
  | succ depth ih =>
    exact ⟨grows_nested W.front (depth + 1), ih.expressionRule, ih.typeRule, ih.bodyRule⟩

theorem sifts_full (W : Sieve) : full.Sifts W := sifts_nested W nestingLimit

end Grammar

end PklSyntax
