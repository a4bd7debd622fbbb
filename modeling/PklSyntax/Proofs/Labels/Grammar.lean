import PklSyntax.Proofs.Labels.Token

/-!
# Where the errors of productions point

A production reports what is wrong at the cursor, or at a part that it has read: a name, a token, a
literal, the brace that opens a body. Most productions report nothing themselves, so that the steps
of which they are made say all about them. Where a production reads ahead and goes back, it is in
the state again in which it began.

## Main definitions

* `Grammar.Marks`: a grammar whose parsers keep states marked.

## Main statements

* `Grammar.Marks.typeRule`, `Grammar.Marks.expressionRule`, `Grammar.Marks.bodyRule`.
* `Grammar.Marks.classBody`, `Grammar.Marks.declarationRule`.
* `Grammar.Marks.nested`: the grammars of all depths.
-/

namespace PklSyntax

-- The proof for a long production is a large term.
set_option synthInstance.maxSize 4000

namespace Parser

variable {ctx : Context} {s : State}

namespace Marks

instance modifiers : Marks modifiers := by
  delta Parser.modifiers
  refine loop (fun _ => sequence fun _ => sequence fun modifier? => ?_) _
  cases modifier? <;> infer_instance

instance variance : Marks variance := by delta Parser.variance; infer_instance

instance propertyName? : Marks propertyName? := by delta Parser.propertyName?; infer_instance

instance atPropertyHead : Marks atPropertyHead := by
  refine ⟨fun ctx s => .of_marked fun hs => .look mark_looks (.after fun name? s₁ h₁ => ?_)⟩
  have hkept := kept_propertyName? h₁
  cases name? with
  | none => exact .rewind hkept hs (.pure false)
  | some name =>
    exact .after fun _ s₂ h₂ => .look peek_looks (.look (peekAt_looks 1)
      (.rewind (hkept.trans (skip_grows.of_ok h₂).1.toKept) hs (.pure _)))

instance atFieldAmend : Marks atFieldAmend := by
  refine ⟨fun ctx s => .of_marked fun hs => .look (startsWith_looks "(") (.ite
    (fun _ => .pure false) fun _ => .look mark_looks (.after fun _ s₁ h₁ => .after
      fun found s₂ h₂ => ?_))⟩
  have hkept := ((advance_grows 1).of_ok h₁).1.toKept.trans
    ((acceptKeyword_grows (by decide)).of_ok h₂).1.toKept
  refine .ite (fun _ => .after fun found s₃ h₃ => ?_) fun _ => .andThen (.pure false)
    fun _ _ h => by cases h; exact .rewind hkept hs (.pure false)
  exact .rewind (hkept.trans ((atToken_grows "[").of_ok h₃).1.toKept) hs (.pure found)

end Marks

end Parser

/-- The parsers of the grammar keep states marked, and what is known of them otherwise. -/
class Grammar.Marks (g : Grammar) : Prop extends g.Upkept where
  grows : ∀ ctx, g.Grows ctx
  places : ∀ ctx, g.Places ctx
  expr : Parser.Marks g.expr
  type : Parser.Marks g.type
  body : Parser.Marks g.body

namespace Grammar

open PklSyntax.Parser PklSyntax.Parser.Marks

namespace Marks

variable {g : Grammar} [g.Marks] {ctx : Context} {s : State}

attribute [instance] Marks.expr Marks.type Marks.body

/-! ### Strings and types -/

instance string : Parser.Marks g.string := by delta Grammar.string; infer_instance

theorem string_inside (hstring : stringAt ctx.text s.pos = true) :
    g.string.Leaves Steady ctx s fun literal _ => literal.span.Inside ctx.text.size :=
  have : Parser.Upkept g.string := ⟨fun U => (Upkept.upholds U).string⟩
  leaves_of_yields (fun _ => (places ctx : g.Places ctx).string hstring) fun _ _ _ _ hsize h =>
    Span.inside_of_placed h hsize

instance sourceString (keyword : String) : Parser.Marks (g.sourceString keyword) := by
  refine ⟨fun ctx s => .after fun _ s₁ _ => .look atString_looks (.ite
    (fun _ => .never (Parser.Marks.marksFrom _ _) failExpected_leaves) fun hstring => ?_)⟩
  refine .bind (Parser.Marks.marksFrom ctx s₁) (string_inside (by simpa using hstring))
    fun literal s₂ hliteral => .ite (fun _ => ?_) fun _ => .pure literal
  exact .failWith_bind fun _ => .of_inside rfl hliteral

/-- An empty list of type arguments is marked from its opening sign to its closing one. -/
instance typeArguments (base : NamedType) : Parser.Marks (g.typeArguments base) := by
  refine ⟨fun ctx s => .bind (Parser.Marks.marksFrom ctx s) (takeToken_inside 1)
    fun opening s₁ hopening => .after fun args s₂ _ => .bind (Parser.Marks.marksFrom ctx s₂)
      (expect_inside (by decide)) fun close _ hclose => .ite (fun _ => ?_) fun _ => .pure _⟩
  exact .report_bind (fun _ => .of_inside rfl (hopening.cover hclose)) (.pure _)

instance arrowResult? : Parser.Marks g.arrowResult? :=
  ⟨fun _ _ => .of_marked fun hs => .look mark_looks (.after fun _ _ h₁ =>
    .look (startsWith_looks "->") (.ite (fun _ => Parser.Marks.marksFrom _ _) fun _ =>
      .rewind (skip_grows.of_ok h₁).1.toKept hs (.pure none)))⟩

instance parenthesizedType : Parser.Marks g.parenthesizedType := by
  delta Grammar.parenthesizedType
  refine sequence fun _ => sequence fun _ => sequence fun params => sequence fun _ =>
    sequence fun result? => ?_
  cases result? with
  | some result => infer_instance
  | none => rcases params with _ | ⟨type, _ | ⟨other, others⟩⟩ <;> infer_instance

theorem stringType_marks (hstring : stringAt ctx.text s.pos = true) :
    g.stringType.MarksFrom ctx s :=
  .bind (Parser.Marks.marksFrom ctx s) (string_inside hstring) fun _ _ hliteral =>
    .ite (fun _ => .failWith_bind fun _ => .of_inside rfl hliteral) fun _ => .pure _

instance typeAtom : Parser.Marks g.typeAtom :=
  ⟨fun _ _ => .look peek_looks (.ite (fun _ => Parser.Marks.marksFrom _ _) fun _ =>
    .look atString_looks (.ite stringType_marks fun _ => .look atIdentifier_looks
      (.ite (fun _ => Parser.Marks.marksFrom _ _) fun _ => Parser.Marks.marksFrom _ _)))⟩

instance constraints (base : TypeExpr) : Parser.Marks (g.constraints base) := by
  delta Grammar.constraints; infer_instance

instance typeSuffix (base : TypeExpr) : Parser.Marks (g.typeSuffix base) := by
  delta Grammar.typeSuffix; infer_instance

instance typeSegment : Parser.Marks g.typeSegment := by delta Grammar.typeSegment; infer_instance

instance atUnionBar : Parser.Marks atUnionBar := by delta Grammar.atUnionBar; infer_instance

instance typeRule : Parser.Marks g.typeRule := by
  delta Grammar.typeRule
  refine sequence fun _ => sequence fun _ => sequence fun _ => sequence fun members => ?_
  rcases members.toList with _ | ⟨type, _ | ⟨other, others⟩⟩ <;> infer_instance

/-! ### Expressions -/

instance call (callee : Identifier) (kind : CallKind) : Parser.Marks (g.call callee kind) := by
  delta Grammar.call; infer_instance

instance member : Parser.Marks g.member := by delta Grammar.member; infer_instance

instance param : Parser.Marks g.param := by delta Grammar.param; infer_instance

instance params : Parser.Marks g.params := by delta Grammar.params; infer_instance

instance lambda? : Parser.Marks g.lambda? := by
  refine ⟨fun ctx s => .of_marked fun hs => .look mark_looks (.look position_looks (.after
    fun params? s₁ h₁ => ?_))⟩
  have hkept := kept_of_attempt (grows ctx : g.Grows ctx).params h₁
  cases params? with
  | none => exact .rewind hkept hs (.pure none)
  | some params =>
    exact .after fun arrow s₂ h₂ => .ite (fun _ => Parser.Marks.marksFrom ctx s₂) fun _ =>
      .rewind (hkept.trans ((atToken_grows _).of_ok h₂).1.toKept) hs (.pure none)

instance parenthesized : Parser.Marks g.parenthesized := by
  delta Grammar.parenthesized
  refine sequence fun _ => sequence fun lambda? => ?_
  cases lambda? <;> infer_instance

instance conditional : Parser.Marks g.conditional := by delta Grammar.conditional; infer_instance

instance letExpression : Parser.Marks g.letExpression := by
  delta Grammar.letExpression; infer_instance

instance newExpression : Parser.Marks g.newExpression := by
  delta Grammar.newExpression; infer_instance

instance readKind? : Parser.Marks readKind? := .of_idle readKind?_looks.idle

/-- A keyword that is no expression is marked where it stands. -/
instance nameExpression : Parser.Marks g.nameExpression := by
  refine ⟨fun ctx s => .bind (Parser.Marks.marksFrom ctx s) (identifier_inside _)
    fun name s₁ hname => ?_⟩
  have hkeyword : (Problem.keywordInExpression name.name).Fits ctx.text.size name.span :=
    .of_inside rfl hname
  exact .look peek_looks (.ite
    (fun _ => .ite (fun _ => .failWith_bind fun _ => hkeyword) fun _ => Parser.Marks.marksFrom _ _)
    fun _ => .ite (fun _ => .failWith_bind fun _ => hkeyword) fun _ => .pure _)

instance identifierExpression : Parser.Marks g.identifierExpression := by
  delta Grammar.identifierExpression
  refine sequence fun kind? => ?_
  cases kind? <;> infer_instance

instance constant? : Parser.Marks constant? := by delta Grammar.constant?; infer_instance

instance primary : Parser.Marks g.primary := by
  delta Grammar.primary
  refine sequence fun _ => sequence fun _ => choice inferInstance <|
    sequence fun _ => choice inferInstance <| sequence fun _ => choice inferInstance <|
    sequence fun _ => choice inferInstance <| sequence fun _ => choice inferInstance <|
    sequence fun _ => choice inferInstance <| sequence fun constant? => ?_
  cases constant? <;> infer_instance

instance moreBodies (first : ObjectBody) : Parser.Marks (g.moreBodies first) := by
  delta Grammar.moreBodies; infer_instance

instance amendments (base : Expr) : Parser.Marks (g.amendments base) := by
  delta Grammar.amendments; infer_instance

instance dotAccess (target : Expr) : Parser.Marks (g.dotAccess target) := by
  delta Grammar.dotAccess; infer_instance

instance nullSafeAccess (target : Expr) : Parser.Marks (g.nullSafeAccess target) := by
  delta Grammar.nullSafeAccess; infer_instance

instance bracketAccess (target : Expr) : Parser.Marks (g.bracketAccess target) := by
  delta Grammar.bracketAccess; infer_instance

instance postfixStep (target : Expr) : Parser.Marks (g.postfixStep target) := by
  delta Grammar.postfixStep; infer_instance

instance typeTestStep (expr : Expr) : Parser.Marks (g.typeTestStep expr) := by
  delta Grammar.typeTestStep; infer_instance

instance prefixStep (operators : List (UnaryOperator × Nat)) :
    Parser.Marks (prefixStep operators) := by
  delta Grammar.prefixStep; infer_instance

instance operand : Parser.Marks g.operand := by delta Grammar.operand; infer_instance

instance firstOperator? (ops : List BinaryOperator) : Parser.Marks (firstOperator? ops) := by
  induction ops with
  | nil => exact Parser.Marks.pure _
  | cons op ops ih => exact bind

instance infixOperator? (left : Expr) : Parser.Marks (infixOperator? left) := by
  delta Grammar.infixOperator?
  refine sequence fun _ => sequence fun op? => ?_
  rcases op? with _ | _ | _ <;> infer_instance

instance infixSteps (first : Expr) : Parser.Marks (g.infixSteps first) := by
  delta Grammar.infixSteps
  refine loop (fun _ => sequence fun op? => ?_) _
  cases op? <;> infer_instance

instance expressionRule : Parser.Marks g.expressionRule := by
  delta Grammar.expressionRule; infer_instance

/-! ### Declarations -/

instance annotationRule : Parser.Marks g.annotationRule := by
  delta Grammar.annotationRule; infer_instance

instance annotationRules : Parser.Marks g.annotationRules := by
  delta Grammar.annotationRules; infer_instance

instance preamble : Parser.Marks g.preamble := by delta Grammar.preamble; infer_instance

instance typeParameter : Parser.Marks g.typeParameter := by
  delta Grammar.typeParameter; infer_instance

/-- An empty list of type parameters is marked from its opening sign to its closing one. -/
instance typeParameters (stop : Int) : Parser.Marks (g.typeParameters stop) := by
  refine ⟨fun ctx s => .bind (Parser.Marks.marksFrom ctx s) (accept?_inside (by decide))
    fun opening? s₁ hopening => ?_⟩
  cases opening? with
  | none => exact .pure _
  | some opening =>
    refine .bind (Parser.Marks.marksFrom ctx s₁) (accept?_inside (by decide))
      fun close? s₂ hclose => ?_
    cases close? with
    | none => exact Parser.Marks.marksFrom ctx s₂
    | some close =>
      exact .report_bind (fun _ => .of_inside rfl ((hopening _ rfl).cover (hclose _ rfl))) (.pure _)

instance objectForm : Parser.Marks g.objectForm := by delta Grammar.objectForm; infer_instance

theorem propertyForm_marks {name : Identifier} (hname : name.span.Inside ctx.text.size) :
    (g.propertyForm name).MarksFrom ctx s := by
  refine .after fun brace s₁ _ => .ite (fun _ => Parser.Marks.marksFrom ctx s₁) fun _ =>
    .after fun colon s₂ _ => .branch fun type? s₃ => .after fun assign s₄ _ =>
      .ite (fun _ => Parser.Marks.marksFrom ctx s₄) fun _ => ?_
  cases type? with
  | none => exact .failWith fun _ => .of_inside rfl hname
  | some type => exact .pure _

instance propertyRule (before : Preamble) : Parser.Marks (g.propertyRule before) :=
  ⟨fun ctx s => .bind (Parser.Marks.marksFrom ctx s) (expectName_inside _) fun _ _ hname =>
    .andThen (propertyForm_marks hname) fun _ _ _ => .pure _⟩

instance functionRule (before : Preamble) : Parser.Marks (g.functionRule before) := by
  delta Grammar.functionRule; infer_instance

instance classMember : Parser.Marks g.classMember := by delta Grammar.classMember; infer_instance

instance skipMember (start : Nat) : Parser.Marks (skipMember start) := by
  refine ⟨fun ctx s => .look theText_looks (.look position_looks (.moveTo fun hs => ?_))⟩
  have hkept : Kept ctx.text s { s with pos := memberResume ctx.text start s.pos } :=
    kept_memberResume start
  have hle := hkept.pos_le
  rw [Nat.min_eq_left hs.pos_le] at hle
  exact ⟨hle, hkept.pos_le_size hs.pos_le⟩

theorem classRound_marks {opening : Span} (hopening : opening.Inside ctx.text.size)
    (members : Array ClassMember) : (g.classRound opening members).MarksFrom ctx s := by
  refine .after fun _ s₁ _ => .look atEnd_looks (.ite
    (fun _ => .failWith_bind fun _ => .of_inside rfl hopening) fun _ => .look peek_looks (.ite
      (fun _ => Parser.Marks.marksFrom ctx s₁) fun _ => .look position_looks (.after
        fun member? s₂ _ => ?_)))
  cases member? <;> exact Parser.Marks.marksFrom ctx s₂

instance classBody : Parser.Marks g.classBody :=
  ⟨fun ctx s => classBody_eq g ▸ .bind (Parser.Marks.marksFrom ctx s) (expect_inside (by decide))
    fun _ _ hopening => .andThen (.repeating (fun members _ => classRound_marks hopening members) _)
      fun _ _ _ => Parser.Marks.marksFrom _ _⟩

instance classRule (before : Preamble) : Parser.Marks (g.classRule before) := by
  delta Grammar.classRule; infer_instance

instance moduleClauseRule (before : Preamble) : Parser.Marks (moduleClauseRule before) := by
  delta Grammar.moduleClauseRule; infer_instance

instance importRule (before : Preamble) : Parser.Marks (g.importRule before) := by
  delta Grammar.importRule; infer_instance

instance extendsRule (before : Preamble) : Parser.Marks (g.extendsRule before) := by
  delta Grammar.extendsRule; infer_instance

instance amendsRule (before : Preamble) : Parser.Marks (g.amendsRule before) := by
  delta Grammar.amendsRule; infer_instance

instance typeAliasRule (before : Preamble) : Parser.Marks (g.typeAliasRule before) := by
  delta Grammar.typeAliasRule; infer_instance

instance failDeclaration : Parser.Marks failDeclaration :=
  ⟨fun _ _ => .look peek_looks (.look atEnd_looks (.ite (fun _ => Parser.Marks.marksFrom _ _)
    fun _ => .ite (fun _ => failHere_marks rfl) fun _ =>
      .idle describeCurrent_idle fun _ => failHere_marks rfl))⟩

instance declarationRule : Parser.Marks g.declarationRule := by
  delta Grammar.declarationRule; infer_instance

/-! ### Object bodies -/

instance entryValue : Parser.Marks g.entryValue := by delta Grammar.entryValue; infer_instance

instance mappingEntry : Parser.Marks g.mappingEntry := by delta Grammar.mappingEntry; infer_instance

instance predicateEntry : Parser.Marks g.predicateEntry := by
  delta Grammar.predicateEntry; infer_instance

instance spread : Parser.Marks g.spread := by delta Grammar.spread; infer_instance

instance fieldAmend : Parser.Marks g.fieldAmend := by delta Grammar.fieldAmend; infer_instance

instance whenGenerator : Parser.Marks g.whenGenerator := by
  delta Grammar.whenGenerator; infer_instance

instance loopNames : Parser.Marks loopNames := by delta Grammar.loopNames; infer_instance

instance forGenerator : Parser.Marks g.forGenerator := by delta Grammar.forGenerator; infer_instance

instance propertyMember? : Parser.Marks g.propertyMember? := by
  refine ⟨fun ctx s => .of_marked fun hs => .look mark_looks (.after fun before s₁ h₁ =>
    .look (atWord_looks _) (.ite (fun _ => Parser.Marks.marksFrom ctx s₁) fun _ =>
      .after fun head s₂ h₂ => .ite (fun _ => Parser.Marks.marksFrom ctx s₂) fun _ =>
        .rewind ?_ hs (.pure none)))⟩
  exact ((grows ctx : g.Grows ctx).preamble.of_ok h₁).1.toKept.trans
    (atPropertyHead_grows.of_ok h₂).1.toKept

instance namedMember : Parser.Marks g.namedMember := by
  delta Grammar.namedMember
  refine sequence fun member? => ?_
  cases member? <;> infer_instance

instance objectMember : Parser.Marks g.objectMember := by delta Grammar.objectMember; infer_instance

/-- A body that is not closed is marked at its opening brace. -/
theorem objectMembers_marks {opening : Span} (hopening : opening.Inside ctx.text.size) :
    (g.objectMembers opening).MarksFrom ctx s :=
  .repeating (fun _ _ => .after fun _ _ _ => .look peek_looks (.look atEnd_looks (.ite
    (fun _ => .failWith fun _ => .of_inside rfl hopening) fun _ => Parser.Marks.marksFrom _ _))) _

instance bodyRule : Parser.Marks g.bodyRule :=
  ⟨fun ctx s => .bind (Parser.Marks.marksFrom ctx s) (expect_inside (by decide))
    fun _ s₁ hopening => .andThen (.inMode (objectMembers_marks hopening)) fun _ _ _ =>
      Parser.Marks.marksFrom _ _⟩

/-! ### Nesting -/

/-- The grammars of all depths keep states marked. The induction is on the depth. -/
instance nested (depth : Nat) : (nested depth).Marks := by
  induction depth with
  | zero =>
    exact ⟨fun ctx => grows_nested ctx 0, fun ctx => places_nested ctx 0, throw _, throw _,
      throw _⟩
  | succ depth ih =>
    exact ⟨fun ctx => grows_nested ctx (depth + 1), fun ctx => places_nested ctx (depth + 1),
      expressionRule, typeRule, bodyRule⟩

instance full : full.Marks := nested nestingLimit

end Marks

end Grammar

end PklSyntax
