import PklSyntax.Proofs.Course.Token
import PklSyntax.Proofs.Growth.Module
import PklSyntax.Proofs.Upkeep.Production

/-!
# The productions of the grammar

All runs of the productions in loose mode are orderly, if those of what stands inside are. Where a
production reads ahead and goes back, it is in the state again in which it began, since nothing of
that state is lost on the way; where members of a class go on behind one that was given up, the
cursor is moved on within the text.

The reading of a text begins in the initial state and applies the productions to one declaration
after another. Where a declaration is given up, the doc comments that were taken on its behalf are
given back, and reading goes on behind it. All of this leads from orderly states to orderly ones, so
that all moments of a parse are orderly, those inside alternatives that are given up among them.

## Main definitions

* `Grammar.Orderly`: all runs of the parsers of a grammar are orderly.
* `parseCourse`: the moments that the reading of a text passes through.

## Main statements

* `Grammar.Orderly.lambda?`, `Grammar.Orderly.propertyMember?`: productions that read ahead.
* `Grammar.Orderly.declarationRule`: declarations.
* `Grammar.Orderly.nested`: the grammars of all depths.
* `parseCourse_orderly`: all moments of a parse are orderly.
-/

namespace PklSyntax

-- The proof for a long production is a large term.
set_option synthInstance.maxSize 4000

namespace Grammar

open PklSyntax.Parser PklSyntax.Parser.Orderly

/-- All runs of the parsers of the grammar in loose mode are orderly, and they lose nothing. -/
class Orderly (g : Grammar) [g.Scripted] : Prop where
  grows : ∀ ctx, g.Grows ctx
  expr : Parser.Orderly .loose g.expr
  type : Parser.Orderly .loose g.type
  body : Parser.Orderly .loose g.body

namespace Orderly

variable {g : Grammar} [g.Scripted] [g.Orderly]

attribute [instance] Orderly.expr Orderly.type Orderly.body

/-! ### In front of declarations and members -/

instance modifiers : Parser.Orderly .loose Parser.modifiers :=
  .of_production (by
    delta Parser.modifiers id
    refine loop (fun _ => sequence fun _ => sequence fun modifier? => ?_) _
    cases modifier? <;> infer_instance)

instance variance : Parser.Orderly .loose Parser.variance :=
  .of_production (by delta Parser.variance id inferInstance; infer_instance)

instance propertyName? : Parser.Orderly .loose Parser.propertyName? :=
  .of_production (by delta Parser.propertyName? id inferInstance; infer_instance)

instance atPropertyHead : Parser.Orderly .loose Parser.atPropertyHead := by
  refine .of_runs fun ctx s hmode => .of_orderly fun hs => .mark
    (.after hmode fun name? s₁ h₁ _ => ?_)
  have hkept := kept_propertyName? h₁
  cases name? with
  | none => exact .rewind hs hkept (.pure false)
  | some name =>
    exact .after rfl fun _ s₂ h₂ _ => .look peek_looks (.look (peekAt_looks 1)
      (.rewind hs (hkept.trans (skip_grows.of_ok h₂).1.toKept) (.pure _)))

instance atFieldAmend : Parser.Orderly .loose Parser.atFieldAmend := by
  refine .of_runs fun ctx s hmode => .of_orderly fun hs => .look (startsWith_looks "(")
    (.ite (fun _ => .pure false) fun _ => .mark (.after hmode fun _ s₁ h₁ _ =>
      .after rfl fun found s₂ h₂ _ => ?_))
  have hkept := ((advance_grows 1).of_ok h₁).1.toKept.trans
    ((acceptKeyword_grows (by decide)).of_ok h₂).1.toKept
  refine .ite (fun _ => .after rfl fun found s₃ h₃ _ => ?_) fun _ => .after rfl fun _ s₃ h₃ _ => ?_
  · exact .rewind hs (hkept.trans ((atToken_grows "[").of_ok h₃).1.toKept) (.pure _)
  · cases h₃
    exact .rewind hs hkept (.pure _)

/-! ### Strings and types -/

instance string : Parser.Orderly .loose g.string :=
  .of_production (by delta Grammar.string id inferInstance; infer_instance)

instance sourceString (keyword : String) : Parser.Orderly .loose (g.sourceString keyword) :=
  .of_production (by delta Grammar.sourceString id inferInstance; infer_instance)

instance typeArguments (base : NamedType) : Parser.Orderly .loose (g.typeArguments base) :=
  .of_production (by delta Grammar.typeArguments id inferInstance; infer_instance)

instance arrowResult? : Parser.Orderly .loose g.arrowResult? :=
  .of_runs fun _ _ hmode => .of_orderly fun hs => .mark (.after hmode fun _ _ h₁ hmode₁ =>
    .look (startsWith_looks "->") (.ite (fun _ => .of_mode hmode₁) fun _ =>
      .rewind hs (skip_grows.of_ok h₁).1.toKept (.pure none)))

instance parenthesizedType : Parser.Orderly .loose g.parenthesizedType :=
  .of_production (by
    delta Grammar.parenthesizedType id inferInstance
    refine sequence fun _ => sequence fun _ => sequence fun params => sequence fun _ =>
      sequence fun result? => ?_
    cases result? with
    | some result => infer_instance
    | none => rcases params with _ | ⟨type, _ | ⟨other, others⟩⟩ <;> infer_instance)

instance stringType : Parser.Orderly .loose g.stringType :=
  .of_production (by delta Grammar.stringType id inferInstance; infer_instance)

instance typeAtom : Parser.Orderly .loose g.typeAtom :=
  .of_production (by delta Grammar.typeAtom id inferInstance; infer_instance)

instance constraints (base : TypeExpr) : Parser.Orderly .loose (g.constraints base) :=
  .of_production (by delta Grammar.constraints id inferInstance; infer_instance)

instance typeSuffix (base : TypeExpr) : Parser.Orderly .loose (g.typeSuffix base) :=
  .of_production (by delta Grammar.typeSuffix id inferInstance; infer_instance)

instance typeSegment : Parser.Orderly .loose g.typeSegment :=
  .of_production (by delta Grammar.typeSegment id inferInstance; infer_instance)

instance atUnionBar : Parser.Orderly .loose Grammar.atUnionBar :=
  .of_production (by delta Grammar.atUnionBar id inferInstance; infer_instance)

instance typeRule : Parser.Orderly .loose g.typeRule :=
  .of_production (by
    delta Grammar.typeRule id inferInstance
    refine sequence fun _ => sequence fun _ => sequence fun _ => sequence fun members => ?_
    rcases members.toList with _ | ⟨type, _ | ⟨other, others⟩⟩ <;> infer_instance)

/-! ### Expressions -/

instance call (callee : Identifier) (kind : CallKind) :
    Parser.Orderly .loose (g.call callee kind) :=
  .of_production (by delta Grammar.call id inferInstance; infer_instance)

instance member : Parser.Orderly .loose g.member :=
  .of_production (by delta Grammar.member id inferInstance; infer_instance)

instance param : Parser.Orderly .loose g.param :=
  .of_production (by delta Grammar.param id inferInstance; infer_instance)

instance params : Parser.Orderly .loose g.params :=
  .of_production (by delta Grammar.params id inferInstance; infer_instance)

instance lambda? : Parser.Orderly .loose g.lambda? := by
  refine .of_runs fun ctx s hmode => .of_orderly fun hs => .mark (.look position_looks
    (.after hmode fun params? s₁ h₁ hmode₁ => ?_))
  have hkept := kept_of_attempt (Orderly.grows ctx : g.Grows ctx).params h₁
  cases params? with
  | none => exact .rewind hs hkept (.pure none)
  | some params =>
    exact .after hmode₁ fun arrow s₂ h₂ hmode₂ => .ite (fun _ => .of_mode hmode₂) fun _ =>
      .rewind hs (hkept.trans ((atToken_grows _).of_ok h₂).1.toKept) (.pure none)

instance parenthesized : Parser.Orderly .loose g.parenthesized :=
  .of_production (by
    delta Grammar.parenthesized id inferInstance
    refine sequence fun _ => sequence fun lambda? => ?_
    cases lambda? <;> infer_instance)

instance conditional : Parser.Orderly .loose g.conditional :=
  .of_production (by delta Grammar.conditional id inferInstance; infer_instance)

instance letExpression : Parser.Orderly .loose g.letExpression :=
  .of_production (by delta Grammar.letExpression id inferInstance; infer_instance)

instance newExpression : Parser.Orderly .loose g.newExpression :=
  .of_production (by delta Grammar.newExpression id inferInstance; infer_instance)

instance readKind? : Parser.Orderly .loose Grammar.readKind? :=
  .of_production (by delta Grammar.readKind? id inferInstance; infer_instance)

instance nameExpression : Parser.Orderly .loose g.nameExpression :=
  .of_production (by delta Grammar.nameExpression id inferInstance; infer_instance)

instance identifierExpression : Parser.Orderly .loose g.identifierExpression :=
  .of_production (by
    delta Grammar.identifierExpression id inferInstance
    refine sequence fun kind? => ?_
    cases kind? <;> infer_instance)

instance constant? : Parser.Orderly .loose Grammar.constant? :=
  .of_production (by delta Grammar.constant? id inferInstance; infer_instance)

instance primary : Parser.Orderly .loose g.primary :=
  .of_production (by
    delta Grammar.primary id inferInstance
    refine sequence fun _ => sequence fun _ => choice inferInstance <|
      sequence fun _ => choice inferInstance <| sequence fun _ => choice inferInstance <|
      sequence fun _ => choice inferInstance <| sequence fun _ => choice inferInstance <|
      sequence fun _ => choice inferInstance <| sequence fun constant? => ?_
    cases constant? <;> infer_instance)

instance moreBodies (first : ObjectBody) : Parser.Orderly .loose (g.moreBodies first) :=
  .of_production (by delta Grammar.moreBodies id inferInstance; infer_instance)

instance amendments (base : Expr) : Parser.Orderly .loose (g.amendments base) :=
  .of_production (by delta Grammar.amendments id inferInstance; infer_instance)

instance dotAccess (target : Expr) : Parser.Orderly .loose (g.dotAccess target) :=
  .of_production (by delta Grammar.dotAccess id inferInstance; infer_instance)

instance nullSafeAccess (target : Expr) : Parser.Orderly .loose (g.nullSafeAccess target) :=
  .of_production (by delta Grammar.nullSafeAccess id inferInstance; infer_instance)

instance bracketAccess (target : Expr) : Parser.Orderly .loose (g.bracketAccess target) :=
  .of_production (by delta Grammar.bracketAccess id inferInstance; infer_instance)

instance postfixStep (target : Expr) : Parser.Orderly .loose (g.postfixStep target) :=
  .of_production (by delta Grammar.postfixStep id inferInstance; infer_instance)

instance typeTestStep (expr : Expr) : Parser.Orderly .loose (g.typeTestStep expr) :=
  .of_production (by delta Grammar.typeTestStep id inferInstance; infer_instance)

instance prefixStep (operators : List (UnaryOperator × Nat)) :
    Parser.Orderly .loose (Grammar.prefixStep operators) :=
  .of_production (by delta Grammar.prefixStep id inferInstance; infer_instance)

instance operand : Parser.Orderly .loose g.operand :=
  .of_production (by delta Grammar.operand id inferInstance; infer_instance)

instance firstOperator? (ops : List BinaryOperator) :
    Parser.Orderly .loose (Grammar.firstOperator? ops) := by
  induction ops with
  | nil => exact Parser.Orderly.pure _
  | cons op ops ih => exact bind

instance infixOperator? (left : Expr) : Parser.Orderly .loose (Grammar.infixOperator? left) :=
  .of_production (by
    delta Grammar.infixOperator? id inferInstance
    refine sequence fun _ => sequence fun op? => ?_
    rcases op? with _ | _ | _ <;> infer_instance)

instance infixSteps (first : Expr) : Parser.Orderly .loose (g.infixSteps first) :=
  .of_production (by
    delta Grammar.infixSteps id inferInstance
    refine loop (fun _ => sequence fun op? => ?_) _
    cases op? <;> infer_instance)

instance expressionRule : Parser.Orderly .loose g.expressionRule :=
  .of_production (by delta Grammar.expressionRule id inferInstance; infer_instance)

/-! ### Declarations -/

instance annotationRule : Parser.Orderly .loose g.annotationRule :=
  .of_production (by delta Grammar.annotationRule id inferInstance; infer_instance)

instance annotationRules : Parser.Orderly .loose g.annotationRules :=
  .of_production (by delta Grammar.annotationRules id inferInstance; infer_instance)

instance preamble : Parser.Orderly .loose g.preamble :=
  .of_production (by delta Grammar.preamble id inferInstance; infer_instance)

instance typeParameter : Parser.Orderly .loose g.typeParameter :=
  .of_production (by delta Grammar.typeParameter id inferInstance; infer_instance)

instance typeParameters (stop : Int) : Parser.Orderly .loose (g.typeParameters stop) :=
  .of_production (by
    delta Grammar.typeParameters id inferInstance
    refine sequence fun opening? => ?_
    cases opening? with
    | none => infer_instance
    | some opening =>
      refine sequence fun close? => ?_
      cases close? <;> infer_instance)

instance objectForm : Parser.Orderly .loose g.objectForm :=
  .of_production (by delta Grammar.objectForm id inferInstance; infer_instance)

instance propertyForm (name : Identifier) : Parser.Orderly .loose (g.propertyForm name) :=
  .of_production (by
    delta Grammar.propertyForm id inferInstance
    refine sequence fun _ => choice inferInstance (sequence fun _ =>
      choice (sequence fun type? => ?_) (sequence fun type? => ?_))
    all_goals
      refine sequence fun _ => choice inferInstance ?_
      cases type? <;> infer_instance)

instance propertyRule (before : Preamble) : Parser.Orderly .loose (g.propertyRule before) :=
  .of_production (by delta Grammar.propertyRule id inferInstance; infer_instance)

instance functionRule (before : Preamble) : Parser.Orderly .loose (g.functionRule before) :=
  .of_production (by delta Grammar.functionRule id inferInstance; infer_instance)

instance classMember : Parser.Orderly .loose g.classMember :=
  .of_production (by delta Grammar.classMember id inferInstance; infer_instance)

instance skipMember (start : Nat) : Parser.Orderly .loose (Grammar.skipMember start) :=
  .of_runs fun ctx s _ => .look theText_looks (.look position_looks (.moveTo fun hs => by
    have hkept : Kept ctx.text s { s with pos := memberResume ctx.text start s.pos } :=
      kept_memberResume start
    have hle := hkept.pos_le
    rw [Nat.min_eq_left hs.pos_le] at hle
    exact ⟨hle, hkept.pos_le_size hs.pos_le⟩))

instance classRound (opening : Span) (members : Array ClassMember) :
    Parser.Orderly .loose (g.classRound opening members) := by
  delta Grammar.classRound classRound.scripted id inferInstance
  refine sequence fun _ => sequence fun _ => choice (.of_all fun _ _ => .failWith)
    (sequence fun _ => choice inferInstance (sequence fun start => sequence fun member? => ?_))
  cases member? <;> infer_instance

instance classBody : Parser.Orderly .loose g.classBody :=
  .of_production (inferInstanceAs (Parser.Orderly .loose (do
    let opening ← expect "\x7b"
    let members ← repeating (g.classRound opening) #[]
    return (members.toList, ← position) : Parser (List ClassMember × Int))))

instance classRule (before : Preamble) : Parser.Orderly .loose (g.classRule before) :=
  .of_production (by delta Grammar.classRule id inferInstance; infer_instance)

instance moduleClauseRule (before : Preamble) :
    Parser.Orderly .loose (Grammar.moduleClauseRule before) :=
  .of_production (by delta Grammar.moduleClauseRule id inferInstance; infer_instance)

instance importRule (before : Preamble) : Parser.Orderly .loose (g.importRule before) :=
  .of_production (by delta Grammar.importRule id inferInstance; infer_instance)

instance extendsRule (before : Preamble) : Parser.Orderly .loose (g.extendsRule before) :=
  .of_production (by delta Grammar.extendsRule id inferInstance; infer_instance)

instance amendsRule (before : Preamble) : Parser.Orderly .loose (g.amendsRule before) :=
  .of_production (by delta Grammar.amendsRule id inferInstance; infer_instance)

instance typeAliasRule (before : Preamble) : Parser.Orderly .loose (g.typeAliasRule before) :=
  .of_production (by delta Grammar.typeAliasRule id inferInstance; infer_instance)

instance failDeclaration : Parser.Orderly .loose Grammar.failDeclaration :=
  .of_production (by delta Grammar.failDeclaration id inferInstance; infer_instance)

instance declarationRule : Parser.Orderly .loose g.declarationRule :=
  .of_production (by delta Grammar.declarationRule id inferInstance; infer_instance)

/-! ### Object bodies -/

instance entryValue : Parser.Orderly .loose g.entryValue :=
  .of_production (by delta Grammar.entryValue id inferInstance; infer_instance)

instance mappingEntry : Parser.Orderly .loose g.mappingEntry :=
  .of_production (by delta Grammar.mappingEntry id inferInstance; infer_instance)

instance predicateEntry : Parser.Orderly .loose g.predicateEntry :=
  .of_production (by delta Grammar.predicateEntry id inferInstance; infer_instance)

instance spread : Parser.Orderly .loose g.spread :=
  .of_production (by delta Grammar.spread id inferInstance; infer_instance)

instance fieldAmend : Parser.Orderly .loose g.fieldAmend :=
  .of_production (by delta Grammar.fieldAmend id inferInstance; infer_instance)

instance whenGenerator : Parser.Orderly .loose g.whenGenerator :=
  .of_production (by delta Grammar.whenGenerator id inferInstance; infer_instance)

instance loopNames : Parser.Orderly .loose Grammar.loopNames :=
  .of_production (by delta Grammar.loopNames id inferInstance; infer_instance)

instance forGenerator : Parser.Orderly .loose g.forGenerator :=
  .of_production (by delta Grammar.forGenerator id inferInstance; infer_instance)

instance propertyMember? : Parser.Orderly .loose g.propertyMember? := by
  refine .of_runs fun ctx s hmode => .of_orderly fun hs => .mark (.after hmode
    fun before s₁ h₁ hmode₁ => .look (atWord_looks _) (.ite (fun _ => .of_mode hmode₁)
      fun _ => .after hmode₁ fun head s₂ h₂ hmode₂ => .ite (fun _ => .of_mode hmode₂)
        fun _ => .rewind hs ?_ (.pure none)))
  exact ((Orderly.grows ctx : g.Grows ctx).preamble.of_ok h₁).1.toKept.trans
    (atPropertyHead_grows.of_ok h₂).1.toKept

instance namedMember : Parser.Orderly .loose g.namedMember :=
  .of_production (by
    delta Grammar.namedMember id inferInstance
    refine sequence fun member? => ?_
    cases member? <;> infer_instance)

instance objectMember : Parser.Orderly .loose g.objectMember :=
  .of_production (by delta Grammar.objectMember id inferInstance; infer_instance)

instance objectMembers (opening : Span) : Parser.Orderly .loose (g.objectMembers opening) :=
  .of_production (by delta Grammar.objectMembers id inferInstance; infer_instance)

instance bodyRule : Parser.Orderly .loose g.bodyRule :=
  .of_production (by delta Grammar.bodyRule id inferInstance; infer_instance)

/-! ### Nesting -/

/-- All runs of the grammars of all depths are orderly. The induction is on the depth. -/
instance nested (depth : Nat) : (nested depth).Orderly := by
  induction depth with
  | zero => exact ⟨fun ctx => grows_nested ctx 0, throw _, throw _, throw _⟩
  | succ depth ih =>
    exact ⟨fun ctx => grows_nested ctx (depth + 1), expressionRule, typeRule, bodyRule⟩

instance full : full.Orderly := nested nestingLimit

end Orderly

end Grammar

namespace Parser

open PklSyntax.Grammar

/-! ### The module -/

/-- A declaration that is given up has lost nothing of what was there before. -/
theorem kept_of_outcome {ctx : Context} {s s' : State} {stop : Stop}
    (h : Parser.outcome full.declarationRule ctx s = .ok (.error stop) s') :
    Kept ctx.text s s' := by
  rw [Parser.outcome] at h
  cases hrun : full.declarationRule ctx s with
  | ok =>
    rw [hrun] at h
    cases h
  | error =>
    rw [hrun] at h
    cases h
    exact (grows_full ctx).declaration_of_error hrun

namespace Orderly

instance skipDeclaration (start : Nat) : Orderly .loose (skipDeclaration start) := by
  have hmove {ctx : Context} {s : State} :
      OrderlyFrom (moveTo (declarationRestart ctx.text s.pos)) ctx s :=
    .moveTo fun hs => (declarationRestart_spec s.pos).imp_right fun h => h hs.pos_le
  exact .of_runs fun _ _ _ => .look position_looks (.ite
    (fun _ => .after rfl fun _ _ _ _ => .look theText_looks (.look position_looks hmove))
    fun _ => .look theText_looks (.look position_looks hmove))

instance nextDeclaration (progress : Progress) : Orderly .loose (nextDeclaration progress) := by
  refine .of_runs fun ctx s hmode => .of_orderly fun hs => .look position_looks (.mark
    (.after hmode fun result s₁ h₁ hmode₁ => ?_))
  rcases result with (_ | _ | _) | decl
  case error.stalled => exact .throw .stalled
  case ok => exact .of_mode hmode₁
  all_goals
    exact .bind (.release hs (kept_of_outcome h₁)) fun _ _ _ hmode₂ =>
      .of_mode (hmode₂.trans hmode₁)

instance declarations : Orderly .loose declarations :=
  .of_production (by delta Parser.declarations id inferInstance; infer_instance)

instance reportOrphans : Orderly .loose reportOrphans :=
  .of_production (by delta Parser.reportOrphans id inferInstance; infer_instance)

instance moduleDeclarations : Orderly .loose moduleDeclarations :=
  .of_production (by delta Parser.moduleDeclarations id inferInstance; infer_instance)

end Orderly

end Parser

/-! ### All moments -/

/-- The moments that the reading of a text passes through. -/
def parseCourse (text : String) (options : Options) : List Moment :=
  Parser.course Parser.moduleDeclarations ⟨text.toList.toArray, options⟩ {}

/-- In every moment of a parse the cursor stands in the text, with the last trivia in front of it;
no doc comment is taken or begins a run that is not there; and the doc comments stand in the text,
each at its mark, one behind the other and in front of the cursor. Every production ends in the mode
in which it began, whether it has a result or stops, and this is loose mode for all productions but
those of tokens and literals. -/
theorem parseCourse_orderly (text : String) (options : Options) (moment : Moment)
    (h : moment ∈ parseCourse text options) : moment.Orderly text.toList.toArray :=
  Parser.Orderly.moduleDeclarations.orderlyFrom _ {} rfl (.initial _) moment h

/-- A lambda is tried at the parenthesis and given up, with an error on record that is dropped again
when reading goes on from there. -/
theorem parseCourse_orderly_lambda :
    ∃ moment ∈ parseCourse "///d\nx=(1)" {}, moment.state.attached = [0] ∧
      moment.state.diagnostics.size = 1 ∧ moment.Orderly "///d\nx=(1)".toList.toArray := by
  have htried : (parseCourse "///d\nx=(1)" {}).any (fun moment =>
      moment.state.attached = [0] && moment.state.diagnostics.size = 1) = true := by
    decide +kernel
  obtain ⟨moment, hmem, hstate⟩ := List.any_eq_true.1 htried
  rw [Bool.and_eq_true, decide_eq_true_eq, decide_eq_true_eq] at hstate
  exact ⟨moment, hmem, hstate.1, hstate.2, parseCourse_orderly _ _ moment hmem⟩

end PklSyntax
