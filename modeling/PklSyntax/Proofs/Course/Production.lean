import PklSyntax.Proofs.Course.Script
import PklSyntax.Proofs.Growth.ClassBody

/-!
# The scripts of the productions

Every production has a script, which is found along its definition. The ways in which parsers are
put together have been dealt with apart, so that what is left is to name what each production reads,
and to follow the cases where a production goes on by what it has found. Expressions, types and
object bodies nest, and their scripts are built up with the grammars of all depths.

## Main definitions

* `Grammar.Scripted`: a grammar whose parsers have scripts.
* `Grammar.nested.scripted`: the scripts of the grammars of all depths.
* `Parser.moduleDeclarations.scripted`: the script by which a text is read.
-/

namespace PklSyntax

-- The script of a long production is a large term.
set_option synthInstance.maxSize 4000

namespace Parser

variable {α β σ : Type}

/-! ### Looking -/

section Looks

instance theText.scripted : Scripted theText := by delta theText; infer_instance

instance theOptions.scripted : Scripted theOptions := by delta theOptions; infer_instance

instance position.scripted : Scripted position := by delta position; infer_instance

instance peekAt.scripted (offset : Nat) : Scripted (peekAt offset) := by
  delta peekAt; infer_instance

instance peek.scripted : Scripted peek := by delta peek; infer_instance

instance atEnd.scripted : Scripted atEnd := by delta atEnd; infer_instance

instance startsWith.scripted (word : String) : Scripted (startsWith word) := by
  delta startsWith; infer_instance

instance atWord.scripted (word : String) : Scripted (atWord word) := by
  delta atWord; infer_instance

instance wordEnd.scripted : Scripted wordEnd := by delta wordEnd; infer_instance

instance slice.scripted (start stop : Nat) : Scripted (slice start stop) := by
  delta slice; infer_instance

instance sliceFrom.scripted (start : Nat) : Scripted (sliceFrom start) := by
  delta sliceFrom; infer_instance

instance peekWord.scripted : Scripted peekWord := by delta peekWord; infer_instance

instance newlineSince.scripted (span : Span) : Scripted (newlineSince span) := by
  delta newlineSince; infer_instance

instance spanFrom.scripted (start : Nat) : Scripted (spanFrom start) := by
  delta spanFrom; infer_instance

instance limitReached.scripted : Scripted limitReached := by delta limitReached; infer_instance

instance mark.scripted : Scripted mark := by delta mark; infer_instance

instance here.scripted : Scripted here := by delta here; infer_instance

instance describeCurrent.scripted : Scripted describeCurrent := by
  delta describeCurrent; infer_instance

instance atIdentifier.scripted : Scripted atIdentifier := by delta atIdentifier; infer_instance

instance atPathStep.scripted : Scripted atPathStep := by delta atPathStep; infer_instance

instance atNumber.scripted : Scripted atNumber := by delta atNumber; infer_instance

instance atExponent.scripted : Scripted atExponent := by delta atExponent; infer_instance

instance atString.scripted : Scripted atString := by delta atString; infer_instance

instance poundsAt.scripted (quotes : Quotes) (i : Nat) : Scripted (poundsAt quotes i) := by
  delta poundsAt; infer_instance

instance closingLine?.scripted (quotes : Quotes) : Scripted (closingLine? quotes) := by
  delta closingLine?; infer_instance

instance flush.scripted (body : StringBody) : Scripted (flush body) := by
  delta flush; infer_instance

instance finishString.scripted (quotes : Quotes) (contentStart contentStop : Nat)
    (segments : Array Segment) (indent : Option String) :
    Scripted (finishString quotes contentStart contentStop segments indent) := by
  delta finishString; infer_instance

instance firstModifier?.scripted : ∀ ms : List Modifier, Scripted (firstModifier? ms)
  | [] => pure.scripted none
  | _ :: ms => .bind fun _ => .ite inferInstance (firstModifier?.scripted ms)

end Looks

/-! ### Tokens and names -/

section Tokens

instance advance.scripted (n : Nat) : Scripted (advance n) :=
  .production .token (by delta advance; infer_instance)

instance report.scripted (problem : Problem) (span : Span) : Scripted (report problem span) := by
  delta report; infer_instance

instance failWith.scripted (problem : Problem) (span : Span) :
    Scripted (failWith problem span : Parser α) := by
  delta failWith; infer_instance

instance repeating.scripted (step : σ → Parser (Round σ β)) [∀ value, Scripted (step value)]
    (value : σ) : Scripted (repeating step value) := by
  delta repeating; infer_instance

instance failExpected.scripted (what : String) : Scripted (failExpected what : Parser α) :=
  .production .token (by delta failExpected; infer_instance)

instance atToken.scripted (token : String) : Scripted (atToken token) :=
  .production .token (by delta atToken; infer_instance)

instance atKeyword.scripted (word : String) : Scripted (atKeyword word) :=
  .production .token (by delta atKeyword; infer_instance)

instance atAssign.scripted : Scripted atAssign :=
  .production .token (by delta atAssign; infer_instance)

instance takeToken.scripted (length : Nat) : Scripted (takeToken length) :=
  .production .token (by delta takeToken; infer_instance)

instance accept?.scripted (token : String) : Scripted (accept? token) :=
  .production .token (by delta accept?; infer_instance)

instance accept.scripted (token : String) : Scripted (accept token) :=
  .production .token (by delta accept; infer_instance)

instance acceptKeyword.scripted (word : String) : Scripted (acceptKeyword word) :=
  .production .token (by delta acceptKeyword; infer_instance)

instance expect.scripted (token : String) : Scripted (expect token) :=
  .production .token (by
    delta expect
    refine .bind fun span? => ?_
    cases span? <;> infer_instance)

instance expectKeyword.scripted (word : String) : Scripted (expectKeyword word) :=
  .production .token (by delta expectKeyword; infer_instance)

instance commaList.scripted (close : String) (item : Parser α) [Scripted item] :
    Scripted (commaList close item) :=
  .production .token (by delta commaList; infer_instance)

instance quotedIdentifier.scripted : Scripted quotedIdentifier :=
  .production .token (by delta quotedIdentifier; infer_instance)

instance identifier?.scripted : Scripted identifier? :=
  .production .token (by delta identifier?; infer_instance)

instance identifier.scripted (what : String) : Scripted (identifier what) :=
  .production .token (by
    delta identifier
    refine .bind fun name? => ?_
    cases name? <;> infer_instance)

instance expectName.scripted (what : String) : Scripted (expectName what) :=
  .production .token (by delta expectName; infer_instance)

instance qualifiedName.scripted (what : String) : Scripted (qualifiedName what) :=
  .production .token (by delta qualifiedName; infer_instance)

end Tokens

/-! ### Literals -/

section Literals

instance digits.scripted (base : IntBase) : Scripted (digits base) :=
  .production .literal (by
    delta digits
    exact .bind fun _ => .bind fun _ => .bind fun _ => .bind fun run =>
      match misplacedUnderscore? run with
      | some (_, _) => inferInstance
      | none => inferInstance)

instance endOfNumber.scripted (start : Nat) : Scripted (endOfNumber start) :=
  .production .literal (by delta endOfNumber; infer_instance)

instance basedNumber.scripted (start : Nat) (base : IntBase) : Scripted (basedNumber start base) :=
  .production .literal (by delta basedNumber; dsimp only; infer_instance)

instance fraction.scripted : Scripted fraction :=
  .production .literal (by delta fraction; infer_instance)

instance exponent.scripted : Scripted exponent :=
  .production .literal (by delta exponent; infer_instance)

instance decimalNumber.scripted (start : Nat) (styleWarnings : Bool) :
    Scripted (decimalNumber start styleWarnings) :=
  .production .literal (by delta decimalNumber; dsimp only; infer_instance)

instance floatWord.scripted (start : Nat) (word : String) : Scripted (floatWord start word) :=
  .production .literal (by delta floatWord; infer_instance)

instance number.scripted (styleWarnings : Bool) : Scripted (number styleWarnings) :=
  .production .literal (by
    delta number
    exact @inMode.scripted _ _ _ (.bind fun _ => .bind fun _ => .ite inferInstance
      (.bind fun _ => .ite inferInstance (.bind fun first => .bind fun letter =>
        match first == '0', IntBase.ofLetter? letter with
        | true, some _ => inferInstance
        | true, none => inferInstance
        | false, _ => inferInstance))))

instance unicodeEscape.scripted (quotes : Quotes) (start : Nat) :
    Scripted (unicodeEscape quotes start) :=
  .production .literal (by
    delta unicodeEscape
    dsimp only
    -- What stands behind a failed check is a part of the text on either way.
    refine .bind fun _ => .ite (.bind fun _ => .bind fun _ => ?_) ?_
    all_goals
      refine .bind fun _ => .bind fun _ => .bind fun _ => .bind fun _ => .bind fun run =>
        .bind fun _ => .ite (.bind fun _ => .bind fun _ => ?_) ?_
      all_goals
        exact .bind fun _ => match scalar? (digitsValue 16 run.toList) with
          | some _ => inferInstance
          | none => inferInstance)

variable (interpolate : Parser Expr) [Scripted interpolate]

instance interpolation.scripted : Scripted (interpolation interpolate) :=
  .production .literal (by delta interpolation; infer_instance)

instance escapeSequence.scripted (quotes : Quotes) :
    Scripted (escapeSequence quotes interpolate) :=
  .production .literal (by
    delta escapeSequence
    exact .bind fun _ => .bind fun _ => .bind fun c => match shortEscape? c with
      | some _ => inferInstance
      | none => inferInstance)

instance stringStep.scripted (quotes : Quotes) (contentStart : Nat) (body : StringBody) :
    Scripted (stringStep quotes contentStart interpolate body) :=
  .production .literal (by
    delta stringStep
    refine .bind fun probe? => ?_
    cases probe? <;> infer_instance)

instance openingLine.scripted (opening : Span) (styleWarnings : Bool) :
    Scripted (openingLine opening styleWarnings) :=
  .production .literal (by delta openingLine; infer_instance)

instance stringLiteral.scripted (styleWarnings : Bool) :
    Scripted (stringLiteral interpolate styleWarnings) :=
  .production .literal (by delta stringLiteral; dsimp only; infer_instance)

end Literals

/-! ### In front of declarations and members -/

section Heads

instance modifiers.scripted : Scripted modifiers :=
  .production .declaration (by
    delta modifiers
    refine @repeating.scripted _ _ _ (fun _ => .bind fun _ => .bind fun modifier? => ?_) _
    cases modifier? <;> infer_instance)

instance variance.scripted : Scripted variance :=
  .production .declaration (by delta variance; infer_instance)

instance propertyName?.scripted : Scripted propertyName? :=
  .production .object (by delta propertyName?; infer_instance)

instance atPropertyHead.scripted : Scripted atPropertyHead :=
  .production .object (by
    delta atPropertyHead
    refine .bind fun _ => .bind fun name? => ?_
    cases name? <;> infer_instance)

instance atFieldAmend.scripted : Scripted atFieldAmend :=
  .production .object (by delta atFieldAmend; dsimp only; infer_instance)

end Heads

end Parser

/-! ### Grammars -/

namespace Grammar

open PklSyntax.Parser

/-- A grammar whose parsers have scripts. -/
class Scripted (g : Grammar) where
  expr : Parser.Scripted g.expr
  type : Parser.Scripted g.type
  body : Parser.Scripted g.body

variable (g : Grammar) [g.Scripted]

instance expr.scripted : Parser.Scripted g.expr := Scripted.expr

instance type.scripted : Parser.Scripted g.type := Scripted.type

instance body.scripted : Parser.Scripted g.body := Scripted.body

/-! ### Strings and types -/

instance string.scripted : Parser.Scripted g.string :=
  .production .literal (by delta Grammar.string; infer_instance)

instance sourceString.scripted (keyword : String) : Parser.Scripted (g.sourceString keyword) :=
  .production .declaration (by delta sourceString; dsimp only; infer_instance)

instance typeArguments.scripted (base : NamedType) : Parser.Scripted (g.typeArguments base) :=
  .production .type (by delta typeArguments; infer_instance)

instance arrowResult?.scripted : Parser.Scripted g.arrowResult? :=
  .production .type (by delta arrowResult?; infer_instance)

instance parenthesizedType.scripted : Parser.Scripted g.parenthesizedType :=
  .production .type (by
    delta parenthesizedType
    refine .bind fun _ => .bind fun _ => .bind fun params => .bind fun _ => .bind fun result? => ?_
    cases result? with
    | some result => infer_instance
    | none => rcases params with _ | ⟨type, _ | ⟨other, others⟩⟩ <;> infer_instance)

instance stringType.scripted : Parser.Scripted g.stringType :=
  .production .type (by delta stringType; dsimp only; infer_instance)

instance typeAtom.scripted : Parser.Scripted g.typeAtom :=
  .production .type (by delta typeAtom; infer_instance)

instance constraints.scripted (base : TypeExpr) : Parser.Scripted (g.constraints base) :=
  .production .type (by delta constraints; infer_instance)

instance typeSuffix.scripted (base : TypeExpr) : Parser.Scripted (g.typeSuffix base) :=
  .production .type (by delta typeSuffix; infer_instance)

instance typeSegment.scripted : Parser.Scripted g.typeSegment :=
  .production .type (by delta typeSegment; dsimp only; infer_instance)

instance atUnionBar.scripted : Parser.Scripted atUnionBar :=
  .production .type (by delta atUnionBar; infer_instance)

instance typeRule.scripted : Parser.Scripted g.typeRule :=
  .production .type (by
    delta typeRule
    exact .bind fun _ => .bind fun _ => .bind fun _ => .bind fun members =>
      match members.toList with
      | [] => inferInstance
      | [_] => inferInstance
      | _ :: _ :: _ => inferInstance)

/-! ### Expressions -/

instance call.scripted (callee : Identifier) (kind : CallKind) :
    Parser.Scripted (g.call callee kind) :=
  .production .expression (by delta Grammar.call; infer_instance)

instance member.scripted : Parser.Scripted g.member :=
  .production .expression (by delta Grammar.member; infer_instance)

instance param.scripted : Parser.Scripted g.param :=
  .production .expression (by delta Grammar.param; dsimp only; infer_instance)

instance params.scripted : Parser.Scripted g.params :=
  .production .expression (by delta Grammar.params; infer_instance)

instance lambda?.scripted : Parser.Scripted g.lambda? :=
  .production .expression (by
    delta lambda?
    refine .bind fun _ => .bind fun _ => .bind fun params? => ?_
    rcases params? with _ | ⟨params, _⟩ <;> infer_instance)

instance parenthesized.scripted : Parser.Scripted g.parenthesized :=
  .production .expression (by
    delta parenthesized
    refine .bind fun _ => .bind fun lambda? => ?_
    cases lambda? <;> infer_instance)

instance conditional.scripted : Parser.Scripted g.conditional :=
  .production .expression (by delta conditional; infer_instance)

instance letExpression.scripted : Parser.Scripted g.letExpression :=
  .production .expression (by delta letExpression; dsimp only; infer_instance)

instance newExpression.scripted : Parser.Scripted g.newExpression :=
  .production .expression (by delta newExpression; dsimp only; infer_instance)

instance readKind?.scripted : Parser.Scripted readKind? :=
  .production .expression (by delta readKind?; infer_instance)

instance nameExpression.scripted : Parser.Scripted g.nameExpression :=
  .production .expression (by delta nameExpression; dsimp only; infer_instance)

instance identifierExpression.scripted : Parser.Scripted g.identifierExpression :=
  .production .expression (by
    delta identifierExpression
    refine .bind fun kind? => ?_
    cases kind? <;> infer_instance)

instance constant?.scripted : Parser.Scripted constant? :=
  .production .expression (by delta constant?; infer_instance)

instance primary.scripted : Parser.Scripted g.primary :=
  .production .expression (by
    delta primary
    refine .bind fun _ => .bind fun _ => .ite inferInstance <| .bind fun _ => .ite inferInstance <|
      .bind fun _ => .ite inferInstance <| .bind fun _ => .ite inferInstance <|
      .bind fun _ => .ite inferInstance <| .bind fun _ => .ite inferInstance <|
      .bind fun constant? => ?_
    cases constant? <;> infer_instance)

instance moreBodies.scripted (first : ObjectBody) : Parser.Scripted (g.moreBodies first) :=
  .production .object (by delta moreBodies; infer_instance)

instance amendments.scripted (base : Expr) : Parser.Scripted (g.amendments base) :=
  .production .expression (by delta amendments; infer_instance)

instance dotAccess.scripted (target : Expr) : Parser.Scripted (g.dotAccess target) :=
  .production .expression (by delta dotAccess; infer_instance)

instance nullSafeAccess.scripted (target : Expr) : Parser.Scripted (g.nullSafeAccess target) :=
  .production .expression (by delta nullSafeAccess; infer_instance)

instance bracketAccess.scripted (target : Expr) : Parser.Scripted (g.bracketAccess target) :=
  .production .expression (by delta bracketAccess; infer_instance)

instance postfixStep.scripted (target : Expr) : Parser.Scripted (g.postfixStep target) :=
  .production .expression (by delta postfixStep; infer_instance)

instance typeTestStep.scripted (expr : Expr) : Parser.Scripted (g.typeTestStep expr) :=
  .production .expression (by delta typeTestStep; infer_instance)

instance prefixStep.scripted (operators : List (UnaryOperator × Nat)) :
    Parser.Scripted (prefixStep operators) :=
  .production .expression (by delta prefixStep; infer_instance)

instance operand.scripted : Parser.Scripted g.operand :=
  .production .expression (by delta operand; infer_instance)

instance firstOperator?.scripted : ∀ ops : List BinaryOperator,
    Parser.Scripted (firstOperator? ops)
  | [] => pure.scripted none
  | _ :: ops => .bind fun _ => .ite inferInstance (firstOperator?.scripted ops)

instance infixOperator?.scripted (left : Expr) : Parser.Scripted (infixOperator? left) :=
  .production .expression (by
    delta infixOperator?
    refine .bind fun _ => .bind fun op? => ?_
    rcases op? with _ | _ | _ <;> infer_instance)

instance infixSteps.scripted (first : Expr) : Parser.Scripted (g.infixSteps first) :=
  .production .expression (by
    delta infixSteps
    refine @repeating.scripted _ _ _ (fun _ => .bind fun op? => ?_) _
    cases op? <;> infer_instance)

instance expressionRule.scripted : Parser.Scripted g.expressionRule :=
  .production .expression (by delta expressionRule; dsimp only; infer_instance)

/-! ### Declarations -/

instance annotationRule.scripted : Parser.Scripted g.annotationRule :=
  .production .declaration (by delta annotationRule; dsimp only; infer_instance)

instance annotationRules.scripted : Parser.Scripted g.annotationRules :=
  .production .declaration (by delta annotationRules; infer_instance)

instance preamble.scripted : Parser.Scripted g.preamble :=
  .production .declaration (by delta preamble; infer_instance)

instance typeParameter.scripted : Parser.Scripted g.typeParameter :=
  .production .declaration (by delta typeParameter; infer_instance)

instance typeParameters.scripted (stop : Int) : Parser.Scripted (g.typeParameters stop) :=
  .production .declaration (by
    delta typeParameters
    refine .bind fun opening? => ?_
    cases opening? with
    | none => infer_instance
    | some opening =>
      refine .bind fun close? => ?_
      cases close? <;> infer_instance)

instance objectForm.scripted : Parser.Scripted g.objectForm :=
  .production .object (by delta objectForm; infer_instance)

instance propertyForm.scripted (name : Identifier) : Parser.Scripted (g.propertyForm name) :=
  .production .declaration (by
    delta propertyForm
    dsimp only
    refine .bind fun _ => .ite inferInstance (.bind fun _ => .ite (.bind fun type? => ?_)
      (.bind fun type? => ?_))
    all_goals
      refine .bind fun _ => .ite inferInstance ?_
      cases type? <;> infer_instance)

instance propertyRule.scripted (before : Preamble) : Parser.Scripted (g.propertyRule before) :=
  .production .declaration (by delta propertyRule; infer_instance)

instance functionRule.scripted (before : Preamble) : Parser.Scripted (g.functionRule before) :=
  .production .declaration (by delta functionRule; dsimp only; infer_instance)

instance classMember.scripted : Parser.Scripted g.classMember :=
  .production .declaration (by delta classMember; infer_instance)

instance skipMember.scripted (start : Nat) : Parser.Scripted (skipMember start) :=
  .production .declaration (by delta skipMember; infer_instance)

instance classRound.scripted (opening : Span) (members : Array ClassMember) :
    Parser.Scripted (g.classRound opening members) := by
  delta classRound
  dsimp only
  refine .bind fun _ => .bind fun _ => .ite (.bind fun _ => ?_) ?_
  all_goals
    refine .bind fun _ => .ite inferInstance (.bind fun _ => .bind fun member? => ?_)
    cases member? <;> infer_instance

instance classBody.scripted : Parser.Scripted g.classBody :=
  .production .declaration (inferInstanceAs (Parser.Scripted (do
    let opening ← expect "\x7b"
    let members ← repeating (g.classRound opening) #[]
    return (members.toList, ← position) : Parser (List ClassMember × Int))))

instance classRule.scripted (before : Preamble) : Parser.Scripted (g.classRule before) :=
  .production .declaration (by delta classRule; dsimp only; infer_instance)

instance moduleClauseRule.scripted (before : Preamble) :
    Parser.Scripted (moduleClauseRule before) :=
  .production .declaration (by delta moduleClauseRule; infer_instance)

instance importRule.scripted (before : Preamble) : Parser.Scripted (g.importRule before) :=
  .production .declaration (by delta importRule; dsimp only; infer_instance)

instance extendsRule.scripted (before : Preamble) : Parser.Scripted (g.extendsRule before) :=
  .production .declaration (by delta extendsRule; infer_instance)

instance amendsRule.scripted (before : Preamble) : Parser.Scripted (g.amendsRule before) :=
  .production .declaration (by delta amendsRule; infer_instance)

instance typeAliasRule.scripted (before : Preamble) : Parser.Scripted (g.typeAliasRule before) :=
  .production .declaration (by delta typeAliasRule; infer_instance)

instance failDeclaration.scripted : Parser.Scripted failDeclaration :=
  .production .declaration (by delta failDeclaration; infer_instance)

instance declarationRule.scripted : Parser.Scripted g.declarationRule :=
  .production .declaration (by delta declarationRule; infer_instance)

/-! ### Object bodies -/

instance entryValue.scripted : Parser.Scripted g.entryValue :=
  .production .object (by delta entryValue; infer_instance)

instance mappingEntry.scripted : Parser.Scripted g.mappingEntry :=
  .production .object (by delta mappingEntry; infer_instance)

instance predicateEntry.scripted : Parser.Scripted g.predicateEntry :=
  .production .object (by delta predicateEntry; infer_instance)

instance spread.scripted : Parser.Scripted g.spread :=
  .production .object (by delta spread; dsimp only; infer_instance)

instance fieldAmend.scripted : Parser.Scripted g.fieldAmend :=
  .production .object (by delta fieldAmend; infer_instance)

instance whenGenerator.scripted : Parser.Scripted g.whenGenerator :=
  .production .object (by delta whenGenerator; dsimp only; infer_instance)

instance loopNames.scripted : Parser.Scripted loopNames :=
  .production .object (by delta loopNames; infer_instance)

instance forGenerator.scripted : Parser.Scripted g.forGenerator :=
  .production .object (by delta forGenerator; infer_instance)

instance propertyMember?.scripted : Parser.Scripted g.propertyMember? :=
  .production .object (by delta propertyMember?; infer_instance)

instance namedMember.scripted : Parser.Scripted g.namedMember :=
  .production .object (by
    delta namedMember
    refine .bind fun member? => ?_
    cases member? <;> infer_instance)

instance objectMember.scripted : Parser.Scripted g.objectMember :=
  .production .object (by delta objectMember; infer_instance)

instance objectMembers.scripted (opening : Span) : Parser.Scripted (g.objectMembers opening) :=
  .production .object (by delta objectMembers; infer_instance)

instance bodyRule.scripted : Parser.Scripted g.bodyRule :=
  .production .object (by delta bodyRule; infer_instance)

/-! ### Nesting -/

/-- The scripts of the grammars of all depths, by recursion on the depth. -/
instance nested.scripted : ∀ depth, (nested depth).Scripted
  | 0 => ⟨throw.scripted .tooDeep, throw.scripted .tooDeep, throw.scripted .tooDeep⟩
  | depth + 1 =>
    have := nested.scripted depth
    ⟨expressionRule.scripted _, typeRule.scripted _, bodyRule.scripted _⟩

instance full.scripted : full.Scripted := nested.scripted nestingLimit

end Grammar

namespace Parser

/-! ### The module -/

instance skipDeclaration.scripted (start : Nat) : Scripted (skipDeclaration start) :=
  .production .module (by delta skipDeclaration; dsimp only; infer_instance)

instance nextDeclaration.scripted (progress : Progress) : Scripted (nextDeclaration progress) :=
  .production .module (by
    delta nextDeclaration
    dsimp only
    refine .bind fun start => .bind fun before => .bind fun result => ?_
    rcases result with (_ | _ | _) | decl <;> infer_instance)

instance declarations.scripted : Scripted declarations :=
  .production .module (by delta declarations; infer_instance)

instance reportOrphans.scripted : Scripted reportOrphans :=
  .production .module (by delta reportOrphans; infer_instance)

instance moduleDeclarations.scripted : Scripted moduleDeclarations :=
  .production .module (by delta moduleDeclarations; infer_instance)

end Parser

end PklSyntax
