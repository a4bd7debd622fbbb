import PklSyntax.Proofs.Growth.ClassBody
import PklSyntax.Proofs.Layout.Expression
import PklSyntax.Proofs.Tally.Token

/-!
# The tally of productions

A production takes the doc comments of the tree that it makes, when those do that are read inside.
Where a tree is put together otherwise than it was read, as the operands of a formula or the members
of a union, it still holds the same doc comments; and an empty list of arguments, the source of an
imported module and a literal with a unit hold none, so that nothing is lost with them.

## Main definitions

* `Grammar.Tallies`: a grammar whose parsers take the doc comments of their results.

## Main statements

* `held_groupInfix`, `held_amend`: formulas and amended expressions hold what their parts hold.
* `Grammar.Tallies.typeRule`, `Grammar.Tallies.expressionRule`, `Grammar.Tallies.bodyRule`.
* `Grammar.Tallies.nested`: the grammars of all depths.
-/

namespace PklSyntax

open HoldsDocs (held)

-- The proof for a long production is a large term.
set_option synthInstance.maxSize 4000

attribute [local simp] Node.children Node.fields Expr.fields TypeExpr.fields Call.fields
  Access.fields Param.fields ObjectBody.fields ObjectForm.fields PropertyForm.fields
  ObjectMember.fields TypeParameter.fields Annotation.fields PropertyDecl.fields
  FunctionDecl.fields ClassDecl.fields TypeAliasDecl.fields ModuleClause.fields ImportDecl.fields
  NumberLiteral.fields Identifier.fields NamedType.fields StringLiteral.fields
  documentationFields add_assoc add_comm add_left_comm

/-! ### Trees that are put together otherwise than they were read -/

/-- A string without interpolation holds no doc comment. -/
theorem held_of_isConstant {literal : StringLiteral} (h : literal.isConstant = true) :
    held literal = 0 := by
  rw [StringLiteral.isConstant, List.all_eq_true] at h
  have hsegments : held literal.segments = 0 := held_eq_zero fun segment hsegment => by
    have hconstant := h segment hsegment
    cases segment with
    | text => exact Parser.Tallies.held_text _ _
    | escape => exact Parser.Tallies.held_escape _ _
    | interpolation => cases hconstant
  exact (held_eq rfl).trans (by simpa using hsegments)

theorem held_exprCall (c : Call) : held (Expr.call c) = held c := held_congr rfl rfl rfl

theorem held_exprNumber (literal : NumberLiteral) : held (Expr.number literal) = 0 :=
  (held_congr (n := .expr (.number literal)) (m := .number literal) rfl rfl rfl).trans
    (held_number literal)

theorem held_exprString (literal : StringLiteral) : held (Expr.string literal) = held literal :=
  held_congr rfl rfl rfl

theorem held_withSpan (type : TypeExpr) (span : Span) : held (type.withSpan span) = held type :=
  held_congr rfl rfl (by rw [Node.children, Grammar.fields_withSpan, Node.children])

theorem held_union (members : List TypeExpr) (span : Span) :
    held (TypeExpr.union members span) = held members :=
  (held_eq rfl).trans (by simp)

theorem held_flatMap_unionMembers (types : List TypeExpr) :
    held (types.flatMap Grammar.unionMembers) = held types := by
  induction types with
  | nil => rfl
  | cons type types ih =>
    rw [List.flatMap_cons, held_append, held_cons, ih]
    cases type with
    | union members span => exact congrArg (· + _) (held_union members span).symm
    | named | generic | constrained | nullable | default | function | stringLiteral =>
      simp [Grammar.unionMembers]

theorem held_amend (base : Expr) (first : ObjectBody) (others : List ObjectBody) (span : Span) :
    held (Grammar.amend base first others span) = held base + held (first :: others) := by
  have hparen (inner : Expr) (span : Span) : held (Expr.paren inner span) = held inner :=
    (held_eq rfl).trans (by simp)
  have hamend (inner : Expr) (span : Span) : held (Expr.amend inner first span) =
      held inner + held first :=
    (held_eq rfl).trans (by simp)
  have hamended (base : Expr) (layers : List ObjectBody) : held (Expr.amended base layers span) =
      held base + held layers :=
    (held_eq rfl).trans (by simp)
  unfold Grammar.amend
  split
  · simp [hparen, hamend]
  · simp [hparen, hamend, hamended]
  · simp [hamended]

theorem held_applyPrefixes (operators : List (UnaryOperator × Nat)) (operand : Expr) :
    held (Grammar.applyPrefixes operators operand) = held operand := by
  rw [Grammar.applyPrefixes]
  induction operators generalizing operand with
  | nil => rfl
  | cons operator operators ih =>
    rw [List.foldl_cons, ih]
    exact (held_eq rfl).trans (by simp)

/-- Climbing only puts the operands together. -/
theorem held_climb (least : Nat) (left : Expr) (steps : List InfixStep) :
    held (climb least left steps).tree + held (climb least left steps).rest =
      held left + held steps := by
  fun_induction climb least left steps with
  | case1 least left => rfl
  | case2 least left step tail => rfl
  | case3 least left step tail hge right rest hle hright whole rest' hle' hwhole ih₁ ih₂ =>
    rw [hright] at ih₁
    rw [hwhole] at ih₂
    have hcombine : held (left.combine step.op right) = held left + held right :=
      (held_eq rfl).trans (by simp [Expr.combine])
    have hstep : held step = held step.operand := rfl
    dsimp only at ih₁ ih₂
    calc held whole + held rest' = held left + (held right + held rest) := by
          rw [ih₂, hcombine, add_assoc]
      _ = held left + held (step :: tail) := by rw [ih₁, held_cons, hstep]

theorem held_groupInfix (first : Expr) (steps : List InfixStep) :
    held (groupInfix first steps) = held first + held steps := by
  have h := held_climb 0 first steps
  rwa [climb_zero_rest, held_nil, add_zero] at h

theorem held_preamble (before : Preamble) :
    held before = held before.doc + held before.annotations := rfl

/-- The parsers of the grammar take the doc comments of their results. -/
class Grammar.Tallies (g : Grammar) : Prop where
  grows : ∀ ctx, g.Grows ctx
  expr : Parser.Tallies g.expr 0
  type : Parser.Tallies g.type 0
  body : Parser.Tallies g.body 0

namespace Parser.Spares

instance modifiers : Spares modifiers := by
  delta Parser.modifiers
  refine loop (fun _ => sequence fun _ => sequence fun modifier? => ?_) _
  cases modifier? <;> infer_instance

instance variance : Spares variance := by delta Parser.variance; infer_instance

/-- Looking ahead changes nothing. -/
theorem of_grows {α : Type} {p : Parser α} (h : ∀ ctx s, p.Grows ctx s fun _ s' => s' = s) :
    Spares p where
  spared {ctx s a s'} hrun := by
    obtain ⟨-, rfl⟩ := (h ctx s).of_ok hrun
    exact .refl _

instance atPropertyHead : Spares atPropertyHead := of_grows fun _ _ => atPropertyHead_grows

instance atFieldAmend : Spares atFieldAmend :=
  of_grows fun _ _ => .mono atFieldAmend_grows fun _ _ _ h => h.1

end Parser.Spares

namespace Grammar

open PklSyntax.Parser PklSyntax.Parser.Tallies

namespace Tallies

variable {g : Grammar} [g.Tallies] {ctx : Context} {s : State}

attribute [instance] Tallies.expr Tallies.type Tallies.body

/-! ### Strings and types -/

instance string : Parser.Tallies g.string 0 := by
  delta Grammar.string
  exact keep fun _ => inferInstance

instance sourceString (keyword : String) : Parser.Tallies (g.sourceString keyword) 0 :=
  keep fun _ => keep fun _ => choice (of_leaves fun _ _ => .never failExpected_leaves) <|
    hand fun _ => choice failed (pure rfl)

omit [g.Tallies] in
theorem sourceString_gives (keyword : String) :
    (g.sourceString keyword).Gives fun literal => literal.isConstant = true :=
  .after fun _ => .after fun _ => .guard failExpected_gives fun _ => .after fun _ =>
    .guard failWith_gives fun h => .pure (by simpa using h)

/-- An empty list of arguments holds nothing. -/
instance typeArguments (base : NamedType) : Parser.Tallies (g.typeArguments base) 0 :=
  keep fun _ => hand fun args => keep fun _ => ite
    (fun hempty => keep fun _ => pure ((held_eq rfl).trans (by simp_all)))
    fun _ => pure ((held_eq rfl).trans (by simp))

instance arrowResult? : Parser.Tallies g.arrowResult? 0 :=
  ⟨fun hs => .look mark_looks (Settles.keep hs fun _ _ h₁ hs₁ => .look (startsWith_looks "->")
    (.ite (fun _ => Settles.of_tallies (keep fun _ => hand fun type => pure (held_some type)) hs₁)
      fun _ => .rewind (skip_grows.of_ok h₁).1.toKept.rewind trivial (.pure hs)))⟩

instance parenthesizedType : Parser.Tallies g.parenthesizedType 0 := by
  refine keep fun _ => keep fun _ => hand fun params => keep fun _ => take fun result? => ?_
  cases result? with
  | some result => exact pure ((held_eq rfl).trans (by simp))
  | none =>
    rcases params with _ | ⟨type, _ | ⟨other, others⟩⟩
    · exact failExpected
    · exact pure ((held_withSpan _ _).trans (by simp))
    · exact failExpected

instance stringType : Parser.Tallies g.stringType 0 :=
  hand fun literal => choice failed (pure ((held_eq rfl).trans (by simp)))

instance typeAtom : Parser.Tallies g.typeAtom 0 :=
  keep fun _ => choice inferInstance <| keep fun _ => choice inferInstance <| keep fun _ =>
    choice (keep fun name => keep fun _ => choice inferInstance
      (pure ((held_eq rfl).trans (by simp)))) failExpected

instance constraints (base : TypeExpr) : Parser.Tallies (g.constraints base) (held base) :=
  keep fun _ => take fun first => pay (h := collect first) fun predicates => keep fun _ =>
    pure ((held_eq rfl).trans (by simp))

instance typeSuffix (base : TypeExpr) : Parser.Tallies (g.typeSuffix base) (held base) :=
  keep fun _ => keep fun _ => choice
    (keep fun _ => keep fun _ => pure ((held_eq rfl).trans (by simp))) <|
    choice (hand fun _ => pure rfl) (pure rfl)

instance typeSegment : Parser.Tallies g.typeSegment 0 := by
  refine keep fun _ => keep fun _ => keep fun _ => choice (keep fun _ => keep fun _ => ?_) ?_
  all_goals
    exact hand fun _ => hand fun _ => choice (pure ((held_eq rfl).trans (by simp))) (pure rfl)

instance atUnionBar : Spares atUnionBar := by delta Grammar.atUnionBar; infer_instance

instance typeRule : Parser.Tallies g.typeRule 0 := by
  refine keep fun _ => keep fun _ => hand fun first => hand (h := (loop (fun members =>
    keep fun _ => choice (keep fun _ => take fun next => pure (held_push members next))
      (pure rfl)) #[first]).recount (held_singleton first)) fun members => ?_
  rw [← held_toList members]
  rcases members.toList with _ | ⟨type, _ | ⟨other, others⟩⟩
  · exact pure ((held_union _ _).trans (held_flatMap_unionMembers _))
  · exact pure (by simp)
  · exact pure ((held_union _ _).trans (held_flatMap_unionMembers _))

/-! ### Expressions -/

instance call (callee : Identifier) (kind : CallKind) : Parser.Tallies (g.call callee kind) 0 :=
  keep fun _ => hand fun args => keep fun _ => pure ((held_eq rfl).trans (by simp))

instance member : Parser.Tallies g.member 0 :=
  keep fun _ => keep fun name => keep fun _ => choice (hand fun _ => pure rfl)
    (pure (held_identifier name))

instance param : Parser.Tallies g.param 0 :=
  keep fun _ => keep fun _ => branch fun type? => pure ((held_eq rfl).trans (by simp))

instance params : Parser.Tallies g.params 0 :=
  keep fun _ => hand fun _ => keep fun _ => pure rfl

instance lambda? : Parser.Tallies g.lambda? 0 := by
  refine ⟨fun hs => .look mark_looks (.look position_looks (Settles.andThen
    fun params? s₁ h₁ => ?_))⟩
  have hkept := kept_of_attempt (grows _ : g.Grows _).params h₁
  cases params? with
  | none => exact .rewind hkept.rewind trivial (.pure hs)
  | some params =>
    obtain ⟨params, stop⟩ := params
    refine Settles.keep (attempted hs h₁) fun arrow s₂ h₂ hs₂ => .ite (fun _ =>
      Settles.of_tallies (keep fun _ => take fun body => pure ?_) hs₂) fun _ =>
        .rewind (hkept.trans ((atToken_grows _).of_ok h₂).1.toKept).rewind trivial (.pure hs)
    exact (held_eq rfl).trans (by simp)

instance parenthesized : Parser.Tallies g.parenthesized 0 := by
  refine keep fun _ => hand fun lambda? => ?_
  cases lambda? with
  | some lambda => exact pure rfl
  | none =>
    exact keep fun _ => hand fun inner => keep fun _ => pure ((held_eq rfl).trans (by simp))

instance conditional : Parser.Tallies g.conditional 0 :=
  keep fun _ => keep fun _ => keep fun _ => hand fun condition => keep fun _ =>
    take fun thenBranch => keep fun _ => take fun elseBranch =>
    pure ((held_eq rfl).trans (by simp))

instance letExpression : Parser.Tallies g.letExpression 0 :=
  keep fun _ => keep fun _ => keep fun _ => keep fun name => keep fun _ => branch fun type? =>
    keep fun _ => option () fun _ => keep fun _ => take fun value => keep fun _ =>
    take fun body => pure ((held_eq rfl).trans (by simp))

instance newExpression : Parser.Tallies g.newExpression 0 :=
  keep fun _ => keep fun _ => keep fun _ => branch fun type? => take fun body =>
    pure ((held_eq rfl).trans (by simp))

instance readKind? : Spares readKind? := .of_idle readKind?_looks.idle

instance nameExpression : Parser.Tallies g.nameExpression 0 :=
  keep fun _ => keep fun _ => choice (option () fun _ => hand fun call => pure (held_exprCall call))
    (option () fun _ => pure ((held_eq rfl).trans (by simp)))

instance identifierExpression : Parser.Tallies g.identifierExpression 0 := by
  refine keep fun kind? => ?_
  cases kind? with
  | some kind => exact keep fun _ => keep fun _ => hand fun call => pure (held_exprCall call)
  | none => exact nameExpression

instance constant? : Parser.Tallies constant? 0 :=
  keep fun _ => choice (keep fun _ => pure ((held_eq rfl).trans (by simp))) <|
    keep fun _ => choice (keep fun _ => pure ((held_eq rfl).trans (by simp))) <|
    keep fun _ => choice (keep fun _ => pure ((held_eq rfl).trans (by simp))) (pure rfl)

instance primary : Parser.Tallies g.primary 0 := by
  refine keep fun _ => keep fun _ => choice inferInstance <|
    keep fun _ => choice inferInstance <| keep fun _ => choice inferInstance <|
    keep fun _ => choice inferInstance <| keep fun _ => choice
      (keep fun _ => keep fun literal => pure (held_exprNumber literal)) <|
    keep fun _ => choice (hand fun literal => pure (held_exprString literal)) <|
    hand fun constant? => ?_
  cases constant? with
  | some constant => exact pure rfl
  | none => exact keep fun _ => choice inferInstance failExpected

instance moreBodies (first : ObjectBody) : Parser.Tallies (g.moreBodies first) (held first) :=
  collect first

omit [g.Tallies] in
/-- The bodies begin with the one that was read before. -/
theorem moreBodies_gives (first : ObjectBody) :
    (g.moreBodies first).Gives fun bodies => bodies.toList = first :: bodies.toList.drop 1 := by
  refine .repeating (fun bodies => bodies.toList = first :: bodies.toList.drop 1) rfl
    fun bodies hbodies => .after fun _ => .ite (fun _ => .after fun body => .pure ?_)
      fun _ => .pure hbodies
  show (bodies.push body).toList = first :: (bodies.push body).toList.drop 1
  rw [Array.toList_push, hbodies]
  rfl

instance amendments (base : Expr) : Parser.Tallies (g.amendments base) (held base) := by
  refine take fun first => pay_gives (moreBodies_gives first) fun bodies hbodies => pure ?_
  rw [held_amend, ← hbodies, held_toList]

/-- A literal with a unit holds nothing, and neither do its amount and its unit. -/
theorem held_unitLiteral {target e : Expr} {member : Member}
    (h : unitLiteral? target member = some e) : held e = held target + held member := by
  rw [unitLiteral?.eq_def] at h
  split at h
  next amount name =>
    have hparts : held (Expr.number amount) + held (Member.identifier name) = 0 := by
      rw [held_exprNumber, zero_add]
      exact held_identifier name
    rw [hparts]
    simp only at h
    split at h
    next => cases h
    next => split at h <;> cases h <;> exact (held_eq rfl).trans (by simp)
  next => cases h

theorem held_select (target : Expr) (access : Access) :
    held (select target access) = held target + held access :=
  (held_eq rfl).trans (by simp [select])

instance dotAccess (target : Expr) : Parser.Tallies (g.dotAccess target) (held target) := by
  refine keep fun _ => keep fun _ => take fun member => pure ?_
  have hselect (span : Span) : held (select target (.dot member span)) =
      held target + held member :=
    (held_select _ _).trans (congrArg _ ((held_eq rfl).trans (by simp)))
  split
  · cases hunit : unitLiteral? target member with
    | some e => exact held_unitLiteral hunit
    | none => exact hselect _
  · exact hselect _

instance nullSafeAccess (target : Expr) : Parser.Tallies (g.nullSafeAccess target) (held target) :=
  keep fun _ => keep fun _ => take fun member =>
    pure ((held_select _ _).trans (congrArg _ ((held_eq rfl).trans (by simp))))

instance bracketAccess (target : Expr) : Parser.Tallies (g.bracketAccess target) (held target) :=
  keep fun _ => keep fun _ => take fun index => keep fun _ =>
    pure ((held_select _ _).trans (congrArg _ ((held_eq rfl).trans (by simp))))

instance postfixStep (target : Expr) : Parser.Tallies (g.postfixStep target) (held target) :=
  keep fun _ => keep fun _ => choice (hand fun _ => pure rfl) <| keep fun _ => keep fun _ =>
    choice (hand fun _ => pure rfl) <| keep fun _ => keep fun _ =>
    choice (hand fun _ => pure rfl) <| keep fun _ =>
    choice (keep fun _ => keep fun _ => pure ((held_eq rfl).trans (by simp))) <|
    keep fun _ => choice (hand fun _ => pure rfl) (pure rfl)

instance typeTestStep (expr : Expr) : Parser.Tallies (g.typeTestStep expr) (held expr) :=
  keep fun _ => keep fun _ => choice
    (keep fun _ => take fun type => pure ((held_eq rfl).trans (by simp))) <| keep fun _ => choice
    (keep fun _ => take fun type => pure ((held_eq rfl).trans (by simp))) (pure rfl)

instance prefixStep (operators : List (UnaryOperator × Nat)) : Spares (prefixStep operators) := by
  delta Grammar.prefixStep; infer_instance

instance operand : Parser.Tallies g.operand 0 :=
  keep fun operators => hand fun _ => hand fun _ => hand fun tested =>
    pure (held_applyPrefixes operators tested)

instance firstOperator? (ops : List BinaryOperator) : Spares (firstOperator? ops) := by
  induction ops with
  | nil => exact .pure _
  | cons op ops ih => exact .bind

instance infixOperator? (left : Expr) : Spares (infixOperator? left) := by
  delta Grammar.infixOperator?
  refine .sequence fun _ => .sequence fun op? => ?_
  rcases op? with _ | _ | _ <;> infer_instance

instance infixSteps (first : Expr) : Parser.Tallies (g.infixSteps first) 0 := by
  refine loop (fun steps => keep fun op? => ?_) #[]
  cases op? with
  | some op => exact keep fun _ => take fun operand => pure (held_push steps _)
  | none => exact pure rfl

instance expressionRule : Parser.Tallies g.expressionRule 0 :=
  hand fun first => take fun steps => option () fun _ =>
    pure (held_groupInfix first steps.toList)

/-! ### Declarations -/

instance annotationRule : Parser.Tallies g.annotationRule 0 :=
  keep fun _ => keep fun _ => keep fun _ => keep fun _ => branch fun body? =>
    pure ((held_eq rfl).trans (by simp))

instance annotationRules : Parser.Tallies g.annotationRules 0 :=
  hand (h := loop (fun annotations => keep fun _ => choice
    (take fun a => pure (held_push annotations a)) (pure rfl)) #[]) fun _ => pure rfl

instance preamble : Parser.Tallies g.preamble 0 :=
  keep fun _ => hand fun _ => take fun _ => keep fun _ => keep fun _ => pure rfl

instance typeParameter : Parser.Tallies g.typeParameter 0 :=
  keep fun _ => keep fun _ => keep fun _ => hand fun type => pure ((held_eq rfl).trans (by simp))

instance typeParameters (stop : Int) : Parser.Tallies (g.typeParameters stop) 0 := by
  refine keep fun opening? => ?_
  cases opening? with
  | none => exact pure rfl
  | some opening =>
    refine keep fun close? => ?_
    cases close? with
    | some close => exact keep fun _ => pure rfl
    | none => exact hand fun first => hand (h := collect first) fun _ => keep fun _ => pure rfl

instance objectForm : Parser.Tallies g.objectForm 0 :=
  hand fun first => hand fun bodies => pure ((held_eq rfl).trans (by simp))

instance propertyForm (name : Identifier) : Parser.Tallies (g.propertyForm name) 0 := by
  refine keep fun _ => choice (hand fun form => pure rfl) <| keep fun _ => branch fun type? =>
    keep fun _ => choice (keep fun _ => take fun value => pure ?_) ?_
  · exact (held_eq rfl).trans (by simp [Node.ofPropertyForm])
  · cases type? with
    | none => exact failWith
    | some type => exact pure ((held_eq rfl).trans (by simp [Node.ofPropertyForm]))

instance propertyRule (before : Preamble) :
    Parser.Tallies (g.propertyRule before) (held before) :=
  keep fun _ => take fun form => pure ((held_eq rfl).trans (by simp [held_preamble]))

instance functionRule (before : Preamble) :
    Parser.Tallies (g.functionRule before) (held before) := by
  refine keep fun _ => keep fun name => take fun ⟨typeParams, _⟩ => take fun ⟨params, _⟩ =>
    keep fun _ => branch fun result? => keep fun hasBody => ?_
  have hdecl (body? : Option Expr) (span : Span) : held before + held typeParams + held params +
      held result? + held body? = held ({
        modifiers := before.modifiers
        name := name
        typeParams := typeParams
        params := params
        result := result?
        body := body?
        doc := before.doc
        annotations := before.annotations
        span := span } : FunctionDecl) :=
    ((held_eq rfl).trans (by simp [held_preamble])).symm
  cases hasBody with
  | true => exact keep fun _ => take fun body => pure (hdecl body _).symm
  | false => exact pure ((hdecl none _).symm.trans (add_zero _))

instance classMember : Parser.Tallies g.classMember 0 :=
  hand fun _ => keep fun _ => choice (hand fun _ => pure rfl) <| keep fun _ =>
    choice (hand fun _ => pure rfl) failExpected

instance moduleClauseRule (before : Preamble) :
    Parser.Tallies (moduleClauseRule before) (held before) :=
  keep fun _ => keep fun _ => keep fun _ => pure ((held_eq rfl).trans (by simp [held_preamble]))

instance importRule (before : Preamble) : Parser.Tallies (g.importRule before) (held before) := by
  refine keep fun _ => keep fun next => option () fun _ =>
    take_gives (sourceString_gives _) fun source hsource => keep fun _ => ?_
  have hdecl (name? : Option Identifier) (span : Span) : held ({
        source := source.constantValue
        globbed := next == '*'
        localName := name?
        doc := before.doc
        annotations := before.annotations
        span := span } : ImportDecl) = held before + held source := by
    refine (held_eq rfl).trans ?_
    cases name? <;> simp [held_preamble, held_of_isConstant hsource]
  exact choice (keep fun name? => pure (hdecl name? _)) (pure (hdecl none _))

instance extendsRule (before : Preamble) : Parser.Tallies (g.extendsRule before) (held before) :=
  keep fun _ => take_gives (sourceString_gives _) fun _ hsource =>
    pure ((held_eq rfl).trans (by simp [held_preamble, held_of_isConstant hsource]))

instance amendsRule (before : Preamble) : Parser.Tallies (g.amendsRule before) (held before) :=
  keep fun _ => take_gives (sourceString_gives _) fun _ hsource =>
    pure ((held_eq rfl).trans (by simp [held_preamble, held_of_isConstant hsource]))

instance typeAliasRule (before : Preamble) :
    Parser.Tallies (g.typeAliasRule before) (held before) :=
  keep fun _ => keep fun _ => take fun ⟨typeParams, _⟩ => keep fun _ => take fun aliased =>
    pure ((held_eq rfl).trans (by simp [held_preamble]))

/-! ### Object bodies -/

instance entryValue : Parser.Tallies g.entryValue 0 :=
  keep fun _ => choice (keep fun _ => hand fun _ => pure rfl) <| keep fun _ =>
    choice (hand fun _ => pure rfl) failExpected

instance mappingEntry : Parser.Tallies g.mappingEntry 0 :=
  keep fun _ => keep fun _ => hand fun key => keep fun _ => take fun value =>
    pure ((held_eq rfl).trans (by simp [Node.ofObjectMember]))

instance predicateEntry : Parser.Tallies g.predicateEntry 0 :=
  keep fun _ => keep fun _ => hand fun key => keep fun _ => take fun value =>
    pure ((held_eq rfl).trans (by simp [Node.ofObjectMember]))

instance spread : Parser.Tallies g.spread 0 :=
  keep fun _ => keep fun _ => keep fun _ => option () fun _ => hand fun e =>
    pure ((held_eq rfl).trans (by simp [Node.ofObjectMember]))

instance fieldAmend : Parser.Tallies g.fieldAmend 0 :=
  keep fun _ => keep fun _ => keep fun _ => keep fun _ => hand fun index => keep fun _ =>
    keep fun _ => take fun body => pure ((held_eq rfl).trans (by simp [Node.ofObjectMember]))

instance whenGenerator : Parser.Tallies g.whenGenerator 0 :=
  keep fun _ => keep fun _ => keep fun _ => hand fun condition => keep fun _ => take fun thenBody =>
    keep fun _ => branch fun elseBody? => pure ((held_eq rfl).trans (by simp [Node.ofObjectMember]))

instance loopNames : Spares loopNames := by delta Grammar.loopNames; infer_instance

instance forGenerator : Parser.Tallies g.forGenerator 0 :=
  keep fun _ => keep fun _ => keep fun _ => keep fun _ => keep fun _ => hand fun iterable =>
    keep fun _ => take fun body => pure ((held_eq rfl).trans (by simp [Node.ofObjectMember]))

instance propertyMember? : Parser.Tallies g.propertyMember? 0 := by
  refine ⟨fun hs => .look mark_looks (Settles.andThen fun before s₁ h₁ => ?_)⟩
  have hs₁ := preamble.of_ok hs h₁
  refine .look (atWord_looks _) (.ite
    (fun _ => Settles.of_tallies (hand fun _ => pure rfl) hs₁) fun _ =>
      Settles.keep hs₁ fun head s₂ h₂ hs₂ => .ite
        (fun _ => Settles.of_tallies (hand fun _ => pure rfl) hs₂) fun _ => ?_)
  have hkept := ((grows _ : g.Grows _).preamble.of_ok h₁).1.toKept.trans
    (atPropertyHead_grows.of_ok h₂).1.toKept
  exact .rewind hkept.rewind trivial (.pure hs)

instance namedMember : Parser.Tallies g.namedMember 0 := by
  refine hand fun member? => ?_
  cases member? with
  | some member => exact pure rfl
  | none => exact hand fun e => pure ((held_eq rfl).trans (by simp [Node.ofObjectMember]))

instance objectMember : Parser.Tallies g.objectMember 0 :=
  keep fun _ => choice inferInstance <| keep fun _ => choice inferInstance <|
    keep fun _ => choice inferInstance <| keep fun _ => choice inferInstance <|
    keep fun _ => choice inferInstance <| keep fun _ => choice inferInstance inferInstance

instance objectMembers (opening : Span) : Parser.Tallies (g.objectMembers opening) 0 :=
  loop (fun members => keep fun _ => keep fun _ => keep fun _ => choice failWith <|
    choice (keep fun _ => pure rfl) <| choice (keep fun _ => pure rfl)
    (take fun member => pure (held_push members member))) #[]

instance bodyRule : Parser.Tallies g.bodyRule 0 :=
  keep fun _ => hand fun members => keep fun _ => pure ((held_eq rfl).trans (by simp))

/-! ### Nesting -/

/-- The grammars of all depths. The induction is on the depth. -/
instance nested (depth : Nat) : (nested depth).Tallies := by
  induction depth with
  | zero =>
    exact ⟨fun ctx => grows_nested ctx 0, of_never nofun, of_never nofun, of_never nofun⟩
  | succ depth ih =>
    exact ⟨fun ctx => grows_nested ctx (depth + 1), expressionRule, typeRule, bodyRule⟩

instance full : full.Tallies := nested nestingLimit

end Tallies

end Grammar

end PklSyntax
