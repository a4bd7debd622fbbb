import PklSyntax.Grammar.Expression
import PklSyntax.Proofs.Adjacency.Type
import PklSyntax.Proofs.Layout.Expression

/-!
# Units, calls and line breaks in expressions

A number becomes a literal with a unit in one place only: where a point stands directly behind it,
and the member behind the point is a name for a unit. Trivia may stand in front of that name, as in
front of any member. A name becomes a call where a parenthesis stands directly behind it.

The two tests for line breaks look at the end of an operand that was just read, which is where the
last token ended. A `-` is tested against the operand in front of it before the operators are
grouped. Grouping does not change where a left operand ends: whatever has been grouped ends with the
last of its operands.

## Main definitions

* `InfixStep.Follows`, `FollowOn`: operators stand behind the operands in front of them.
* `ExprRead`: a well-joined expression that ends where the last token ended.

## Main statements

* `Grammar.Joins.call`, `Grammar.Joins.member`: where arguments and the names of members lie.
* `Grammar.Joins.dotAccess`: the unit of a literal stands behind its amount.
* `Grammar.Joins.bracketAccess`: the bracket of an access stands on the line of its target.
* `wellJoined_climb`: grouping keeps the operators behind their left operands.
* `Grammar.Joins.expressionRule`: an expression is well-joined when what stands inside it is.
-/

namespace PklSyntax

variable {text : Array Char}

/-! ### Infix operators -/

/-- The operands of the steps are well-joined. -/
def OperandsWellJoined (text : Array Char) (steps : List InfixStep) : Prop :=
  ∀ step ∈ steps, (Node.expr step.operand).WellJoined text

/-- A minus sign stands between its operand and what ends at the offset, on the line of the
latter. -/
def InfixStep.Follows (text : Array Char) (stop : Int) (step : InfixStep) : Prop :=
  step.op = .subtract →
    ∃ i : Nat, charAt text i = '-' ∧ SameLine text stop i ∧ i < step.operand.span.start

/-- The minus signs among the steps stand behind the operands in front of them, of which the first
ends at the offset. -/
def FollowOn (text : Array Char) (stop : Int) : List InfixStep → Prop
  | [] => True
  | step :: steps => step.Follows text stop ∧ FollowOn text step.operand.span.stop steps

theorem followOn_concat {stop : Int} {steps : List InfixStep} {step : InfixStep} :
    FollowOn text stop (steps ++ [step]) ↔
      FollowOn text stop steps ∧ step.Follows text (lastStop stop steps) := by
  induction steps generalizing stop with
  | nil => simp [FollowOn]
  | cons first steps ih => simp [FollowOn, ih, and_assoc]

theorem Expr.wellJoined_combine {left right : Expr} {op : BinaryOperator}
    (hleft : (Node.expr left).WellJoined text) (hright : (Node.expr right).WellJoined text)
    (hop : InfixStep.Follows text left.span.stop ⟨op, right⟩) :
    (Node.expr (left.combine op right)).WellJoined text := by
  refine .of_children hop ?_
  simpa [combine, Node.children, Node.fields, Expr.fields] using ⟨hleft, hright⟩

/-- Whatever steps an operand takes, the tree of them begins and ends with its operands, so that
operators stay behind what is on their left. -/
theorem wellJoined_climb (least : Nat) {left : Expr} {steps : List InfixStep} {hi : Int}
    (hsound : (Node.expr left).Sound) (hrow : Row left.span.stop (operandNodes steps) hi)
    (hleft : (Node.expr left).WellJoined text) (hsteps : OperandsWellJoined text steps)
    (hfollow : FollowOn text left.span.stop steps) :
    (Node.expr (climb least left steps).tree).WellJoined text ∧
      OperandsWellJoined text (climb least left steps).rest ∧
      FollowOn text (climb least left steps).tree.span.stop (climb least left steps).rest := by
  fun_induction climb least left steps with
  | case1 least left => exact ⟨hleft, hsteps, hfollow⟩
  | case2 least left step tail hlt => exact ⟨hleft, hsteps, hfollow⟩
  | case3 least left step tail hge right rest hle hright whole rest' hle' hwhole ih₁ ih₂ =>
    obtain ⟨hoperand, htail⟩ := List.forall_mem_cons.1 hsteps
    obtain ⟨hstep, hfollow⟩ := hfollow
    cases hrow with
    | cons hstart hsound' hrow' =>
      -- The right operand is grouped first. It begins where the operand of the step begins.
      have hclimbed := ih₁ hsound' hrow' hoperand htail hfollow
      obtain ⟨hsoundR, hstartR, hrowR, -⟩ := climb_spec step.op.rightLevel hsound' hrow'
      rw [hright] at hclimbed hsoundR hstartR hrowR
      obtain ⟨hjoinedR, hrest, hfollowR⟩ := hclimbed
      obtain ⟨hsoundC, hspan⟩ := sound_combine step.op hsound hsoundR (hstartR ▸ hstart)
      have hjoinedC : (Node.expr (left.combine step.op right)).WellJoined text := by
        refine Expr.wellJoined_combine hleft hjoinedR fun hop => ?_
        obtain ⟨i, hminus, hline, hlt⟩ := hstep hop
        exact ⟨i, hminus, hline, hlt.trans_eq hstartR.symm⟩
      rw [hwhole, hspan] at ih₂
      exact ih₂ hsoundC hrowR hjoinedC hrest hfollowR

theorem wellJoined_groupInfix {first : Expr} {steps : List InfixStep} {hi : Int}
    (hsound : (Node.expr first).Sound) (hrow : Row first.span.stop (operandNodes steps) hi)
    (hfirst : (Node.expr first).WellJoined text) (hsteps : OperandsWellJoined text steps)
    (hfollow : FollowOn text first.span.stop steps) :
    (Node.expr (groupInfix first steps)).WellJoined text :=
  (wellJoined_climb 0 hsound hrow hfirst hsteps hfollow).1

/-! ### Units -/

theorem DurationUnit.symbol_of_ofSymbol? {symbol : String} {unit : DurationUnit}
    (h : ofSymbol? symbol = some unit) : unit.symbol = symbol := by
  simpa using List.find?_some h

theorem DataSizeUnit.symbol_of_ofSymbol? {symbol : String} {unit : DataSizeUnit}
    (h : ofSymbol? symbol = some unit) : unit.symbol = symbol := by
  simpa using List.find?_some h

namespace Grammar

open PklSyntax.Parser

variable {g : Grammar} {ctx : Context} {s : State} {e : Expr}

/-- Where a member begins and ends that is a name without a call: behind trivia, and at the
cursor. -/
def MemberLies (text : Array Char) (start : Nat) (stop : Nat) : Member → Prop
  | .identifier name => name.kind = .plain → ∃ i, TriviaRun text start i ∧ i ≤ stop ∧
      name.span = .ofNat i stop ∧ name.name = sliceOf text i stop
  | .call _ => True

/-- The literal that an amount and a name make together has its unit behind its amount. -/
theorem wellJoined_unitLiteral {target : Expr} {member : Member} {start stop : Nat}
    (htarget : target.span.stop = start) (hdot : charAt text start = '.')
    (hmember : MemberLies text (start + 1) stop member)
    (h : unitLiteral? target member = some e) : (Node.expr e).WellJoined text := by
  rw [unitLiteral?.eq_def] at h
  split at h
  next amount name =>
    simp only at h
    split at h
    next => cases h
    next hkind =>
      obtain ⟨i, hrun, hle, hspan, hname⟩ := hmember (by simpa using hkind)
      have hbehind {symbol : String} (hsymbol : symbol = name.name) :
          UnitBehind text amount.span symbol (amount.span.cover name.span) :=
        ⟨start, i, stop, htarget, hdot, hrun, hle, by rw [hsymbol, hname], by rw [hspan]⟩
      split at h <;> cases h
      next hunit =>
        refine .of_children (hbehind (DurationUnit.symbol_of_ofSymbol? hunit)) ?_
        simp [Node.children, Node.fields, Expr.fields]
      next hunit =>
        refine .of_children (hbehind (DataSizeUnit.symbol_of_ofSymbol? hunit)) ?_
        simp [Node.children, Node.fields, Expr.fields]
  next => cases h

/-! ### Amendments and selections -/

theorem wellJoined_select {access : Access} (he : (Node.expr e).WellJoined text)
    (haccess : (Node.access access).WellJoined text) (hjoined : access.Joined text e.span.stop) :
    (Node.expr (select e access)).WellJoined text := by
  refine .of_children hjoined ?_
  simpa [select, Node.children, Node.fields, Expr.fields] using ⟨he, haccess⟩

theorem wellJoined_amended {bodies : List ObjectBody} (he : (Node.expr e).WellJoined text)
    (hbodies : ∀ body ∈ bodies, (Node.objectBody body).WellJoined text) (span : Span) :
    (Node.expr (.amended e bodies span)).WellJoined text := by
  refine .of_children trivial ?_
  simpa [Node.children, Node.fields, Expr.fields, or_imp, forall_and] using ⟨he, hbodies⟩

/-- The parentheses around a base that is amended are dropped. -/
theorem wellJoined_amend_inner {inner : Expr} {first : ObjectBody} {span : Span}
    (he : (Node.expr (.paren inner span)).WellJoined text)
    (hfirst : (Node.objectBody first).WellJoined text) (span' : Span) :
    (Node.expr (.amend inner first span')).WellJoined text := by
  have hinner : (Node.expr inner).WellJoined text :=
    ((Node.wellJoined_iff _).1 he).2 _ (by simp [Node.children, Node.fields, Expr.fields])
  refine .of_children trivial ?_
  simpa [Node.children, Node.fields, Expr.fields] using ⟨hinner, hfirst⟩

theorem wellJoined_amend {first : ObjectBody} {others : List ObjectBody} {span : Span}
    (he : (Node.expr e).WellJoined text) (hfirst : (Node.objectBody first).WellJoined text)
    (hothers : ∀ body ∈ others, (Node.objectBody body).WellJoined text) :
    (Node.expr (amend e first others span)).WellJoined text := by
  rw [amend.eq_def]
  split
  next => exact wellJoined_amend_inner he hfirst _
  next => exact wellJoined_amended (wellJoined_amend_inner he hfirst _) hothers _
  next => exact wellJoined_amended he (List.forall_mem_cons.2 ⟨hfirst, hothers⟩) _

/-- Prefix operators leave their operand as it is. -/
theorem wellJoined_applyPrefixes (operators : List (UnaryOperator × Nat))
    (he : (Node.expr e).WellJoined text) :
    (Node.expr (applyPrefixes operators e)).WellJoined text := by
  induction operators generalizing e with
  | nil => exact he
  | cons operator operators ih =>
    apply ih
    refine .of_children trivial ?_
    simpa [Node.children, Node.fields, Expr.fields] using he

/-! ### Expressions that were just read -/

/-- The expression was read behind `lo` and is well-joined, and it ends with the last token behind
which the state stands. -/
structure ExprRead (ctx : Context) (lo : Int) (e : Expr) (s : State) : Prop where
  joined : (Node.expr e).WellJoined ctx.text
  ends : ∃ c, Placed ctx.text lo (.expr e) c ∧ Stands ctx.text s c

/-- A round that gives well-joined expressions gives expressions that were just read when it yields
trees that end with the last token. -/
theorem leaves_exprRead {p : Parser (Round Expr Expr)} {lo : Int} {c : Nat}
    (hp : p.Leaves Steady ctx s fun round _ => round.Meets
      (fun e => (Node.expr e).WellJoined ctx.text) fun e => (Node.expr e).WellJoined ctx.text)
    (hs : Stands ctx.text s c)
    (hyields : p.Yields ctx s c fun round s' c' => round.Meets
      (fun e => s.pos < s'.pos ∧ Placed ctx.text lo (.expr e) c')
      fun e => Placed ctx.text lo (.expr e) c') :
    p.Leaves Steady ctx s fun round s' => round.Meets
      (fun e => ExprRead ctx lo e s') fun e => ExprRead ctx lo e s' := by
  apply (hp.with_yields hs hyields).mono
  rintro round s' ⟨hjoined, c', h, hplaced⟩
  cases round with
  | next e => exact ⟨hjoined, c', hplaced.2, h.stands⟩
  | done e => exact ⟨hjoined, c', hplaced, h.stands⟩

/-! ### Constants and calls -/

theorem constant?_leaves :
    constant?.Leaves Steady ctx s fun constant? _ =>
      ∀ e ∈ constant?, (Node.expr e).WellJoined ctx.text := by
  have hleaf (e : Expr) (hjoined : e.Joined ctx.text) (hfields : (Node.expr e).children = []) :
      ∀ e' ∈ some e, (Node.expr e').WellJoined ctx.text := by
    rintro _ ⟨⟩
    exact .of_children hjoined (by simp [hfields])
  refine .after fun _ _ => .ite (fun _ => ?_) fun _ => ?_
  · exact .after fun span _ => .pure (hleaf (.bool true span) trivial rfl)
  refine .after fun _ _ => .ite (fun _ => ?_) fun _ => ?_
  · exact .after fun span _ => .pure (hleaf (.bool false span) trivial rfl)
  refine .after fun _ _ => .ite (fun _ => ?_) fun _ => ?_
  · exact .after fun span _ => .pure (hleaf (.null span) trivial rfl)
  apply Leaves.pure
  simp

namespace Joins

/-- The arguments begin at the cursor. -/
theorem call (hg : g.Joins ctx) {callee : Identifier} {kind : CallKind}
    (hstop : callee.span.stop + kind.signLength = s.pos) (hopen : charAt ctx.text s.pos = '(') :
    (g.call callee kind).Leaves Steady ctx s fun c _ => (Node.call c).WellJoined ctx.text := by
  apply (advance_one_leaves (by rw [hopen]; decide)).under.bind
  intro _ s₁ hpos
  refine .of_holds fun hs => ?_
  obtain ⟨c₁, hs₁⟩ := hs.stands
  apply ((commaList_leaves hg.expr).with_yields hs₁ (commaList_yields hg.places.expr)).bind
  rintro args s₂ ⟨hargs, c₂, -, hrow, -⟩
  refine .after fun close s₃ => .pure (.of_children ⟨s.pos, hstop, hopen, fun arg harg => ?_⟩ ?_)
  · have hlo := (hrow.within (List.mem_map_of_mem harg)).1
    rw [hpos] at hlo
    exact Int.lt_of_lt_of_le (by omega) hlo
  · simpa [Node.children, Node.fields, Call.fields] using hargs

/-- A call that stands by itself. -/
theorem callExpression (hg : g.Joins ctx) {callee : Identifier} {kind : CallKind}
    (hstop : callee.span.stop + kind.signLength = s.pos) (hopen : charAt ctx.text s.pos = '(') :
    (do return .call (← g.call callee kind) : Parser Expr).Leaves Steady ctx s fun e _ =>
      (Node.expr e).WellJoined ctx.text :=
  (hg.call hstop hopen).bind fun c _ hc =>
    .pure (hc.recast (m := .expr (.call c)) ((Node.wellJoined_iff _).1 hc).1 rfl)

/-- Behind the trivia in front of a member stands its name. -/
theorem member (hg : g.Joins ctx) :
    g.member.Leaves Steady ctx s fun m s' =>
      (Node.ofMember m).WellJoined ctx.text ∧ MemberLies ctx.text s.pos s'.pos m := by
  apply skip_leaves.under.bind
  intro _ s₁ hskip
  apply (identifier_leaves _).under.bind
  intro name s₂ hname
  refine .look peek_looks (.ite (fun hopen => ?_) fun _ =>
    .pure ⟨Node.wellJoined_identifier name, ?_⟩)
  · refine (hg.call ?_ (by simpa using hopen)).bind fun c s₃ hc => .pure ⟨hc, trivial⟩
    rw [hname.stop_eq]
    exact Int.add_zero _
  · intro hplain
    obtain ⟨hlt, hle, hspan, hslice⟩ := hname.plain hplain
    exact ⟨s₁.pos, hskip.run hlt, hle, hspan, hslice⟩

/-! ### Parameters and lambdas -/

/-- A type behind a colon, if there is one. -/
theorem annotatedType (hg : g.Joins ctx) {β : Type} {k : Option TypeExpr → Parser β}
    {Q : β → State → Prop}
    (hk : ∀ type? s', (∀ t ∈ type?, (Node.type t).WellJoined ctx.text) →
      (k type?).Leaves Steady ctx s' Q) :
    (do
      let found ← accept ":"
      if found = true then do
        let type ← some <$> g.type
        k type
      else do
        let type ← pure none
        k type : Parser β).Leaves Steady ctx s Q :=
  announced_leaves hg.type hk

theorem param (hg : g.Joins ctx) (s : State) :
    g.param.Leaves Steady ctx s fun p _ => (Node.param p).WellJoined ctx.text := by
  refine .after fun name _ => hg.annotatedType fun type? _ htype => .pure ?_
  refine .of_children trivial ?_
  simpa [Node.children, Node.fields, Param.fields] using htype

theorem params (hg : g.Joins ctx) :
    g.params.Leaves Steady ctx s fun params _ =>
      ∀ p ∈ params.1, (Node.param p).WellJoined ctx.text := by
  refine .after fun _ _ => (commaList_leaves hg.param).bind fun params _ hparams => ?_
  exact .after fun close _ => .pure hparams

theorem lambda? (hg : g.Joins ctx) :
    g.lambda?.Leaves Steady ctx s fun lambda? _ =>
      ∀ e ∈ lambda?, (Node.expr e).WellJoined ctx.text := by
  have := hg.upkept
  refine .of_holds fun hs => .look mark_looks (.look position_looks
    (hg.params.attempt.with_run.bind ?_))
  rintro params? s₁ ⟨hrun, hparams⟩
  have hkept := kept_of_attempt (Upkept.upholds (Upkeep.steady ctx)).grows.params hrun
  cases params? with
  | none => exact .rewind hkept.rewind hs (.pure (by simp))
  | some params =>
    apply Leaves.bind (.of_run fun _ _ _ h => h)
    intro arrow s₂ harrow
    apply Leaves.ite
    · intro _
      refine .after fun _ s₃ => (hg.expr s₃).bind fun body _ hbody => .pure ?_
      simp only [Option.mem_def, Option.some.injEq, forall_eq']
      refine .of_children trivial ?_
      simpa [Node.children, Node.fields, Expr.fields, or_imp, forall_and]
        using ⟨hparams params rfl, hbody⟩
    · intro _
      have hback := (hkept.trans ((atToken_grows _).of_ok harrow).1.toKept).rewind
      exact .rewind hback hs (.pure (by simp))

/-! ### Primary expressions -/

theorem parenthesized (hg : g.Joins ctx) :
    g.parenthesized.Leaves Steady ctx s fun e _ => (Node.expr e).WellJoined ctx.text := by
  refine .after fun start _ => hg.lambda?.bind fun lambda? _ hlambda => ?_
  cases lambda? with
  | some lambda => exact .pure (hlambda lambda rfl)
  | none =>
    refine .after fun _ s₁ => (hg.expr s₁).bind fun inner _ hinner => .after fun close _ => ?_
    refine .pure (.of_children trivial ?_)
    simpa [Node.children, Node.fields, Expr.fields] using hinner

theorem conditional (hg : g.Joins ctx) :
    g.conditional.Leaves Steady ctx s fun e _ => (Node.expr e).WellJoined ctx.text := by
  refine .after fun start _ => .after fun _ _ => .after fun _ s₁ => ?_
  refine (hg.expr s₁).bind fun condition _ hcondition => .after fun _ s₂ => ?_
  refine (hg.expr s₂).bind fun thenBranch _ hthen => .after fun _ s₃ => ?_
  refine (hg.expr s₃).bind fun elseBranch _ helse => .pure (.of_children trivial ?_)
  simpa [Node.children, Node.fields, Expr.fields] using ⟨hcondition, hthen, helse⟩

theorem letExpression (hg : g.Joins ctx) :
    g.letExpression.Leaves Steady ctx s fun e _ => (Node.expr e).WellJoined ctx.text := by
  refine .after fun start _ => .after fun _ _ => .after fun _ _ => .after fun name _ => ?_
  apply hg.annotatedType
  intro type? _ htype
  refine .after fun assign _ => .guard failExpected_leaves fun _ => .after fun _ s₁ => ?_
  refine (hg.expr s₁).bind fun value _ hvalue => .after fun _ s₂ => ?_
  refine (hg.expr s₂).bind fun body _ hbody => .pure (.of_children trivial ?_)
  simpa [Node.children, Node.fields, Expr.fields, or_imp, forall_and] using ⟨htype, hvalue, hbody⟩

theorem newExpression (hg : g.Joins ctx) :
    g.newExpression.Leaves Steady ctx s fun e _ => (Node.expr e).WellJoined ctx.text := by
  refine .after fun start _ => .after fun _ _ => .after fun untyped s₁ => .branch
    (P := fun type? _ => ∀ t ∈ type?, (Node.type t).WellJoined ctx.text) (fun _ => .pure (by simp))
    (fun _ => .map ((hg.type s₁).mono fun t _ ht => by simpa using ht)) fun type? s₂ htype => ?_
  refine (hg.body s₂).bind fun body _ hbody => .pure (.of_children trivial ?_)
  simpa [Node.children, Node.fields, Expr.fields, or_imp, forall_and] using ⟨htype, hbody⟩

theorem nameExpression (hg : g.Joins ctx) :
    g.nameExpression.Leaves Steady ctx s fun e _ => (Node.expr e).WellJoined ctx.text := by
  apply (identifier_leaves _).under.bind
  intro name s₁ hname
  refine .look peek_looks (.ite (fun hopen => ?_) fun _ => ?_)
  · refine .guard failWith_leaves fun _ => hg.callExpression ?_ (by simpa using hopen)
    rw [hname.stop_eq]
    exact Int.add_zero _
  · exact .guard failWith_leaves fun _ =>
      .pure ((Node.wellJoined_identifier name).recast trivial rfl)

theorem signLength_of_readKindAt? {i : Nat} {kind : CallKind}
    (h : readKindAt? text i = some kind) : kind.signLength = 1 := by
  simp only [readKindAt?] at h
  split at h
  · split at h
    · cases h
      rfl
    · split at h <;> cases h
      rfl
  · cases h

theorem identifierExpression (hg : g.Joins ctx) :
    g.identifierExpression.Leaves Steady ctx s fun e _ => (Node.expr e).WellJoined ctx.text := by
  apply Leaves.look readKind?_looks
  cases hkind : readKindAt? ctx.text s.pos with
  | none => exact hg.nameExpression
  | some kind =>
    have hopen := charAt_of_readKindAt? hkind
    have hlt := lt_size_of_charAt_ne (by rw [hopen]; decide)
    refine .look position_looks ((advance_leaves 5).under.bind fun _ s₁ hpos => ?_)
    rw [Nat.min_eq_right (by omega)] at hpos
    refine hg.callExpression ?_ (by rw [hpos]; exact hopen)
    rw [hpos, signLength_of_readKindAt? hkind]
    show ((s.pos + 4 : Nat) : Int) + (1 : Nat) = (s.pos + 5 : Nat)
    omega

theorem primary (hg : g.Joins ctx) :
    g.primary.Leaves Steady ctx s fun e _ => (Node.expr e).WellJoined ctx.text := by
  refine .after fun _ _ => .after fun _ _ => .ite (fun _ => hg.conditional) fun _ => ?_
  refine .after fun _ _ => .ite (fun _ => hg.letExpression) fun _ => ?_
  refine .after fun _ _ => .ite (fun _ => hg.parenthesized) fun _ => ?_
  refine .after fun _ _ => .ite (fun _ => hg.newExpression) fun _ => ?_
  refine .after fun _ _ => .ite (fun _ => ?_) fun _ => ?_
  · refine .after fun options _ => .after fun literal _ => .pure ?_
    exact (Node.wellJoined_number literal).recast trivial rfl
  refine .after fun _ _ => .ite (fun _ => ?_) fun _ => ?_
  · exact hg.string.bind fun literal _ hliteral => .pure (hliteral.1.recast trivial rfl)
  apply constant?_leaves.bind
  intro constant? _ hconstant
  cases constant? with
  | some e => exact .pure (hconstant e rfl)
  | none =>
    exact .after fun _ _ => .ite (fun _ => hg.identifierExpression) fun _ => failExpected_leaves

/-! ### Selections -/

/-- The member behind a point goes into a selection, or into a literal with a unit when the point
stands directly behind its amount. -/
theorem dotAccess (hg : g.Joins ctx) (he : (Node.expr e).WellJoined ctx.text)
    (hdot : charAt ctx.text s.pos = '.') :
    (g.dotAccess e).Leaves Steady ctx s fun e _ => (Node.expr e).WellJoined ctx.text := by
  refine .look position_looks ((advance_one_leaves (by rw [hdot]; decide)).under.bind ?_)
  intro _ s₁ hpos
  apply hg.member.bind
  rintro member s₂ ⟨hmember, hlies⟩
  rw [hpos] at hlies
  apply Leaves.pure
  have hselect : (Node.expr (select e (.dot member ⟨s.pos, member.span.stop⟩))).WellJoined
      ctx.text := by
    refine wellJoined_select he (.of_children trivial ?_) trivial
    simpa [Node.children, Node.fields, Access.fields] using hmember
  split
  next hstop =>
    cases hunit : unitLiteral? e member with
    | some e => exact wellJoined_unitLiteral hstop hdot hlies hunit
    | none => exact hselect
  next => exact hselect

theorem nullSafeAccess (hg : g.Joins ctx) (he : (Node.expr e).WellJoined ctx.text) :
    (g.nullSafeAccess e).Leaves Steady ctx s fun e _ => (Node.expr e).WellJoined ctx.text := by
  refine .after fun start _ => .after fun _ _ => hg.member.bind fun member _ hmember => .pure ?_
  refine wellJoined_select he (.of_children trivial ?_) trivial
  simpa [Node.children, Node.fields, Access.fields] using hmember.1

/-- The bracket stands at the cursor. -/
theorem bracketAccess (hg : g.Joins ctx) (he : (Node.expr e).WellJoined ctx.text)
    (hopen : charAt ctx.text s.pos = '[') (hline : SameLine ctx.text e.span.stop s.pos) :
    (g.bracketAccess e).Leaves Steady ctx s fun e _ => (Node.expr e).WellJoined ctx.text := by
  refine .look position_looks (.after fun _ s₁ => (hg.expr s₁).bind fun index _ hindex =>
    .after fun close _ => .pure ?_)
  refine wellJoined_select he (.of_children trivial ?_) ⟨s.pos, rfl, hopen, hline⟩
  simpa [Node.children, Node.fields, Access.fields] using hindex

theorem moreBodies (hg : g.Joins ctx) {first : ObjectBody}
    (hfirst : (Node.objectBody first).WellJoined ctx.text) :
    (g.moreBodies first).Leaves Steady ctx s fun bodies _ =>
      ∀ body ∈ bodies.toList, (Node.objectBody body).WellJoined ctx.text :=
  collect_leaves hg.body (by simpa using hfirst)

theorem amendments (hg : g.Joins ctx) (he : (Node.expr e).WellJoined ctx.text) :
    (g.amendments e).Leaves Steady ctx s fun e _ => (Node.expr e).WellJoined ctx.text := by
  refine (hg.body s).bind fun first _ hfirst => (hg.moreBodies hfirst).bind ?_
  intro bodies _ hbodies
  refine .pure (wellJoined_amend he hfirst ?_)
  intro body hbody
  exact hbodies body (List.mem_of_mem_drop hbody)

/-- What is behind the target stands behind the token with which it ends. -/
theorem postfixStep (hg : g.Joins ctx) {lo : Int} (he : ExprRead ctx lo e s) :
    (g.postfixStep e).Leaves Steady ctx s fun round s' => round.Meets
      (fun e => ExprRead ctx lo e s') fun e => ExprRead ctx lo e s' := by
  obtain ⟨he, c, hplaced, hs⟩ := he
  refine leaves_exprRead ?_ hs (hg.places.postfixStep hplaced)
  refine (Leaves.of_yields hs skip_yields).bind ?_
  rintro _ s₁ ⟨c₁, h₁, hskip⟩
  obtain rfl := hskip.eq
  refine .look (startsWith_looks _) (.ite (fun _ => ?_) fun _ => ?_)
  · exact (hg.nullSafeAccess he).bind fun e _ he => .pure he
  refine .look (startsWith_looks _) (.look (startsWith_looks _) (.ite (fun hdot => ?_) fun _ => ?_))
  · rw [Bool.and_eq_true] at hdot
    have hpoint : charAt ctx.text (s₁.pos + 0) = '.' := charAt_of_matchesAt hdot.1 rfl
    exact (hg.dotAccess he hpoint).bind fun e _ he => .pure he
  refine .look (startsWith_looks _) (.look (newlineSince_looks _) (.ite (fun hopen => ?_)
    fun _ => ?_))
  · rw [Bool.and_eq_true, Bool.not_eq_true'] at hopen
    have hbracket : charAt ctx.text s₁.pos = '[' := charAt_of_matchesAt (n := 0) hopen.1 rfl
    have hline : SameLine ctx.text e.span.stop s₁.pos := h₁.stands.sameLine hplaced.stop_eq
      (lt_size_of_charAt_ne (by rw [hbracket]; decide)) hopen.2
    exact (hg.bracketAccess he hbracket hline).bind fun e _ he => .pure he
  refine .after fun _ _ => .ite (fun _ => ?_) fun _ => ?_
  · refine .after fun _ _ => .after fun stop _ => .pure (.of_children trivial ?_)
    simpa [Node.children, Node.fields, Expr.fields] using he
  refine .after fun _ _ => .ite (fun _ => ?_) fun _ => .pure he
  exact (hg.amendments he).bind fun e _ he => .pure he

/-! ### Operators -/

theorem typeTestStep (hg : g.Joins ctx) {lo : Int} (he : ExprRead ctx lo e s) :
    (g.typeTestStep e).Leaves Steady ctx s fun round s' => round.Meets
      (fun e => ExprRead ctx lo e s') fun e => ExprRead ctx lo e s' := by
  obtain ⟨he, c, hplaced, hs⟩ := he
  refine leaves_exprRead ?_ hs (hg.places.typeTestStep hplaced)
  refine .after fun _ _ => .after fun _ _ => .ite (fun _ => ?_) fun _ => .after fun _ _ =>
    .ite (fun _ => ?_) fun _ => .pure he
  all_goals
    refine .after fun _ s₁ => (hg.type s₁).bind fun type _ htype => .pure ?_
    refine .of_children trivial ?_
    simpa [Node.children, Node.fields, Expr.fields] using ⟨he, htype⟩

theorem operand (hg : g.Joins ctx) :
    g.operand.Leaves Steady ctx s fun e s' => ExprRead ctx s.pos e s' := by
  refine .of_holds fun hs => ?_
  obtain ⟨c, hs⟩ := hs.stands
  have hjoined : g.operand.Leaves Steady ctx s fun e _ => (Node.expr e).WellJoined ctx.text := by
    apply Leaves.after
    intro operators s₁
    refine .of_holds fun hs₁ => ?_
    obtain ⟨c₁, hs₁⟩ := hs₁.stands
    apply (hg.primary.with_yields hs₁ hg.places.primary).bind
    rintro primary s₂ ⟨hprimary, c₂, h₂, hplaced⟩
    apply (Leaves.repeating (ExprRead ctx s₁.pos) ⟨hprimary, c₂, hplaced, h₂.stands⟩
      fun _ _ => hg.postfixStep).bind
    intro selected s₃ hselected
    apply (Leaves.repeating (ExprRead ctx s₁.pos) hselected fun _ _ => hg.typeTestStep).bind
    intro tested _ htested
    exact .pure (wellJoined_applyPrefixes operators htested.joined)
  apply (hjoined.with_yields hs hg.places.operand).mono
  rintro e s' ⟨he, c', h, hplaced⟩
  exact ⟨he, c', hplaced, h.stands⟩

/-- A minus sign that continues an expression stands on the line of the operand in front of it. -/
theorem infixOperator?_leaves {c : Nat} (hs : Stands ctx.text s c) (hstop : e.span.stop = c) :
    (infixOperator? e).Leaves Steady ctx s fun op? s' => Stands ctx.text s' c ∧
      (op? = some .subtract →
        charAt ctx.text s'.pos = '-' ∧ SameLine ctx.text e.span.stop s'.pos) := by
  refine (Leaves.of_yields hs skip_yields).bind ?_
  rintro _ s₁ ⟨c₁, h₁, hskip⟩
  obtain rfl := hskip.eq
  apply Leaves.look (firstOperator?_looks _)
  split
  next hfound =>
    have hminus : charAt ctx.text s₁.pos = '-' := charAt_of_matchesAt (n := 0) (List.find?_some
      (p := fun op : BinaryOperator => matchesAt ctx.text op.symbol s₁.pos) hfound) rfl
    refine .look (startsWith_looks _) (.look (newlineSince_looks _) (.ite
      (fun _ => .pure ⟨h₁.stands, nofun⟩) fun hnone => .pure ⟨h₁.stands, fun _ => ⟨hminus, ?_⟩⟩))
    rw [Bool.or_eq_true, not_or, Bool.not_eq_true, Bool.not_eq_true] at hnone
    exact h₁.stands.sameLine hstop (lt_size_of_charAt_ne (by rw [hminus]; decide)) hnone.2
  next hother => exact .pure ⟨h₁.stands, fun h => absurd h hother⟩

/-- What has been read of a sequence: its operators and operands, of which the last one ends where
the last token does. -/
structure StepsRead (ctx : Context) (first : Expr) (steps : Array InfixStep) (s : State) :
    Prop where
  joined : OperandsWellJoined ctx.text steps.toList
  follow : FollowOn ctx.text first.span.stop steps.toList
  stands : ∃ c : Nat, lastStop first.span.stop steps.toList = c ∧ Stands ctx.text s c

theorem infixSteps (hg : g.Joins ctx) {first : Expr} {c : Nat} (hstop : first.span.stop = c)
    (hs : Stands ctx.text s c) :
    (g.infixSteps first).Leaves Steady ctx s fun steps s' => StepsRead ctx first steps s' := by
  refine .repeating (StepsRead ctx first) ⟨by simp [OperandsWellJoined], trivial, c, hstop, hs⟩ ?_
  rintro steps s₁ ⟨hjoined, hfollow, c₁, hlast, hs₁⟩
  have hback : ((steps.back?.map InfixStep.operand).getD first).span.stop = c₁ := by
    rw [← hlast, lastStop, Array.getLast?_toList]
    cases steps.back? <;> rfl
  apply (infixOperator?_leaves hs₁ hback).bind
  rintro op? s₂ ⟨hs₂, hop⟩
  cases op? with
  | none => exact .pure ⟨hjoined, hfollow, c₁, hlast, hs₂⟩
  | some op =>
    apply (advance_leaves _).under.bind
    intro _ s₃ hpos
    apply hg.operand.bind
    rintro e s₄ ⟨he, c₄, hplaced, hs₄⟩
    refine .pure ⟨forall_mem_toList_push hjoined he, ?_, c₄, ?_, hs₄⟩
    · rw [Array.toList_push, followOn_concat, hlast, ← hback]
      refine ⟨hfollow, fun hminus => ?_⟩
      subst hminus
      obtain ⟨hsign, hline⟩ := hop rfl
      have hlt : s₂.pos < ctx.text.size := lt_size_of_charAt_ne (by rw [hsign]; decide)
      have hlo : (s₃.pos : Int) ≤ e.span.start := hplaced.le_start
      have hlength : (BinaryOperator.symbol .subtract).length = 1 := rfl
      exact ⟨s₂.pos, hsign, hline, by simp only; omega⟩
    · rw [Array.toList_push, lastStop, List.getLast?_concat]
      exact hplaced.stop_eq

theorem expressionRule (hg : g.Joins ctx) (s : State) :
    g.expressionRule.Leaves Steady ctx s fun e _ => (Node.expr e).WellJoined ctx.text := by
  apply hg.operand.bind
  rintro first s₁ ⟨hfirst, c₁, hplaced, hs₁⟩
  have hstop : first.span.stop = c₁ := hplaced.stop_eq
  apply ((hg.infixSteps hstop hs₁).with_yields hs₁ (hg.places.infixSteps hplaced)).bind
  rintro steps s₂ ⟨hsteps, c₂, -, hrow, -, -⟩
  refine .guard throw_leaves fun _ => .pure ?_
  exact wellJoined_groupInfix hplaced.sound (hstop ▸ hrow) hfirst hsteps.joined hsteps.follow

end Joins

end Grammar

end PklSyntax
