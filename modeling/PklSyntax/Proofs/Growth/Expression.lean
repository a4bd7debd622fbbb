import PklSyntax.Proofs.Growth.Primary
import PklSyntax.Proofs.Layout.Expression
import PklSyntax.Proofs.Printing.Grouping

/-!
# Growth: expressions

The levels of an expression are loops, one around the other: prefix operators, selections and
amendments, type tests, infix operators. What each loop gives is built with an operator of its own
level or of a tighter one. Only braces need a second look: object bodies stand behind an amended
value, but all that follow one another have been read as one, so that no more stand there.

## Main statements

* `wellFormed_climb`: grouping respects the levels of the infix operators.
* `Grammar.Grows.postfixStep`, `Grammar.Grows.operand`, `Grammar.Grows.expressionRule`.
-/

namespace PklSyntax

/-! ### Infix operators -/

namespace Expr

theorem rootOperator?_eq_none {e : Expr} (h : e.nodeKind ≠ .binaryExpr) : e.rootOperator? = none := by
  cases e <;> first | rfl | exact absurd rfl h

/-- A left operand fits when its own last operand did not take the operator. -/
theorem EndsBefore.fitsLeft {e : Expr} {step : InfixStep} {steps : List InfixStep}
    (h : e.EndsBefore (step :: steps)) : e.FitsLeft step.op := by
  cases e with
  | binary left op right span =>
    have hlt : step.op.level < op.rightLevel := h op step rfl rfl
    rw [BinaryOperator.rightLevel] at hlt
    rw [FitsLeft]
    split at hlt
    · exact .inl hlt
    · rename_i hgroups
      have : op.groupsRight = false := by simpa using hgroups
      rcases Nat.lt_or_eq_of_le (Nat.le_of_lt_succ hlt) with hlt | heq
      · exact .inl hlt
      · exact .inr ⟨heq, this⟩
  | _ => trivial

/-- A right operand fits when it binds at the level that the operator grants it. -/
theorem BindsAt.fitsRight {e : Expr} {op : BinaryOperator} (h : e.BindsAt op.rightLevel) :
    e.FitsRight op := by
  cases e with
  | binary left other right span =>
    have hle : op.rightLevel ≤ other.level := h other rfl
    rw [FitsRight]
    revert hle
    cases op <;> cases other <;> decide
  | _ => trivial

end Expr

/-- The operands of the steps are well-formed and not built with infix operators. -/
def OperandsWellFormed (steps : List InfixStep) : Prop :=
  ∀ step ∈ steps, (Node.expr step.operand).WellFormed ∧ step.operand.nodeKind ≠ .binaryExpr

theorem wellFormed_combine {left right : Expr} {op : BinaryOperator}
    (hleft : (Node.expr left).WellFormed) (hright : (Node.expr right).WellFormed)
    (hfitsLeft : left.FitsLeft op) (hfitsRight : right.FitsRight op) :
    (Node.expr (left.combine op right)).WellFormed := by
  rw [Node.wellFormed_iff]
  refine ⟨⟨hfitsLeft, hfitsRight⟩, ?_⟩
  simpa [Expr.combine, Node.children, Node.fields, Expr.fields] using ⟨hleft, hright⟩

/-- Climbing respects the levels of the operators: the tree binds at the level that was asked for,
and the first step that is left is one that neither the tree takes nor its last operand. -/
theorem wellFormed_climb (least : Nat) {left : Expr} {steps : List InfixStep}
    (hleft : (Node.expr left).WellFormed) (hbinds : left.BindsAt least)
    (hends : left.EndsBefore steps) (hsteps : OperandsWellFormed steps) :
    (Node.expr (climb least left steps).tree).WellFormed ∧
      (climb least left steps).tree.BindsAt least ∧
      (climb least left steps).tree.EndsBefore (climb least left steps).rest ∧
      OperandsWellFormed (climb least left steps).rest ∧
      ∀ step, (climb least left steps).rest.head? = some step → step.op.level < least := by
  fun_induction climb least left steps with
  | case1 least left =>
    refine ⟨hleft, hbinds, hends, hsteps, fun step hstep => ?_⟩
    cases hstep
  | case2 least left step tail hlt =>
    refine ⟨hleft, hbinds, hends, hsteps, fun other hother => ?_⟩
    obtain rfl := Option.some.inj hother
    exact hlt
  | case3 least left step tail hge right rest hle hright whole rest' hle' hwhole ih₁ ih₂ =>
    obtain ⟨hoperand, htail⟩ := List.forall_mem_cons.1 hsteps
    have hroot := Expr.rootOperator?_eq_none hoperand.2
    obtain ⟨hwf, hbinds₁, -, hrest, hhead⟩ := ih₁ hoperand.1
      (fun op hop => by rw [hroot] at hop; cases hop)
      (fun op _ hop => by rw [hroot] at hop; cases hop) htail
    rw [hright] at hwf hbinds₁ hrest hhead
    rw [hwhole] at ih₂
    refine ih₂ (wellFormed_combine hleft hwf hends.fitsLeft hbinds₁.fitsRight) ?_ ?_ hrest
    · rintro op hop
      obtain rfl : step.op = op := Option.some.inj hop
      omega
    · rintro op next hop hnext
      obtain rfl : step.op = op := Option.some.inj hop
      exact hhead next hnext

theorem wellFormed_groupInfix {first : Expr} {steps : List InfixStep}
    (hfirst : (Node.expr first).WellFormed) (hkind : first.nodeKind ≠ .binaryExpr)
    (hsteps : OperandsWellFormed steps) : (Node.expr (groupInfix first steps)).WellFormed := by
  have hroot := Expr.rootOperator?_eq_none hkind
  exact (wellFormed_climb 0 hfirst (fun _ _ => Nat.zero_le _)
    (fun op _ hop => by rw [hroot] at hop; cases hop) hsteps).1

namespace Grammar

open PklSyntax.Parser

variable {g : Grammar} {ctx : Context} {s : State}

/-! ### Selections -/

theorem isBare_select {target : Expr} {access : Access} (htarget : target.IsSelectable)
    (haccess : (Node.access access).WellFormed) : (select target access).IsBare where
  wellFormed := by
    rw [Node.wellFormed_iff]
    refine ⟨htarget.kind, ?_⟩
    simpa [select, Node.children, Node.fields, Expr.fields] using ⟨htarget.wellFormed, haccess⟩
  kind := by simp [select, Expr.nodeKind, NodeKind.operations]
  notAmended := by simp [select, Expr.nodeKind]

/-- A unit literal is a primary expression. -/
theorem isBare_unitLiteral {target e : Expr} {member : Member}
    (h : unitLiteral? target member = some e) : e.IsBare := by
  cases target with
  | number amount =>
    cases member with
    | identifier name =>
      simp only [unitLiteral?] at h
      split at h
      · cases h
      · split at h <;> cases h <;>
          exact .of_children trivial (by simp [Node.children, Node.fields, Expr.fields])
            (by simp [Expr.nodeKind, NodeKind.operations])
    | call => cases h
  | _ => cases h

theorem Grows.dotAccess (hg : g.Grows ctx) {target : Expr} (htarget : target.IsSelectable) :
    (g.dotAccess target).Grows ctx s fun e _ => e.IsBare := by
  refine .look position_looks ((advance_grows 1).bind fun _ s₁ _ _ => hg.member.bind
    fun member s₂ _ hmember => .pure ?_)
  have hselect : (select target (.dot member ⟨s.pos, member.span.stop⟩)).IsBare := by
    refine isBare_select htarget ?_
    rw [Node.wellFormed_iff]
    exact ⟨trivial, by simpa [Node.children, Node.fields, Access.fields] using hmember⟩
  split
  · cases hunit : unitLiteral? target member with
    | some e => exact isBare_unitLiteral hunit
    | none => exact hselect
  · exact hselect

theorem Grows.nullSafeAccess (hg : g.Grows ctx) {target : Expr} (htarget : target.IsSelectable) :
    (g.nullSafeAccess target).Grows ctx s fun e _ => e.IsBare := by
  refine .look position_looks ((advance_grows 2).bind fun _ s₁ _ _ => hg.member.bind
    fun member s₂ _ hmember => .pure (isBare_select htarget ?_))
  rw [Node.wellFormed_iff]
  exact ⟨trivial, by simpa [Node.children, Node.fields, Access.fields] using hmember⟩

theorem Grows.bracketAccess (hg : g.Grows ctx) {target : Expr} (htarget : target.IsSelectable) :
    (g.bracketAccess target).Grows ctx s fun e _ => e.IsBare := by
  refine .look position_looks ((advance_grows 1).bind fun _ s₁ _ _ => (hg.expr' s₁).bind
    fun index s₂ _ hindex => (expect_grows (by decide)).bind fun close s₃ _ _ =>
      .pure (isBare_select htarget ?_))
  rw [Node.wellFormed_iff]
  exact ⟨trivial, by simpa [Node.children, Node.fields, Access.fields] using hindex⟩

/-! ### Amendments -/

/-- No object body stands behind the trivia at the cursor. -/
def NoBody (text : Array Char) (s : State) : Prop :=
  Settled text s ∧ matchesAt text "\x7b" s.pos = false

theorem Grows.moreBodies (hg : g.Grows ctx) {first : ObjectBody}
    (hfirst : (Node.objectBody first).WellFormed) :
    (g.moreBodies first).Grows ctx s fun bodies s' => bodies.toList ≠ [] ∧
      (∀ body ∈ bodies.toList, (Node.objectBody body).WellFormed) ∧ NoBody ctx.text s' := by
  refine .repeating (fun (bodies : Array ObjectBody) _ => bodies.toList ≠ [] ∧
      ∀ body ∈ bodies.toList, (Node.objectBody body).WellFormed) (by simpa using hfirst)
      fun bodies s₁ _ hbodies => (atToken_grows "\x7b").bind fun found s₂ _ hfound =>
        .ite (fun _ => (hg.body s₂).bind fun body s₃ _ hbody =>
          .pure ⟨by simp, forall_mem_toList_push hbodies.2 hbody⟩) fun hnone => .pure ?_
  obtain ⟨rfl, rfl⟩ := hfound
  exact ⟨hbodies.1, hbodies.2, settled_skipTrivia s₁, hnone⟩

theorem nodeKind_of_isLiteral {e : Expr} (h : isLiteral e = false) :
    e.nodeKind ∉ NodeKind.literals := by
  cases e <;> simp [isLiteral, Expr.nodeKind, NodeKind.literals] at h ⊢

/-- What is amended is no literal, and no object bodies stand behind it yet. -/
theorem isSelectable_amend {base : Expr} {first : ObjectBody} {others : List ObjectBody} {span : Span}
    (hbase : base.IsBare) (hliteral : isLiteral base = false)
    (hfirst : (Node.objectBody first).WellFormed)
    (hothers : ∀ body ∈ others, (Node.objectBody body).WellFormed) :
    (amend base first others span).IsSelectable := by
  have hplain (hparen : base.nodeKind ≠ .parenExpr) :
      (Expr.amended base (first :: others) span).IsSelectable := by
    refine ⟨(Node.wellFormed_iff _).2 ⟨⟨?_, List.cons_ne_nil _ _⟩, ?_⟩,
      by simp [Expr.nodeKind, NodeKind.operations]⟩
    · simp only [List.mem_append, List.mem_cons, List.not_mem_nil, or_false, not_or]
      exact ⟨⟨nodeKind_of_isLiteral hliteral, hparen, hbase.notAmended⟩, hbase.kind⟩
    · simpa [Node.children, Node.fields, Expr.fields, or_imp, forall_and]
        using ⟨hbase.wellFormed, hfirst, hothers⟩
  cases base with
  | paren inner span' =>
    have hinner : (Node.expr inner).WellFormed := ((Node.wellFormed_iff _).1 hbase.wellFormed).2 _
      (by simp [Node.children, Node.fields, Expr.fields])
    have hamend (span : Span) : (Node.expr (.amend inner first span)).WellFormed := by
      rw [Node.wellFormed_iff]
      exact ⟨trivial, by simpa [Node.children, Node.fields, Expr.fields] using ⟨hinner, hfirst⟩⟩
    cases others with
    | nil => exact ⟨hamend _, by simp [amend, Expr.nodeKind, NodeKind.operations]⟩
    | cons second others =>
      refine ⟨(Node.wellFormed_iff _).2 ⟨⟨?_, List.cons_ne_nil _ _⟩, ?_⟩,
        by simp [amend, Expr.nodeKind, NodeKind.operations]⟩
      · simp [Expr.nodeKind, NodeKind.literals, NodeKind.operations]
      · simpa [amend, Node.children, Node.fields, Expr.fields, or_imp, forall_and]
          using ⟨hamend _, by simpa using hothers⟩
  | number => cases hliteral
  | _ => exact hplain (by simp [Expr.nodeKind])

theorem Grows.amendments (hg : g.Grows ctx) {base : Expr} (hbase : base.IsBare)
    (hliteral : isLiteral base = false) :
    (g.amendments base).Grows ctx s fun e s' => e.IsSelectable ∧ NoBody ctx.text s' := by
  refine (hg.body s).bind fun first s₁ _ hfirst => (hg.moreBodies hfirst).bind
    fun bodies s₂ _ hbodies => .pure ⟨?_, hbodies.2.2⟩
  exact isSelectable_amend hbase hliteral hfirst fun body hbody =>
    hbodies.2.1 body (List.mem_of_mem_drop hbody)

/-- An expression in front of which selections and amendments have been read: behind an amended
value no more bodies stand. -/
structure Selected (text : Array Char) (e : Expr) (s : State) : Prop extends e.IsSelectable where
  noBody : e.nodeKind = .amendedValue → NoBody text s

theorem selected_of_isBare {e : Expr} (h : e.IsBare) : Selected ctx.text e s :=
  ⟨h.toIsSelectable, fun hkind => absurd hkind h.notAmended⟩

/-- One more selection or amendment of an expression, or none. -/
theorem Grows.postfixStep (hg : g.Grows ctx) {target : Expr}
    (htarget : Selected ctx.text target s) :
    (g.postfixStep target).Grows ctx s fun round s' =>
      round.Meets (Selected ctx.text · s') fun e => e.IsSelectable := by
  have hselectable := htarget.toIsSelectable
  refine skip_grows.bind fun _ s₁ _ hskip => ?_
  refine .look (startsWith_looks _) (.ite (fun _ => (hg.nullSafeAccess hselectable).bind
    fun e s₂ _ he => .pure (selected_of_isBare he)) fun _ => ?_)
  refine .look (startsWith_looks _) (.look (startsWith_looks _) (.ite (fun _ =>
    (hg.dotAccess hselectable).bind fun e s₂ _ he => .pure (selected_of_isBare he)) fun _ => ?_))
  refine .look (startsWith_looks _) (.look (newlineSince_looks _) (.ite (fun _ =>
    (hg.bracketAccess hselectable).bind fun e s₂ _ he => .pure (selected_of_isBare he)) fun _ => ?_))
  refine .look (startsWith_looks _) (.ite (fun _ => ?_) fun _ => ?_)
  · refine (advance_grows 2).bind fun _ s₂ _ _ => .look position_looks (.pure (selected_of_isBare ?_))
    refine ⟨⟨(Node.wellFormed_iff _).2 ⟨hselectable.kind, ?_⟩, ?_⟩, by simp [Expr.nodeKind]⟩
    · simpa [Node.children, Node.fields, Expr.fields] using hselectable.wellFormed
    · simp [Expr.nodeKind, NodeKind.operations]
  refine .look (startsWith_looks _) (.ite (fun hbrace => ?_) fun _ => .pure hselectable)
  rw [Bool.and_eq_true, Bool.not_eq_true'] at hbrace
  have hbare : target.IsBare := ⟨hselectable, fun hkind => by
    -- Behind an amended value nothing is skipped, and no brace stands there.
    obtain ⟨hsettled, hnone⟩ := htarget.noBody hkind
    rw [hskip, hsettled, hnone] at hbrace
    cases hbrace.1⟩
  exact (hg.amendments hbare hbrace.2).bind fun e s₂ _ he => .pure ⟨he.1, fun _ => he.2⟩

/-! ### Type tests and prefix operators -/

/-- A well-formed expression of the level of type tests. -/
structure IsTested (e : Expr) : Prop where
  wellFormed : (Node.expr e).WellFormed
  kind : e.nodeKind ∉ [NodeKind.unaryExpr, NodeKind.binaryExpr]

theorem Grows.typeTestStep (hg : g.Grows ctx) {e : Expr} (he : IsTested e) :
    (g.typeTestStep e).Grows ctx s fun round _ => round.Meets IsTested IsTested := by
  refine skip_grows.bind fun _ s₁ _ _ => .look (atWord_looks _) (.ite (fun _ => ?_) fun _ =>
    .look (atWord_looks _) (.ite (fun _ => ?_) fun _ => .pure he))
  all_goals
    refine (advance_grows 2).bind fun _ s₂ _ _ => (hg.type s₂).bind fun type s₃ _ htype =>
      .pure ⟨(Node.wellFormed_iff _).2 ⟨he.kind, ?_⟩, by simp [Expr.nodeKind]⟩
    simpa [Node.children, Node.fields, Expr.fields] using ⟨he.wellFormed, htype⟩

theorem prefixStep_grows {operators : List (UnaryOperator × Nat)} :
    (prefixStep operators).Grows ctx s fun round _ =>
      round.Meets (fun _ => True) fun _ => True := by
  refine skip_grows.bind fun _ s₁ _ _ => .look position_looks (.look (startsWith_looks _)
    (.look (startsWith_looks _) (.ite (fun _ => ?_) fun _ => ?_)))
  · exact (advance_grows 1).bind fun _ s₂ _ _ => .pure trivial
  refine .look (startsWith_looks _) (.look (startsWith_looks _) (.ite (fun _ => ?_)
    fun _ => .pure trivial))
  exact (advance_grows 1).bind fun _ s₂ _ _ => .pure trivial

/-- The operand of a prefix operator is not built with an infix operator, and neither is what the
two make. -/
theorem wellFormed_applyPrefixes (operators : List (UnaryOperator × Nat)) {e : Expr}
    (he : (Node.expr e).WellFormed) (hkind : e.nodeKind ≠ .binaryExpr) :
    (Node.expr (applyPrefixes operators e)).WellFormed ∧
      (applyPrefixes operators e).nodeKind ≠ .binaryExpr := by
  induction operators generalizing e with
  | nil => exact ⟨he, hkind⟩
  | cons operator others ih =>
    obtain ⟨op, start⟩ := operator
    refine ih ((Node.wellFormed_iff _).2 ⟨hkind, ?_⟩) (by simp [Expr.nodeKind])
    simpa [Node.children, Node.fields, Expr.fields] using he

theorem Grows.operand (hg : g.Grows ctx) :
    g.operand.Grows ctx s fun e s' =>
      (Node.expr e).WellFormed ∧ e.nodeKind ≠ .binaryExpr ∧ Advanced ctx.text s s' := by
  refine .bind (P := fun _ _ => True) (.repeating (fun _ _ => True) trivial
    fun operators s₁ _ _ => prefixStep_grows) fun operators s₁ h₁ _ => ?_
  refine hg.primary.bind fun primary s₂ _ hprimary => ?_
  refine .bind (P := fun e _ => e.IsSelectable) (.repeating (fun e s' => Selected ctx.text e s')
    (selected_of_isBare hprimary.1) fun e s₃ _ he => hg.postfixStep he) fun selected s₃ h₃ hselected => ?_
  refine .bind (P := fun e _ => IsTested e) (.repeating (fun e _ => IsTested e)
    ⟨hselected.wellFormed, fun hmem => hselected.kind ?_⟩ fun e s₄ _ he => hg.typeTestStep he)
    fun tested s₄ h₄ htested => .pure ?_
  · simp only [List.mem_cons, List.not_mem_nil, or_false] at hmem
    rcases hmem with hmem | hmem <;> simp [hmem, NodeKind.operations]
  · have hkind : tested.nodeKind ≠ .binaryExpr := fun h => htested.kind (by simp [h])
    obtain ⟨hwf, hkind⟩ := wellFormed_applyPrefixes operators htested.wellFormed hkind
    exact ⟨hwf, hkind, ((h₁.advanced hprimary.2).grown h₃).grown h₄⟩

/-! ### Expressions -/

theorem infixOperator?_grows (left : Expr) : (infixOperator? left).Grows ctx s fun _ _ => True := by
  refine skip_grows.bind fun _ s₁ _ _ => .look (firstOperator?_looks _) ?_
  split
  · exact .look (startsWith_looks _) (.look (newlineSince_looks _) (.ite (fun _ => .pure trivial)
      fun _ => .pure trivial))
  · exact .pure trivial

theorem Grows.infixSteps (hg : g.Grows ctx) (first : Expr) :
    (g.infixSteps first).Grows ctx s fun steps _ => OperandsWellFormed steps.toList := by
  refine .repeating (fun steps _ => OperandsWellFormed steps.toList) (by simp [OperandsWellFormed])
    fun steps s₁ _ hsteps => (infixOperator?_grows _).bind fun op? s₂ _ _ => ?_
  cases op? with
  | none => exact .pure hsteps
  | some op =>
    exact (advance_grows _).bind fun _ s₃ _ _ => hg.operand.bind fun right s₄ _ hright =>
      .pure (forall_mem_toList_push hsteps ⟨hright.1, hright.2.1⟩)

theorem Grows.expressionRule (hg : g.Grows ctx) :
    g.expressionRule.Grows ctx s fun e s' => (Node.expr e).WellFormed ∧ Advanced ctx.text s s' := by
  refine hg.operand.bind fun first s₁ _ hfirst => (hg.infixSteps first).bind
    fun steps s₂ h₂ hsteps => ?_
  dsimp only
  split
  · exact throw_tooDeep_grows.bind (P := fun _ _ => False) fun _ _ _ h => h.elim
  · exact .pure ⟨wellFormed_groupInfix hfirst.1 hfirst.2.1 hsteps, hfirst.2.2.grown h₂⟩

end Grammar

end PklSyntax
