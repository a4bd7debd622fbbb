import PklSyntax.Proofs.LineEnding.Expression

/-!
# Other line endings: parts of declarations

What stands in front of a declaration, properties and functions, which are also members of objects and
of classes, and declarations but for what counts errors: the bodies of classes.

## Main statements

* `Grammar.Follows.preamble`, `Grammar.Follows.propertyRule`, `Grammar.Follows.functionRule`.
* `Grammar.Follows.classMember`, `Grammar.Follows.classHead`: of a class, all but its body.
-/

namespace PklSyntax

open PklSyntax.Parser

namespace LineFeeds

variable {W : LineFeeds} {s : State}

/-- A modifier is written within a line. -/
theorem inLine_keyword (m : Modifier) : InLine m.keyword := by cases m <;> decide

theorem firstModifier?_place (i : Nat) :
    (Modifier.all.find? fun m => wordAt W.crlf m.keyword (W.place i)) =
      Modifier.all.find? fun m => wordAt W.text m.keyword i :=
  congrArg (Modifier.all.find? ·) (funext fun m => wordAt_place (inLine_keyword m) i)

theorem modifiers_follows : W.FollowsAt id modifiers modifiers s := by
  refine .repeating (f := id) (fun found s₁ => skip_follows.bind fun _ s₂ _ =>
    .look (firstModifier?_looks _) (firstModifier?_looks _) (firstModifier?_place s₂.pos) ?_) rfl
  cases hfound : Modifier.all.find? fun m => wordAt W.text m.keyword s₂.pos with
  | none => exact .pure rfl
  | some m =>
    have hword : wordAt W.text m.keyword s₂.pos = true :=
      List.find?_some (p := fun m : Modifier => wordAt W.text m.keyword s₂.pos) hfound
    exact (advance_word_follows _ (inLine_keyword m) (matchesAt_of_wordAt hword) (Nat.le_refl _)).bind
      fun _ _ _ => .pure rfl

theorem variance_follows : W.FollowsAt id variance variance s :=
  .atWord (by decide) (.ite rfl
    (fun hword => (advance_word_follows "in" (by decide) (matchesAt_of_wordAt hword)
      (Nat.le_refl 2)).bind fun _ _ _ => .pure rfl)
    fun _ => .atWord (by decide) (.ite rfl
      (fun hword => (advance_word_follows "out" (by decide) (matchesAt_of_wordAt hword)
        (Nat.le_refl 3)).bind fun _ _ _ => .pure rfl)
      fun _ => .pure rfl))

end LineFeeds

namespace Grammar

variable {g : Grammar} {W : LineFeeds} {s : State}

/-! ### In front of a declaration -/

theorem Follows.annotationRule (hg : g.Follows W) (hsign : charAt W.text s.pos ≠ '\n') :
    W.FollowsAt ( Annotation.placed W.placement) g.annotationRule g.annotationRule s := by
  refine .position ((LineFeeds.advance_sign_follows hsign).bind fun _ _ _ =>
    (LineFeeds.qualifiedName_follows _).bind fun name _ _ => LineFeeds.announced_follows
      (LineFeeds.atToken_follows "\x7b" (by decide)) hg.body fun body? _ => .pure ?_)
  cases body? <;> simp [ Annotation.placed_mk, NamedType.placed, Placement.span]

theorem Follows.annotationRules (hg : g.Follows W) :
    W.FollowsAt (List.map ( Annotation.placed W.placement)) g.annotationRules g.annotationRules s := by
  refine .bind (f := Array.map ( Annotation.placed W.placement))
    (.repeating (f := Array.map ( Annotation.placed W.placement)) (fun annotations s₁ => ?_) (by simp))
    fun _ _ _ => .pure Array.toList_map
  refine (LineFeeds.atToken_follows "@" (by decide)).bind fun found s₂ h₂ =>
    .ite rfl (fun hfound => ?_)
    fun _ => .pure rfl
  have hsign : matchesAt W.text "@" s₂.pos = true := ((atToken_grows "@").of_ok h₂).2.2 ▸ hfound
  exact (hg.annotationRule (LineFeeds.ne_lineFeed_of_matchesAt (by decide) hsign)).bind fun _ _ _ =>
    .pure (by simp [Round.map])

theorem Follows.preamble (hg : g.Follows W) :
    W.FollowsAt (Preamble.placed W.placement) g.preamble g.preamble s := by
  refine .position (LineFeeds.takeDoc_follows.bind fun doc? _ _ => hg.annotationRules.bind fun _ _ _ =>
    LineFeeds.modifiers_follows.bind fun _ _ _ => LineFeeds.skip_follows.bind fun _ _ _ => .pure ?_)
  cases doc? <;> simp [Preamble.placed, DocComment.placed]

/-! ### Type parameters -/

theorem Follows.typeParameter (hg : g.Follows W) :
    W.FollowsAt (TypeParameter.placed W.placement) g.typeParameter g.typeParameter s :=
  LineFeeds.skip_follows.bind fun _ _ _ => .position (LineFeeds.variance_follows.bind fun _ s₂ _ =>
    (hg.type s₂).bind fun _ _ _ => .pure (by simp [TypeParameter.placed, Placement.span]))

theorem Follows.typeParameters (hg : g.Follows W) (stop : Int) :
    W.FollowsAt (Prod.map (List.map (TypeParameter.placed W.placement)) W.placement.offset)
      (g.typeParameters stop) (g.typeParameters (W.placement.offset stop)) s := by
  refine (LineFeeds.accept?_follows "<" (by decide)).bind fun opening? s₁ _ => ?_
  cases opening? with
  | none => exact .pure rfl
  | some opening =>
    refine (LineFeeds.accept?_follows ">" (by decide)).bind fun close? s₂ _ => ?_
    cases close? with
    | some close =>
      simp only [Option.map_some, Placement.span_cover]
      exact (LineFeeds.report_follows rfl).bind fun _ _ _ => .pure rfl
    | none =>
      refine hg.typeParameter.bind fun first _ _ => .bind
        (f := Array.map (TypeParameter.placed W.placement))
        (.repeating (f := Array.map (TypeParameter.placed W.placement)) (fun params s₄ => ?_) (by simp))
        fun params _ _ => (LineFeeds.expect_follows ">" (by decide)).bind fun close _ _ =>
          .pure (by simp)
      exact (LineFeeds.accept_follows "," (by decide)).bind fun _ _ _ => .ite rfl
        (fun _ => hg.typeParameter.bind fun _ _ _ => .pure (by simp [Round.map])) fun _ => .pure rfl

/-! ### Properties and functions -/

theorem Follows.objectForm (hg : g.Follows W) :
    W.FollowsAt (ObjectForm.placed W.placement) g.objectForm g.objectForm s := by
  refine (hg.body s).bind fun first _ _ => (hg.moreBodies first).bind fun bodies _ _ => .pure ?_
  rw [Array.getD_back?_map]
  simp [ObjectForm.placed, Placement.span]

theorem Follows.propertyForm (hg : g.Follows W) (name : Identifier) :
    W.FollowsAt (PropertyForm.placed W.placement) (g.propertyForm name)
      (g.propertyForm (name.placed W.placement)) s := by
  refine (LineFeeds.atToken_follows "\x7b" (by decide)).bind fun _ s₁ _ => .ite rfl
    (fun _ => hg.objectForm.bind fun _ _ _ => .pure (by simp [PropertyForm.placed])) fun _ =>
      LineFeeds.announced_follows (LineFeeds.accept_follows ":" (by decide)) hg.type fun type? s₂ =>
        LineFeeds.atAssign_follows.bind fun assign s₃ h₃ => .ite rfl (fun hassign => ?_) fun _ => ?_
  · refine (LineFeeds.advance_assign_follows h₃ hassign).bind fun _ s₄ _ => (hg.expr s₄).bind
      fun value _ _ => .pure ?_
    cases type? <;> simp [PropertyForm.placed_init, Placement.span]
  · cases type? with
    | some type => exact .pure (by simp [PropertyForm.placed])
    | none => exact LineFeeds.failWith_follows

theorem Follows.propertyRule (hg : g.Follows W) (before : Preamble) :
    W.FollowsAt (PropertyDecl.placed W.placement) (g.propertyRule before)
      (g.propertyRule (before.placed W.placement)) s :=
  (LineFeeds.expectName_follows _).bind fun name _ _ => (hg.propertyForm name).bind fun form _ _ =>
    .pure (by simp [PropertyDecl.placed, Preamble.placed, Placement.span])

theorem Follows.functionRule (hg : g.Follows W) (before : Preamble)
    (hword : wordAt W.text "function" s.pos = true) :
    W.FollowsAt (FunctionDecl.placed W.placement) (g.functionRule before)
      (g.functionRule (before.placed W.placement)) s := by
  refine (LineFeeds.advance_word_follows "function" (by decide) (matchesAt_of_wordAt hword)
    (Nat.le_refl _)).bind fun _ _ _ => (LineFeeds.expectName_follows _).bind fun name _ _ =>
      (hg.typeParameters _).bind fun typeParams _ _ => hg.params.bind fun params _ _ =>
        LineFeeds.announced_follows (LineFeeds.accept_follows ":" (by decide)) hg.type
          fun result? s₅ =>
          LineFeeds.atAssign_follows.bind fun assign s₆ h₆ => ?_
  obtain ⟨typeParams, -⟩ := typeParams
  obtain ⟨params, stop⟩ := params
  have hdone (body? : Option Expr) (s : State) : W.FollowsAt (FunctionDecl.placed W.placement)
      (pure ⟨before.modifiers, name, typeParams, params, result?, body?, before.doc, before.annotations,
        ⟨before.start, (body?.map Expr.span).elim ((result?.map TypeExpr.span).elim stop Span.stop)
          Span.stop⟩⟩)
      (pure ⟨before.modifiers, name.placed W.placement,
        typeParams.map (TypeParameter.placed W.placement), params.map (Param.placed W.placement),
        result?.map (TypeExpr.placed W.placement), body?.map (Expr.placed W.placement),
        before.doc.map (DocComment.placed W.placement),
        before.annotations.map ( Annotation.placed W.placement),
        ⟨W.placement.offset before.start, ((body?.map (Expr.placed W.placement)).map Expr.span).elim
          (((result?.map (TypeExpr.placed W.placement)).map TypeExpr.span).elim
            (W.placement.offset stop) Span.stop) Span.stop⟩⟩) s := by
    refine .pure ?_
    cases result? <;> cases body? <;> simp [FunctionDecl.placed_mk, Placement.span]
  exact .option rfl (fun hassign => LineFeeds.advance_assign_follows h₆ hassign) fun s₇ =>
    .join (f := Option.map (Expr.placed W.placement)) rfl (fun _ => (hg.expr s₇).map fun _ => rfl)
      (fun _ => .pure rfl) hdone

/-! ### Classes -/

theorem Follows.classMember (hg : g.Follows W) :
    W.FollowsAt (ClassMember.placed W.placement) g.classMember g.classMember s :=
  hg.preamble.bind fun before _ _ => .atWord (by decide) (.ite rfl
    (fun hword => (hg.functionRule before hword).bind fun _ _ _ => .pure rfl)
    fun _ => .atIdentifier fun _ => .ite rfl
      (fun _ => (hg.propertyRule before).bind fun _ _ _ => .pure rfl)
      fun _ => LineFeeds.failExpected_follows _)

theorem Follows.classHead (hg : g.Follows W) (before : Preamble)
    (hword : wordAt W.text "class" s.pos = true) :
    W.FollowsAt (ClassHead.placed W.placement) (g.classHead before)
      (g.classHead (before.placed W.placement)) s := by
  refine (LineFeeds.advance_word_follows "class" (by decide) (matchesAt_of_wordAt hword)
    (Nat.le_refl _)).bind fun _ _ _ => (LineFeeds.expectName_follows _).bind fun name _ _ =>
      (hg.typeParameters _).bind fun typeParams _ _ => LineFeeds.announced_follows
        (LineFeeds.acceptKeyword_follows "extends" (by decide)) hg.type fun parent? _ => .pure ?_
  cases parent? <;> simp [ClassHead.placed]

/-! ### Clauses without a source -/

theorem moduleClauseRule_follows (before : Preamble) (hword : wordAt W.text "module" s.pos = true) :
    W.FollowsAt (ModuleClause.placed W.placement) (moduleClauseRule before)
      (moduleClauseRule (before.placed W.placement)) s :=
  (LineFeeds.advance_word_follows "module" (by decide) (matchesAt_of_wordAt hword)
    (Nat.le_refl _)).bind fun _ _ _ => LineFeeds.skip_follows.bind fun _ _ _ =>
      (LineFeeds.qualifiedName_follows _).bind fun name _ _ =>
        .pure (by simp [ModuleClause.placed, Preamble.placed, NamedType.placed, Placement.span])

theorem Follows.typeAliasRule (hg : g.Follows W) (before : Preamble)
    (hword : wordAt W.text "typealias" s.pos = true) :
    W.FollowsAt (TypeAliasDecl.placed W.placement) (g.typeAliasRule before)
      (g.typeAliasRule (before.placed W.placement)) s :=
  (LineFeeds.advance_word_follows "typealias" (by decide) (matchesAt_of_wordAt hword)
    (Nat.le_refl _)).bind fun _ _ _ => (LineFeeds.expectName_follows _).bind fun name _ _ =>
      (hg.typeParameters _).bind fun typeParams _ _ =>
        (LineFeeds.expect_follows "=" (by decide)).bind
        fun _ s₄ _ => (hg.type s₄).bind fun aliased _ _ =>
          .pure (by simp [TypeAliasDecl.placed, Preamble.placed, Placement.span])

end Grammar

end PklSyntax
