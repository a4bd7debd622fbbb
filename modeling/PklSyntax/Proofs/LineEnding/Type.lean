import PklSyntax.Proofs.LineEnding.String

/-!
# Other line endings: types

A production follows itself when what may stand inside it does. Besides, what stands inside is to give
well-formed trees in either text: where a production reads ahead and goes back, the first run has kept
what was on record, and so has the second one.

## Main definitions

* `Grammar.Follows`: the grammar for what stands inside does the same with the other line endings.

## Main statements

* `Grammar.Follows.string`: strings of a grammar.
* `Grammar.Follows.typeRule`: types.
-/

namespace PklSyntax

open PklSyntax.Parser

/-- What the grammar reads in the text with other line endings is what it reads in the first text, at
its new place. In both texts it gives well-formed trees and loses nothing that is on record. -/
structure Grammar.Follows (g : Grammar) (W : LineFeeds) : Prop where
  grows : g.Grows W.front
  grows_behind : g.Grows W.behind
  expr : ∀ s, W.FollowsAt (Expr.placed W.placement) g.expr g.expr s
  type : ∀ s, W.FollowsAt (TypeExpr.placed W.placement) g.type g.type s
  body : ∀ s, W.FollowsAt (ObjectBody.placed W.placement) g.body g.body s

namespace LineFeeds

variable {W : LineFeeds} {s : State}

/-- Moving over a sign that was seen at the cursor. -/
theorem advance_seen_follows {c : Char} (h : (charAt W.text s.pos == c) = true)
    (hc : c ≠ '\n') : W.FollowsAt id (advance 1) (advance 1) s :=
  advance_sign_follows (by rwa [beq_iff_eq.1 h])

/-- A sign that was seen at the cursor, with its span. -/
theorem takeSign_follows (h : charAt W.text s.pos ≠ '\n') :
    W.FollowsAt W.placement.span (takeToken 1) (takeToken 1) s :=
  .position ((advance_sign_follows h).bind fun _ _ _ => .value (spanFrom_looks _) (spanFrom_looks _) rfl)

end LineFeeds

namespace Grammar

variable {g : Grammar} {W : LineFeeds} {s : State}

/-! ### Strings of a grammar -/

theorem Follows.string (hg : g.Follows W) (hstring : stringAt W.text s.pos = true) :
    W.FollowsAt (StringLiteral.placed W.placement) g.string g.string s :=
  .theOptions (LineFeeds.stringLiteral_follows _ hg.grows.expr' hg.expr hstring)

/-! ### Arguments and parentheses -/

theorem Follows.typeArguments (hg : g.Follows W) (base : NamedType)
    (hopen : (charAt W.text s.pos == '<') = true) :
    W.FollowsAt (TypeExpr.placed W.placement) (g.typeArguments base)
      (g.typeArguments (base.placed W.placement)) s := by
  refine (LineFeeds.takeSign_follows (by rw [beq_iff_eq.1 hopen]; decide)).bind fun opening s₁ _ =>
    (LineFeeds.commaList_follows hg.type (by decide)).bind fun args s₂ _ =>
      (LineFeeds.expect_follows ">" (by decide)).bind
      fun close s₃ _ => .ite List.isEmpty_map (fun _ => ?_) fun _ => .pure ?_
  · rw [Placement.span_cover]
    exact (LineFeeds.report_follows rfl).bind fun _ _ _ =>
      .pure (by simp [TypeExpr.placed, NamedType.placed, Placement.span])
  · simp [TypeExpr.placed, NamedType.placed, Placement.span]

theorem Follows.arrowResult? (hg : g.Follows W) :
    W.FollowsAt (Option.map (TypeExpr.placed W.placement)) g.arrowResult? g.arrowResult? s := by
  refine .mark (LineFeeds.skip_follows.bind fun _ s₁ h₁ => .startsWith (by decide)
    (.ite rfl (fun harrow => ?_) fun _ => ?_))
  · exact (LineFeeds.advance_word_follows "->" (by decide) harrow (Nat.le_refl 2)).bind fun _ s₂ _ =>
      (hg.type s₂).bind fun _ _ _ => .pure rfl
  · exact .rewind (skip_grows.of_ok h₁).1.toKept (.pure rfl)

theorem Follows.parenthesizedType (hg : g.Follows W) (hopen : (charAt W.text s.pos == '(') = true) :
    W.FollowsAt (TypeExpr.placed W.placement) g.parenthesizedType g.parenthesizedType s := by
  refine .position ((LineFeeds.advance_seen_follows hopen (by decide)).bind fun _ s₁ _ =>
    (LineFeeds.commaList_follows hg.type (by decide)).bind fun params s₂ _ =>
      (LineFeeds.expect_follows ")" (by decide)).bind
      fun close s₃ _ => hg.arrowResult?.bind fun result? s₄ _ => ?_)
  cases result? with
  | some result => exact .pure (by simp [TypeExpr.placed, Placement.span])
  | none =>
    cases params with
    | nil => exact LineFeeds.failExpected_follows _
    | cons type more =>
      cases more with
      | nil => exact .pure (by simp [← TypeExpr.withSpan_placed, Placement.span])
      | cons => exact LineFeeds.failExpected_follows _

theorem Follows.stringType (hg : g.Follows W) (hstring : stringAt W.text s.pos = true) :
    W.FollowsAt (TypeExpr.placed W.placement) g.stringType g.stringType s :=
  (hg.string hstring).bind fun literal s₁ _ => .guard (by rw [StringLiteral.isConstant_placed])
    (failWith_givesUp _ _) (failWith_givesUp _ _) fun _ => .pure (by simp [TypeExpr.placed])

theorem Follows.typeAtom (hg : g.Follows W) :
    W.FollowsAt (TypeExpr.placed W.placement) g.typeAtom g.typeAtom s := by
  refine .peek (.ite (lineEnd_beq (by decide)) (fun hopen => hg.parenthesizedType hopen)
    fun _ => .look atString_looks atString_looks (LineFeeds.stringAt_place s.pos)
      (.ite rfl (fun hstring => hg.stringType hstring) fun _ => .atIdentifier fun _ =>
        .ite rfl (fun _ => ?_) fun _ => LineFeeds.failExpected_follows _))
  exact (LineFeeds.qualifiedName_follows _).bind fun name s₁ _ => .peek
    (.ite (lineEnd_beq (by decide)) (fun hopen => hg.typeArguments name hopen)
      fun _ => .pure (by simp [TypeExpr.placed]))

/-! ### Suffixes and unions -/

theorem Follows.constraints (hg : g.Follows W) (base : TypeExpr)
    (hopen : charAt W.text s.pos ≠ '\n') :
    W.FollowsAt (TypeExpr.placed W.placement) (g.constraints base)
      (g.constraints (base.placed W.placement)) s := by
  refine (LineFeeds.advance_sign_follows hopen).bind fun _ s₁ _ => (hg.expr s₁).bind fun first s₂ _ => ?_
  refine .bind (f := Array.map (Expr.placed W.placement)) (.repeating (f := Array.map (Expr.placed W.placement))
    (fun predicates s₃ => ?_) (by simp)) fun predicates s₃ _ =>
      (LineFeeds.expect_follows ")" (by decide)).bind
      fun close _ _ => .pure (by simp [TypeExpr.placed, Placement.span])
  exact (LineFeeds.accept_follows "," (by decide)).bind fun _ s₄ _ => .ite rfl (fun _ =>
    (hg.expr s₄).bind
    fun e _ _ => .pure (by simp [Round.map])) fun _ => .pure rfl

theorem Follows.typeSuffix (hg : g.Follows W) (base : TypeExpr) :
    W.FollowsAt (Round.map (TypeExpr.placed W.placement) (TypeExpr.placed W.placement))
      (g.typeSuffix base) (g.typeSuffix (base.placed W.placement)) s := by
  refine .peek (.peekAt 1 (.ite ?_ (fun hmark => ?_) fun _ => .ite ?_ (fun hopen => ?_)
    fun _ => .pure rfl))
  · rw [Bool.and_assoc, Bool.and_assoc]
    exact LineFeeds.sign_and (p := fun c => c != '?' && c != '.') (by decide) (by decide) s.pos
  · rw [Bool.and_eq_true, Bool.and_eq_true] at hmark
    exact (LineFeeds.advance_seen_follows hmark.1.1 (by decide)).bind fun _ s₁ _ => .position (.pure
      (by simp [Round.map, TypeExpr.placed, Placement.span]))
  · rw [lineEnd_beq (by decide), isFunctionType_placed]
  · rw [Bool.and_eq_true, beq_iff_eq] at hopen
    exact (hg.constraints base (by rw [hopen.1]; decide)).bind fun _ _ _ => .pure rfl

theorem Follows.typeSegment (hg : g.Follows W) :
    W.FollowsAt (TypeExpr.placed W.placement) g.typeSegment g.typeSegment s := by
  refine LineFeeds.skip_follows.bind fun _ s₁ _ => .position (.peek ?_)
  dsimp only
  rw [lineEnd_beq (by decide)]
  -- The atom with its suffixes, behind the mark of a default or without one.
  have hatom (start : Nat) (marked : Bool) (s : State) : W.FollowsAt (TypeExpr.placed W.placement)
      (do
        let base ← g.typeAtom
        let type ← repeating g.typeSuffix base
        if marked = true then return .default type ⟨start, type.span.stop⟩ else return type)
      (do
        let base ← g.typeAtom
        let type ← repeating g.typeSuffix base
        if marked = true then return .default type ⟨W.place start, type.span.stop⟩ else return type) s :=
    hg.typeAtom.bind fun base s₂ _ => .bind (.repeating (fun type s₃ => hg.typeSuffix type) rfl)
      fun type s₃ _ => .ite rfl (fun _ => .pure (by simp [TypeExpr.placed, Placement.span]))
        fun _ => .pure rfl
  exact .ite rfl (fun hmark => (LineFeeds.advance_seen_follows hmark (by decide)).bind fun _ s₂ _ =>
    LineFeeds.skip_follows.bind fun _ s₃ _ => hatom _ _ s₃) fun _ => hatom _ _ s₁

theorem atUnionBar_follows : W.FollowsAt id atUnionBar atUnionBar s :=
  (LineFeeds.atToken_follows "|" (by decide)).bind fun _ s₁ _ => .ite rfl (fun _ => .pure rfl)
    fun _ =>
    .startsWith (by decide) (.ite rfl (fun _ => .pure rfl) fun _ => .startsWith (by decide) (.pure rfl))

/-- A bar stands behind the trivia when a union goes on there. -/
theorem atUnionBar_bar {ctx : Context} :
    atUnionBar.Grows ctx s fun bar s' => bar = true → matchesAt ctx.text "|" s'.pos = true := by
  refine (atToken_grows "|").bind fun found s₁ _ hfound => .ite (fun _ => .pure nofun) fun hnot =>
    .look (startsWith_looks _) (.ite (fun _ => .pure nofun) fun _ => .look (startsWith_looks _)
      (.pure fun _ => ?_))
  rw [← hfound.2]
  simpa using hnot

theorem Follows.typeRule (hg : g.Follows W) :
    W.FollowsAt (TypeExpr.placed W.placement) g.typeRule g.typeRule s := by
  refine LineFeeds.skip_follows.bind fun _ s₁ _ => .position (hg.typeSegment.bind fun first s₂ _ => ?_)
  refine .bind (f := Array.map (TypeExpr.placed W.placement))
    (.repeating (f := Array.map (TypeExpr.placed W.placement)) (fun members s₃ => ?_) (by simp))
    fun members s₃ _ => ?_
  · refine atUnionBar_follows.bind fun bar s₄ h₄ => .ite rfl (fun hbar => ?_) fun _ => .pure rfl
    subst hbar
    exact (LineFeeds.advance_word_follows "|" (by decide) ((atUnionBar_bar.of_ok h₄).2 rfl)
      (Nat.le_refl 1)).bind fun _ s₅ _ =>
      hg.typeSegment.bind fun _ _ _ => .pure (by simp [Round.map])
  · rw [Array.toList_map, Array.getD_back?_map]
    cases members.toList with
    | nil => exact .pure (by simp [TypeExpr.placed, Placement.span])
    | cons type more =>
      cases more with
      | nil => exact .pure rfl
      | cons =>
        exact .pure (by simp [TypeExpr.placed, Placement.span, unionMembers_placed,
          List.flatMap_map, List.map_flatMap])

end Grammar

end PklSyntax
