import PklSyntax.Proofs.LineEnding.Declaration

/-!
# Other line endings: objects

Whether a property begins at the cursor is found by reading ahead, and the sign behind its name may be
the last one on its line. With the members of objects all of a grammar is read, so that the grammars
of all depths follow themselves.

## Main statements

* `LineFeeds.atPropertyHead_follows`, `LineFeeds.atFieldAmend_follows`: reading ahead.
* `Grammar.Follows.bodyRule`: object bodies.
* `Grammar.follows_nested`: the grammars of all depths.
-/

namespace PklSyntax

open PklSyntax.Parser

namespace LineFeeds

variable {W : LineFeeds} {s : State}

theorem atPropertyHead_follows : W.FollowsAt id atPropertyHead atPropertyHead s := by
  refine .mark ?_
  simp only [propertyName?, bind_assoc, pure_bind]
  refine .attempt identifier?_follows identifier?_grows identifier?_grows rfl rfl (.pure rfl)
    fun name? s₁ h₁ => ?_
  have hkept := (identifier?_grows.of_ok h₁).1.toKept
  rw [Option.join_some, Option.join_some, filter_isKeyword_placed]
  cases name?.filter fun name => !name.isKeyword with
  | none => exact .rewind hkept (.pure rfl)
  | some name =>
    refine skip_follows.bind fun _ s₂ h₂ => .peek (.peekAt 1 ?_)
    refine .rewind (hkept.trans (skip_grows.of_ok h₂).1.toKept) (.pure ?_)
    have hassign := @sign_and W '=' (· != '=') (by decide) (by decide) s₂.pos
    rw [hassign, lineEnd_beq (by decide), lineEnd_beq (by decide)]
    rfl

theorem atFieldAmend_follows : W.FollowsAt id atFieldAmend atFieldAmend s := by
  refine .startsWith (by decide) ?_
  cases hopen : matchesAt W.text "(" s.pos with
  | false => exact .pure rfl
  | true =>
    refine .mark ((advance_word_follows "(" (by decide) hopen (Nat.le_refl 1)).bind fun _ s₁ h₁ =>
      (acceptKeyword_follows "this" (by decide)).bind fun found s₂ h₂ => ?_)
    have hkept := ((advance_grows 1).of_ok h₁).1.toKept.trans
      ((acceptKeyword_grows (by decide)).of_ok h₂).1.toKept
    have hdone (found : Bool) {s₃ : State} (h : Kept W.text s s₃) : W.FollowsAt id
        (do
          Parser.rewind s.checkpoint
          return found)
        (do
          Parser.rewind (W.moved s).checkpoint
          return found) s₃ := .rewind h (.pure rfl)
    cases found with
    | true =>
      exact (atToken_follows "[" (by decide)).bind fun found s₃ h₃ =>
        hdone found (hkept.trans ((atToken_grows "[").of_ok h₃).1.toKept)
    | false => exact hdone false hkept

end LineFeeds

namespace Grammar

variable {g : Grammar} {W : LineFeeds} {s : State}

/-! ### Entries and elements -/

theorem Follows.entryValue (hg : g.Follows W) :
    W.FollowsAt (EntryValue.placed W.placement) g.entryValue g.entryValue s :=
  LineFeeds.atAssign_follows.bind fun _ s₁ h₁ => .ite rfl
    (fun hassign => (LineFeeds.advance_assign_follows h₁ hassign).bind fun _ s₂ _ =>
      (hg.expr s₂).bind fun _ _ _ => .pure (by simp [EntryValue.placed]))
    fun _ => (LineFeeds.atToken_follows "\x7b" (by decide)).bind fun _ _ _ => .ite rfl
      (fun _ => hg.objectForm.bind fun _ _ _ => .pure (by simp [EntryValue.placed]))
      fun _ => LineFeeds.failExpected_follows _

theorem Follows.mappingEntry (hg : g.Follows W) (hopening : matchesAt W.text "[" s.pos = true) :
    W.FollowsAt (ObjectMember.placed W.placement) g.mappingEntry g.mappingEntry s :=
  .position ((LineFeeds.advance_word_follows "[" (by decide) hopening (Nat.le_refl 1)).bind
    fun _ s₁ _ => (hg.expr s₁).bind fun _ _ _ => (LineFeeds.expect_follows "]" (by decide)).bind
      fun _ _ _ =>
      hg.entryValue.bind fun _ _ _ => .pure (by simp [ObjectMember.placed, Placement.span]))

theorem Follows.predicateEntry (hg : g.Follows W) (hopening : matchesAt W.text "[[" s.pos = true) :
    W.FollowsAt (ObjectMember.placed W.placement) g.predicateEntry g.predicateEntry s :=
  .position ((LineFeeds.advance_word_follows "[[" (by decide) hopening (Nat.le_refl 2)).bind
    fun _ s₁ _ => (hg.expr s₁).bind fun _ _ _ => (LineFeeds.expect_follows "]]" (by decide)).bind
      fun _ _ _ =>
      hg.entryValue.bind fun _ _ _ => .pure (by simp [ObjectMember.placed, Placement.span]))

theorem Follows.spread (hg : g.Follows W) (hdots : matchesAt W.text "..." s.pos = true) :
    W.FollowsAt (ObjectMember.placed W.placement) g.spread g.spread s := by
  refine .position ((LineFeeds.advance_word_follows "..." (by decide) hdots (Nat.le_refl 3)).bind
    fun _ s₁ _ => .peek ?_)
  rw [lineEnd_beq (by decide)]
  exact .option rfl (fun hmark => LineFeeds.advance_seen_follows hmark (by decide)) fun s₂ =>
    (hg.expr s₂).bind fun _ _ _ => .pure (by simp [ObjectMember.placed, Placement.span])

theorem Follows.fieldAmend (hg : g.Follows W) (hopen : matchesAt W.text "(" s.pos = true) :
    W.FollowsAt (ObjectMember.placed W.placement) g.fieldAmend g.fieldAmend s :=
  .position ((LineFeeds.advance_word_follows "(" (by decide) hopen (Nat.le_refl 1)).bind fun _ _ _ =>
    (LineFeeds.expectKeyword_follows "this" (by decide)).bind fun _ _ _ =>
      (LineFeeds.expect_follows "[" (by decide)).bind
      fun _ s₃ _ => (hg.expr s₃).bind fun _ _ _ => (LineFeeds.expect_follows "]" (by decide)).bind
        fun _ _ _ =>
        (LineFeeds.expect_follows ")" (by decide)).bind fun _ s₆ _ => (hg.body s₆).bind fun _ _ _ =>
          .pure (by simp [ObjectMember.placed, Placement.span]))

/-! ### Generators -/

theorem Follows.whenGenerator (hg : g.Follows W) (hword : wordAt W.text "when" s.pos = true) :
    W.FollowsAt (ObjectMember.placed W.placement) g.whenGenerator g.whenGenerator s := by
  refine .position ((LineFeeds.advance_word_follows "when" (by decide) (matchesAt_of_wordAt hword)
    (Nat.le_refl _)).bind fun _ _ _ => (LineFeeds.expect_follows "(" (by decide)).bind fun _ s₂ _ =>
      (hg.expr s₂).bind fun _ _ _ => (LineFeeds.expect_follows ")" (by decide)).bind fun _ s₄ _ =>
        (hg.body s₄).bind fun _ _ _ => LineFeeds.announced_follows
          (LineFeeds.acceptKeyword_follows "else" (by decide)) hg.body fun elseBody? _ => .pure ?_)
  cases elseBody? <;> simp [ObjectMember.placed_whenGenerator, Placement.span]

theorem loopNames_follows :
    W.FollowsAt (List.map (Identifier.placed W.placement)) loopNames loopNames s :=
  (LineFeeds.expectName_follows _).bind fun _ _ _ =>
    (LineFeeds.accept_follows "," (by decide)).bind fun _ _ _ =>
    .ite rfl (fun _ => (LineFeeds.expectName_follows _).bind fun _ _ _ => .pure rfl) fun _ => .pure rfl

theorem Follows.forGenerator (hg : g.Follows W) (hword : wordAt W.text "for" s.pos = true) :
    W.FollowsAt (ObjectMember.placed W.placement) g.forGenerator g.forGenerator s :=
  .position ((LineFeeds.advance_word_follows "for" (by decide) (matchesAt_of_wordAt hword)
    (Nat.le_refl _)).bind fun _ _ _ => (LineFeeds.expect_follows "(" (by decide)).bind fun _ _ _ =>
      loopNames_follows.bind fun _ _ _ => (LineFeeds.expectKeyword_follows "in" (by decide)).bind
        fun _ s₄ _ =>
        (hg.expr s₄).bind fun _ _ _ => (LineFeeds.expect_follows ")" (by decide)).bind fun _ s₆ _ =>
          (hg.body s₆).bind fun _ _ _ => .pure (by simp [ObjectMember.placed, Placement.span]))

/-! ### Members -/

theorem Follows.propertyMember? (hg : g.Follows W) :
    W.FollowsAt (Option.map (ObjectMember.placed W.placement)) g.propertyMember? g.propertyMember? s := by
  refine .mark (hg.preamble.bind fun before s₁ h₁ => .atWord (by decide) (.ite rfl
    (fun hword => (hg.functionRule before hword).bind fun _ _ _ => .pure (by simp [ObjectMember.placed]))
    fun _ => ?_))
  refine LineFeeds.atPropertyHead_follows.bind fun head s₂ h₂ => ?_
  obtain rfl := (atPropertyHead_grows.of_ok h₂).2
  refine .ite (by simp [Preamble.placed]) (fun _ => (hg.propertyRule before).bind fun _ _ _ =>
    .pure (by simp [ObjectMember.placed])) fun _ => ?_
  exact .rewind (hg.grows.preamble.of_ok h₁).1.toKept (.pure rfl)

theorem Follows.namedMember (hg : g.Follows W) :
    W.FollowsAt (ObjectMember.placed W.placement) g.namedMember g.namedMember s := by
  refine hg.propertyMember?.bind fun member? s₁ _ => ?_
  cases member? with
  | some member => exact .pure rfl
  | none => exact (hg.expr s₁).bind fun _ _ _ => .pure (by simp [ObjectMember.placed])

theorem Follows.objectMember (hg : g.Follows W) :
    W.FollowsAt (ObjectMember.placed W.placement) g.objectMember g.objectMember s := by
  refine .startsWith (by decide) (.ite rfl (fun h => hg.predicateEntry h) fun _ =>
    .startsWith (by decide) (.ite rfl (fun h => hg.mappingEntry h) fun _ =>
      .startsWith (by decide) (.ite rfl (fun h => hg.spread h) fun _ => ?_)))
  refine LineFeeds.atFieldAmend_follows.bind fun found s₁ h₁ => ?_
  obtain ⟨rfl, hopen⟩ := (atFieldAmend_grows.of_ok h₁).2
  exact .ite rfl (fun h => hg.fieldAmend (hopen h)) fun _ => .atWord (by decide) (.ite rfl
    (fun h => hg.whenGenerator h) fun _ => .atWord (by decide) (.ite rfl (fun h => hg.forGenerator h)
      fun _ => hg.namedMember))

theorem Follows.objectMembers (hg : g.Follows W) (opening : Span) :
    W.FollowsAt (Array.map (ObjectMember.placed W.placement)) (g.objectMembers opening)
      (g.objectMembers (W.placement.span opening)) s := by
  refine .repeating (f := Array.map (ObjectMember.placed W.placement)) (fun members s₁ => ?_) (by simp)
  refine LineFeeds.skip_follows.bind fun _ s₂ _ => .peek (.atEnd (.ite rfl
    (fun _ => LineFeeds.failWith_follows) fun _ => .ite (lineEnd_beq (by decide))
      (fun hsign => (LineFeeds.advance_seen_follows hsign (by decide)).bind fun _ _ _ => .pure rfl)
      fun _ => .ite (lineEnd_beq (by decide))
        (fun hsign => (LineFeeds.advance_seen_follows hsign (by decide)).bind fun _ _ _ =>
          .pure rfl)
        fun _ => hg.objectMember.bind fun _ _ _ => .pure (by simp [Round.map])))

theorem Follows.bodyRule (hg : g.Follows W) :
    W.FollowsAt (ObjectBody.placed W.placement) g.bodyRule g.bodyRule s :=
  (LineFeeds.expect_follows "\x7b" (by decide)).bind fun opening _ _ => .bind (.inMode
    (hg.objectMembers opening))
    fun members _ _ => .position (.pure (by simp [ObjectBody.placed, Placement.span]))

/-! ### Grammars -/

/-- The grammars of all depths follow themselves. The induction is on the depth. -/
theorem follows_nested (W : LineFeeds) (depth : Nat) : (nested depth).Follows W := by
  induction depth with
  | zero =>
    exact ⟨grows_nested _ 0, grows_nested _ 0, fun _ => .of_stop nofun, fun _ => .of_stop nofun,
      fun _ => .of_stop nofun⟩
  | succ depth ih =>
    exact ⟨grows_nested _ (depth + 1), grows_nested _ (depth + 1), fun _ => ih.expressionRule,
      fun _ => ih.typeRule, fun _ => ih.bodyRule⟩

theorem follows_full (W : LineFeeds) : full.Follows W := follows_nested W nestingLimit

end Grammar

end PklSyntax
