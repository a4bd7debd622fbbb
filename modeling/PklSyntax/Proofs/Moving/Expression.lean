import PklSyntax.Proofs.Layout.Expression
import PklSyntax.Proofs.Moving.Primary

/-!
# Expressions in two texts

Selections, amendments and infix operators begin with signs, and type tests with words that begin no
declaration. So where the stretch ends an expression goes on in neither text.

## Main statements

* `Grammar.Mirrored.postfixStep`, `Grammar.Mirrored.typeTestStep`: what may follow an operand.
* `Grammar.Mirrored.operand`, `Grammar.Mirrored.infixSteps`.
* `Grammar.Mirrored.expressionRule`: expressions.
-/

namespace PklSyntax

open PklSyntax.Parser

/-- A token that goes on with an expression. -/
theorem not_halts_of_matchesAt {text : Array Char} {i : Nat} {word : String}
    (h : matchesAt text word i = true)
    (hfirst : word.toList.head?.any (fun c => !halts c) = true) :
    halts (charAt text i) = false := by
  obtain ⟨first, hfirst, hnot⟩ := (Option.any_eq_true _ _).1 hfirst
  rw [List.head?_eq_getElem?] at hfirst
  have hchar := charAt_of_matchesAt h hfirst
  rw [Nat.add_zero] at hchar
  rw [hchar]
  simpa using hnot

/-- What stands behind a construct ends behind it. -/
theorem ReadTo.cover {a span : Span} {d c c' : Nat} (h : ReadTo a d c) (hspan : span.stop = c')
    (hlt : c < c') : ReadTo (a.cover span) d c' := by
  have := h.lt
  have := h.stop_eq
  exact ⟨by omega, by simp only [Span.cover]; omega⟩

namespace Grammar

variable {g : Grammar} {W : Overlap} {s t : State} {c d : Nat} {b : Bool}

/-! ### Parts of the tree -/

theorem span_unitLiteral {target e : Expr} {member : Member}
    (h : unitLiteral? target member = some e) : e.span = target.span.cover member.span := by
  cases target with
  | number amount =>
    cases member with
    | identifier name =>
      simp only [unitLiteral?] at h
      split at h
      · cases h
      · split at h <;> cases h <;> rfl
    | call => cases h
  | _ => cases h

/-- Whether a line begins between the end of an expression and the cursor. -/
theorem newlineSince_eq (h : W.Together false s c t) {e : Expr} (hstop : e.span.stop = c) :
    hasLineFeed W.right.text (move W.shift e).span.stop.toNat t.pos =
      hasLineFeed W.left.text e.span.stop.toNat s.pos := by
  have hplace : (move W.shift e).span.stop.toNat = W.place c := by
    show (e.placed W.shift).span.stop.toNat = W.place c
    rw [Expr.span_placed, Placement.stop_span, hstop]
    rfl
  rw [hplace, hstop, h.pos_eq]
  exact Overlap.hasLineFeed_place h.lo_le h.lo_le_pos (h.inside.imp_left Nat.le_of_lt)

/-! ### Selections and amendments -/

/-- A member behind its sign. -/
theorem Mirrored.dotAccess (hg : g.Mirrored W) {target : Expr} (htarget : ReadTo target.span d c)
    (hsign : isSign (charAt W.left.text s.pos) = true) :
    Mirrors W .loose true (fun _ => true) (g.dotAccess target) (g.dotAccess (move W.shift target))
      s c t fun e _ c' => ReadTo e.span d c' ∧ c < c' := by
  refine .of_linked fun hlink => .look position_looks position_looks
    (fun h => (h.strict hsign).pos_eq) ?_
  have hlo := Nat.le_trans hlink.lo_le hlink.stands.le_pos
  refine (advance_sign_mirrors (opensToken_of_isSign hsign)).bind fun _ s₁ c₁ t₁ h₁ _ =>
    hg.member.bind fun member s₂ c₂ t₂ _ hmember => .pure ?_ ?_
  · have hselect : select (target.placed W.shift) (.dot (member.placed W.shift)
        ⟨(W.place s.pos : Nat), (member.placed W.shift).span.stop⟩) =
        (select target (.dot member ⟨s.pos, member.span.stop⟩)).placed W.shift := by
      rw [← select_placed]
      simp [Access.placed, Placement.span, Overlap.cast_place hlo]
    have hstop : (target.placed W.shift).span.stop = ((W.place s.pos : Nat) : Int) ↔
        target.span.stop = (s.pos : Int) := by
      rw [Expr.span_placed, Overlap.cast_place hlo]
      exact Int.add_left_inj _
    show (if (target.placed W.shift).span.stop = ((W.place s.pos : Nat) : Int) then
      unitLiteral? (target.placed W.shift) (member.placed W.shift) else none).getD (select
        (target.placed W.shift) (.dot (member.placed W.shift)
          ⟨(W.place s.pos : Nat), (member.placed W.shift).span.stop⟩)) = Expr.placed W.shift _
    rw [hselect]
    by_cases hunit : target.span.stop = (s.pos : Int)
    · rw [if_pos hunit, if_pos (hstop.2 hunit), unitLiteral?_placed]
      cases unitLiteral? target member <;> rfl
    · rw [if_neg hunit, if_neg fun h => hunit (hstop.1 h)]
      rfl
  · have hlt : c < c₂ := (hmember.mono h₁.le).lt
    refine ⟨?_, hlt⟩
    cases hunit :
        (if target.span.stop = (s.pos : Int) then unitLiteral? target member else none) with
    | none => exact htarget.cover hmember.stop_eq hlt
    | some e =>
      split at hunit
      · rw [Option.getD_some, span_unitLiteral hunit]
        exact htarget.cover hmember.stop_eq hlt
      · cases hunit

theorem Mirrored.nullSafeAccess (hg : g.Mirrored W) {target : Expr}
    (htarget : ReadTo target.span d c) (hmark : matchesAt W.left.text "?." s.pos = true)
    (hsign : isSign (charAt W.left.text s.pos) = true) :
    Mirrors W .loose true (fun _ => true) (g.nullSafeAccess target)
      (g.nullSafeAccess (move W.shift target)) s c t fun e _ c' => ReadTo e.span d c' ∧ c < c' := by
  refine .of_linked fun hlink => .look position_looks position_looks
    (fun h => (h.strict hsign).pos_eq) ?_
  have hlo := Nat.le_trans hlink.lo_le hlink.stands.le_pos
  refine (advance_token_mirrors "?." hmark (by decide)).bind fun _ s₁ c₁ t₁ h₁ _ =>
    hg.member.bind fun member s₂ c₂ t₂ _ hmember => .pure ?_ ?_
  · show select (target.placed W.shift) _ = (select target _).placed W.shift
    rw [← select_placed]
    simp [move, Access.placed, Placement.span, Overlap.cast_place hlo]
  · have hlt : c < c₂ := (hmember.mono h₁.le).lt
    exact ⟨htarget.cover hmember.stop_eq hlt, hlt⟩

theorem Mirrored.bracketAccess (hg : g.Mirrored W) {target : Expr}
    (htarget : ReadTo target.span d c) (hsign : isSign (charAt W.left.text s.pos) = true) :
    Mirrors W .loose true (fun _ => true) (g.bracketAccess target)
      (g.bracketAccess (move W.shift target)) s c t fun e _ c' => ReadTo e.span d c' ∧ c < c' := by
  refine .of_linked fun hlink => .look position_looks position_looks
    (fun h => (h.strict hsign).pos_eq) ?_
  have hlo := Nat.le_trans hlink.lo_le hlink.stands.le_pos
  refine (advance_sign_mirrors (opensToken_of_isSign hsign)).bind fun _ s₁ c₁ t₁ h₁ _ =>
    (hg.expr s₁ c₁ t₁).bind fun index s₂ c₂ t₂ h₂ _ => (expect_mirrors (by decide)).bind
      fun close s₃ c₃ t₃ _ hclose => .pure ?_ ?_
  · show select (target.placed W.shift) _ = (select target _).placed W.shift
    rw [← select_placed]
    simp [move, Access.placed, Placement.span, Overlap.cast_place hlo]
  · have hlt : c < c₃ := (hclose.1.mono (h₁.trans h₂).le).lt
    exact ⟨htarget.cover hclose.1.stop_eq hlt, hlt⟩

/-- Bodies one behind the other, of which the last one ends where the last token ended. -/
theorem Mirrored.moreBodies (hg : g.Mirrored W) {first : ObjectBody}
    (hfirst : ReadTo first.span d c) :
    Mirrors W .loose true (fun _ => true) (g.moreBodies first) (g.moreBodies (move W.shift first))
      s c t fun bodies _ c' => ReadTo (bodies.back?.getD first).span d c' ∧
        ∃ others, bodies = (first :: others).toArray := by
  refine .repeating true (fun (bodies : Array ObjectBody) _ c' =>
    ReadTo (bodies.back?.getD first).span d c' ∧ ∃ others, bodies = (first :: others).toArray)
    (by simp [move]) ⟨by simpa using hfirst, [], rfl⟩ id fun bodies s₁ c₁ t₁ _ hbodies => ?_
  refine (atToken_mirrors (by decide)).bind fun more s₂ c₂ t₂ _ hmore => ?_
  obtain rfl := hmore.1.eq
  refine .ite (fun _ => ?_) fun _ => .pure rfl ⟨nofun, hbodies⟩
  refine (hg.body s₂ c₂ t₂).bind fun body s₃ c₃ t₃ _ hbody => .pure ?_ ⟨hbody.lt, ?_, ?_⟩
  · rw [move_next, push_move]
  · rw [Array.back?_push, Option.getD_some]
    exact hbody.mono (Nat.le_of_lt hbodies.1.lt)
  · obtain ⟨others, rfl⟩ := hbodies.2
    exact ⟨others ++ [body], by simp⟩

/-- An amendment ends with the last body. -/
theorem amend_stop {base : Expr} {first : ObjectBody} {others : List ObjectBody} {span : Span}
    (hfirst : others = [] → span.stop = first.span.stop) :
    (amend base first others span).span.stop = span.stop := by
  cases base with
  | paren inner span' =>
    cases others with
    | nil => exact (hfirst rfl).symm
    | cons => rfl
  | _ => rfl

theorem Mirrored.amendments (hg : g.Mirrored W) {base : Expr} (hbase : ReadTo base.span d c) :
    Mirrors W .loose true (fun _ => true) (g.amendments base) (g.amendments (move W.shift base))
      s c t fun e _ c' => ReadTo e.span d c' ∧ c < c' := by
  refine (hg.body s c t).bind fun first s₁ c₁ t₁ h₁ hfirst => (hg.moreBodies hfirst).bind
    fun bodies s₂ c₂ t₂ h₂ hbodies => .pure ?_ ⟨?_, hbodies.1.lt⟩
  · show amend (base.placed W.shift) (first.placed W.shift) _ _ =
      (amend base first _ _).placed W.shift
    rw [← amend_placed, back?_getD_move]
    simp [move, Placement.span]
  · obtain ⟨hread, others, rfl⟩ := hbodies
    have hlt := hbase.lt
    have hlt' := hread.lt
    refine ⟨by omega, (amend_stop fun hnone => ?_).trans hread.stop_eq⟩
    obtain rfl : others = [] := by simpa using hnone
    rfl

/-- One more selection or amendment, or none. Where there is one, the expression does not halt. -/
theorem Mirrored.postfixStep (hg : g.Mirrored W) {target : Expr}
    (htarget : ReadTo target.span d c) :
    Mirrors W .loose true (Round.level true fun _ => true) (g.postfixStep target)
      (g.postfixStep (move W.shift target)) s c t fun round _ c' =>
        round.Meets (fun e => c < c' ∧ ReadTo e.span d c' ∧
          halts (charAt W.left.text (skipEnd W.left.text c)) = false)
        fun e => e = target ∧ c' = c := by
  refine .of_linked fun hlink => skip_mirrors.bind fun _ s₁ c₁ t₁ h₁ hskip => ?_
  obtain ⟨hskipped, hend⟩ := hskip
  obtain rfl := hskipped.eq
  have hpos : skipEnd W.left.text c₁ = s₁.pos := (h₁.stands.of_skipped hend).1.symm
  rw [hpos]
  have hlo := hlink.lo_le
  have hle := h₁.stands.le_pos
  have hsign {word : String} {first : Char} (hmatch : matchesAt W.left.text word s₁.pos = true)
      (hfirst : word.toList[0]? = some first) : charAt W.left.text s₁.pos = first := by
    simpa using charAt_of_matchesAt hmatch hfirst
  refine .look (startsWith_looks _) (startsWith_looks _) (fun h => h.matchesAt_mark (by decide))
    (.ite (fun hmark => ?_) fun _ => ?_)
  · refine (hg.nullSafeAccess htarget hmark (by rw [hsign hmark rfl]; decide)).bind
      fun e s₂ c₂ t₂ _ h => .pure rfl ⟨h.2, h.1, not_halts_of_matchesAt hmark (by decide)⟩
  refine .look (startsWith_looks _) (startsWith_looks _) (fun h => h.matchesAt_mark (by decide))
    (.look (startsWith_looks _) (startsWith_looks _) (fun h => h.matchesAt_mark (by decide))
      (.ite (fun hmark => ?_) fun _ => ?_))
  · rw [Bool.and_eq_true] at hmark
    refine (hg.dotAccess htarget (by rw [hsign hmark.1 rfl]; decide)).bind
      fun e s₂ c₂ t₂ _ h => .pure rfl ⟨h.2, h.1, not_halts_of_matchesAt hmark.1 (by decide)⟩
  refine .look (startsWith_looks _) (startsWith_looks _) (fun h => h.matchesAt_mark (by decide))
    (.peel (newlineSince_looks _) (newlineSince_looks _) (.cond (fun h => ?_) (fun hmark => ?_)
      fun _ => ?_))
  · cases hopen : matchesAt W.left.text "[" s₁.pos with
    | false => rfl
    | true =>
      have h := h.strict (by rw [hsign hopen rfl]; decide)
      exact congrArg (_ && !·) (newlineSince_eq h htarget.stop_eq)
  · rw [Bool.and_eq_true] at hmark
    refine (hg.bracketAccess htarget (by rw [hsign hmark.1 rfl]; decide)).bind
      fun e s₂ c₂ t₂ _ h => .pure rfl ⟨h.2, h.1, not_halts_of_matchesAt hmark.1 (by decide)⟩
  refine .look (startsWith_looks _) (startsWith_looks _) (fun h => h.matchesAt_mark (by decide))
    (.ite (fun hmark => ?_) fun _ => ?_)
  · refine (advance_token_mirrors "!!" hmark (by decide)).bind fun _ s₂ c₂ t₂ h₂ hadv =>
      .look position_looks position_looks (fun h => h.pos_eq_of_fresh hadv.2.2) (.pure ?_ ?_)
    · rw [hadv.2.2.1, Overlap.cast_place (Nat.le_trans hlo h₂.le)]
      simp [move, Expr.placed, Placement.span]
    · obtain ⟨-, rfl, hfresh⟩ := hadv
      have hlt : c₁ < s₁.pos + "!!".length :=
        Nat.lt_of_le_of_lt hle (Nat.lt_add_of_pos_right (by decide))
      exact ⟨hlt, ⟨Nat.lt_trans htarget.lt hlt, congrArg Int.ofNat hfresh.1⟩,
        not_halts_of_matchesAt hmark (by decide)⟩
  refine .look (startsWith_looks _) (startsWith_looks _) (fun h => h.matchesAt_mark (by decide))
    (.cond (fun _ => congrArg (_ && !·) (isLiteral_placed target)) (fun hmark => ?_) fun _ =>
      .pure rfl ⟨rfl, rfl⟩)
  rw [Bool.and_eq_true] at hmark
  exact (hg.amendments htarget).bind
    fun e s₂ c₂ t₂ _ h => .pure rfl ⟨h.2, h.1, not_halts_of_matchesAt hmark.1 (by decide)⟩

/-! ### Operands -/

/-- One more type test or cast, or none. Where there is one, the expression does not halt. -/
theorem Mirrored.typeTestStep (hg : g.Mirrored W) {e : Expr} (he : ReadTo e.span d c) :
    Mirrors W .loose true (Round.level true fun _ => true) (g.typeTestStep e)
      (g.typeTestStep (move W.shift e)) s c t fun round _ c' =>
        round.Meets (fun e => c < c' ∧ ReadTo e.span d c' ∧
          halts (charAt W.left.text (skipEnd W.left.text c)) = false)
        fun e' => e' = e ∧ c' = c := by
  refine .of_linked fun hlink => skip_mirrors.bind fun _ s₁ c₁ t₁ h₁ hskip => ?_
  obtain ⟨hskipped, hend⟩ := hskip
  obtain rfl := hskipped.eq
  have hpos : skipEnd W.left.text c₁ = s₁.pos := (h₁.stands.of_skipped hend).1.symm
  rw [hpos]
  have hgo {word : String} (hword : word = "is" ∨ word = "as")
      (hat : wordAt W.left.text word s₁.pos = true) :
      halts (charAt W.left.text s₁.pos) = false := by
    rcases hword with rfl | rfl <;>
      exact not_halts_of_matchesAt (matchesAt_of_wordAt hat) (by decide)
  refine .bind_level (atWord_mirrors (by decide) hend (wordAt_stop (.inl rfl)))
    fun found s₂ c₂ t₂ _ hfound => ?_
  obtain ⟨hfound, rfl, rfl⟩ := hfound
  cases found with
  | true =>
    refine (advance_word_mirrors "is" (by decide) hfound.symm).bind fun _ s₃ c₃ t₃ h₃ _ =>
      (hg.type s₃ c₃ t₃).bind fun type s₄ c₄ t₄ _ htype => .pure ?_ ?_
    · simp [move, Expr.placed]
    · have hlt : c₂ < c₄ := (htype.mono h₃.le).lt
      exact ⟨fun _ _ => hlt, hlt, he.cover htype.stop_eq hlt, hgo (.inl rfl) hfound.symm⟩
  | false =>
    refine .bind_level (atWord_mirrors (by decide) hend (wordAt_stop (.inr rfl)))
      fun found s₃ c₃ t₃ _ hfound' => ?_
    obtain ⟨hfound', rfl, rfl⟩ := hfound'
    cases found with
    | true =>
      refine (advance_word_mirrors "as" (by decide) hfound'.symm).bind fun _ s₄ c₄ t₄ h₄ _ =>
        (hg.type s₄ c₄ t₄).bind fun type s₅ c₅ t₅ _ htype => .pure ?_ ?_
      · simp [move, Expr.placed]
      · have hlt : c₃ < c₅ := (htype.mono h₄.le).lt
        exact ⟨fun _ _ => hlt, (fun h => by cases h), hlt, he.cover htype.stop_eq hlt,
          hgo (.inr rfl) hfound'.symm⟩
    | false => exact .pure rfl ⟨(fun h => by cases h), (fun h => by cases h), rfl, rfl⟩

/-- One more prefix operator, or none. An operand follows in either case. -/
theorem prefixStep_mirrors {operators : List (UnaryOperator × Nat)} :
    Mirrors W .loose b (Round.level false fun _ => false) (prefixStep operators)
      (prefixStep (move W.shift operators)) s c t fun round _ c' =>
        round.Meets (fun operators' => c < c' ∧
            (∃ op, operators' = (op, skipEnd W.left.text c) :: operators) ∧
            charAt W.left.text (skipEnd W.left.text c) ∈ ['-', '!'])
          fun operators' => operators' = operators ∧ c' = c := by
  have hlevel : (Round.level false fun _ => false :
      Round (List (UnaryOperator × Nat)) (List (UnaryOperator × Nat)) → Bool) = fun _ => false :=
    funext fun round => by cases round <;> rfl
  rw [hlevel]
  refine skip_inner_mirrors.bind_within fun _ s₁ c₁ t₁ h₁ hskip => ?_
  obtain ⟨hskipped, hend⟩ := hskip
  obtain rfl := hskipped.eq
  have hpos : skipEnd W.left.text c₁ = s₁.pos := (h₁.stands.of_skipped hend).1.symm
  rw [hpos]
  refine .look_within position_looks position_looks (fun h => h.pos_eq) ?_
  have hstep (op : UnaryOperator) {sign : Char} (hsign : sign ∈ ['-', '!'])
      (hchar : charAt W.left.text s₁.pos = sign) :
      Mirrors W .loose true (fun _ => false)
        (do
          advance 1
          return Round.next ((op, s₁.pos) :: operators))
        (do
          advance 1
          return Round.next ((op, W.place s₁.pos) :: move W.shift operators)) s₁ c₁ t₁
        fun (round : Round _ (List (UnaryOperator × Nat))) _ c' =>
          round.Meets (fun operators' => c₁ < c' ∧ (∃ op, operators' = (op, s₁.pos) :: operators) ∧
            charAt W.left.text s₁.pos ∈ ['-', '!'])
          fun operators' => operators' = operators ∧ c' = c₁ := by
    have hopens : opensToken sign = true := by
      simp only [List.mem_cons, List.not_mem_nil, or_false] at hsign
      rcases hsign with rfl | rfl <;> decide
    refine (advance_sign_mirrors (by rw [hchar]; exact hopens)).bind
      fun _ s₂ c₂ t₂ _ hadv => .pure_of rfl ⟨?_, ⟨op, rfl⟩, hchar ▸ hsign⟩ nofun
    have := h₁.stands.le_pos
    omega
  refine .look_within (startsWith_looks _) (startsWith_looks _)
    (fun h => h.matchesAt_eq (by decide))
    (.look_within (startsWith_looks _) (startsWith_looks _) (fun h => h.matchesAt_eq (by decide))
      (.ite (fun hmark => ?_) fun _ => ?_))
  · rw [Bool.and_eq_true] at hmark
    exact hstep .negate (.head _)
      (by simpa using charAt_of_matchesAt (n := 0) (c := '-') hmark.1 (by decide))
  refine .look_within (startsWith_looks _) (startsWith_looks _)
    (fun h => h.matchesAt_eq (by decide))
    (.look_within (startsWith_looks _) (startsWith_looks _) (fun h => h.matchesAt_eq (by decide))
      (.ite (fun hmark => ?_) fun _ => .pure_of rfl ⟨rfl, rfl⟩ nofun))
  rw [Bool.and_eq_true] at hmark
  exact hstep .not (.tail _ (.head _))
    (by simpa using charAt_of_matchesAt (n := 0) (c := '!') hmark.1 (by decide))

/-- Prefix operators move with their offsets. -/
theorem applyPrefixes_move {operators : List (UnaryOperator × Nat)} (e : Expr)
    (hlo : ∀ op ∈ operators, W.lo ≤ op.2) :
    applyPrefixes (move W.shift operators) (e.placed W.shift) =
      (applyPrefixes operators e).placed W.shift := by
  induction operators generalizing e with
  | nil => rfl
  | cons op others ih =>
    rw [List.forall_mem_cons] at hlo
    have hop :
        Expr.unary op.1 (e.placed W.shift) ⟨(W.place op.2 : Nat), (e.placed W.shift).span.stop⟩ =
        (Expr.unary op.1 e ⟨op.2, e.span.stop⟩).placed W.shift := by
      simp [Expr.placed, Placement.span, Overlap.cast_place hlo.1]
    exact (congrArg (applyPrefixes (move W.shift others)) hop).trans (ih _ hlo.2)

theorem applyPrefixes_stop (operators : List (UnaryOperator × Nat)) (e : Expr) :
    (applyPrefixes operators e).span.stop = e.span.stop := by
  induction operators generalizing e with
  | nil => rfl
  | cons op others ih => exact ih _

/-- A round of a loop goes on with the expression, or leaves it as it is. -/
theorem Opened.round {s₁ s₂ : State} {c₁ c₂ : Nat} {e : Expr} {round : Round Expr Expr}
    (hread : ReadTo e.span c c₁) (hopened : Opened W.left.text c s₁ c₁)
    (hon : Onward W.left.text s₁ c₁ s₂ c₂)
    (hround : round.Meets (fun e => c₁ < c₂ ∧ ReadTo e.span c c₂ ∧
      halts (charAt W.left.text (skipEnd W.left.text c₁)) = false) fun e' => e' = e ∧ c₂ = c₁) :
    round.Meets (fun e => c₁ < c₂ ∧ ReadTo e.span c c₂ ∧ Opened W.left.text c s₂ c₂) fun e =>
      (true = false → true = true → c₁ < c₂) ∧ ReadTo e.span c c₂ ∧ Opened W.left.text c s₂ c₂ := by
  cases round with
  | next e' => exact ⟨hround.1, hround.2.1, hopened.step hon hround.2.2⟩
  | done e' =>
    obtain ⟨rfl, rfl⟩ := hround
    exact ⟨nofun, hread, hopened.rest hon⟩

theorem Mirrored.operand (hg : g.Mirrored W) :
    Mirrors W .loose b (fun _ => true) g.operand g.operand s c t fun e s' c' =>
      ReadTo e.span c c' ∧ Opened W.left.text c s' c' := by
  refine .of_linked fun hlink => .bind_inner (P := fun operators _ c' => c ≤ c' ∧
      (∀ op ∈ operators, W.lo ≤ op.2) ∧ (operators = [] → c' = c) ∧
      (operators ≠ [] → charAt W.left.text (skipEnd W.left.text c) ∈ ['-', '!']))
    (.repeating false (fun operators _ c' => c ≤ c' ∧
      (∀ op ∈ operators, W.lo ≤ op.2) ∧ (operators = [] → c' = c) ∧
      (operators ≠ [] → charAt W.left.text (skipEnd W.left.text c) ∈ ['-', '!'])) rfl
      ⟨Nat.le_refl _, by simp, fun _ => rfl, fun h => absurd rfl h⟩ nofun
      fun operators s₁ c₁ t₁ _ hI => prefixStep_mirrors.mono fun round s₂ c₂ h₂ hround => ?_)
    fun operators s₁ c₁ t₁ h₁ hprefixes => ?_
  · obtain ⟨hle, hlo, hnone, hsome⟩ := hI
    cases round with
    | next operators' =>
      obtain ⟨hlt, ⟨op, rfl⟩, hsign⟩ := hround
      have hloc := hlink.lo_le
      refine ⟨hlt, Nat.le_trans hle h₂.le, ?_, nofun, fun _ => ?_⟩
      · rw [List.forall_mem_cons]
        exact ⟨Nat.le_trans hloc (Nat.le_trans hle (le_skipEnd _)), hlo⟩
      · by_cases hempty : operators = []
        · rwa [hnone hempty] at hsign
        · exact hsome hempty
    | done operators' =>
      obtain ⟨rfl, rfl⟩ := hround
      exact ⟨nofun, hle, hlo, hnone, hsome⟩
  obtain ⟨hle, hlo, hnone, hsome⟩ := hprefixes
  refine .mono (P := fun e s' c' => ReadTo e.span c c' ∧ Opened W.left.text c s' c' ∧ c₁ < c') ?_
    fun _ _ _ _ h => ⟨fun _ => h.2.2, h.1, h.2.1⟩
  refine hg.primary.bind fun primary s₂ c₂ t₂ h₂ hprimary => ?_
  have hopened : Opened W.left.text c s₂ c₂ := by
    by_cases hempty : operators = []
    · rw [← hnone hempty]
      exact hprimary.2
    · have hsign := hsome hempty
      simp only [List.mem_cons, List.not_mem_nil, or_false] at hsign
      rcases hsign with hchar | hchar <;>
        exact .of_sign (by rw [hchar]; decide) (by rw [hchar]; decide) (by rw [hchar]; decide)
          (by rw [hchar]; decide)
  refine .bind (P := fun e s' c' => ReadTo e.span c c' ∧ Opened W.left.text c s' c')
    (.repeating true (fun e s' c' => ReadTo e.span c c' ∧ Opened W.left.text c s' c') rfl
      ⟨hprimary.1.mono hle, hopened⟩ id fun e s₃ c₃ t₃ _ h =>
        (hg.postfixStep h.1).mono fun _ _ _ hon hround => Opened.round h.1 h.2 hon hround)
    fun selected s₃ c₃ t₃ h₃ hselected => ?_
  refine .bind (P := fun e s' c' => ReadTo e.span c c' ∧ Opened W.left.text c s' c')
    (.repeating true (fun e s' c' => ReadTo e.span c c' ∧ Opened W.left.text c s' c') rfl hselected
      id fun e s₄ c₄ t₄ _ h =>
        (hg.typeTestStep h.1).mono fun _ _ _ hon hround => Opened.round h.1 h.2 hon hround)
    fun tested s₄ c₄ t₄ h₄ htested => .pure (applyPrefixes_move tested hlo)
      ⟨⟨htested.1.lt, (applyPrefixes_stop _ _).trans htested.1.stop_eq⟩, htested.2, ?_⟩
  exact Nat.lt_of_lt_of_le hprimary.1.lt (Nat.le_trans h₃.le h₄.le)

/-! ### Infix operators -/

/-- The symbol of an infix operator begins with no character of declarations. -/
theorem symbol_spec (op : BinaryOperator) :
    glued op.symbol.toList = true ∧
      op.symbol.toList.head?.any (fun c => !beginsDeclaration c && c != '\x00') = true ∧
      op.symbol.toList.head?.any (fun c => !halts c) = true ∧ op.symbol ≠ "" := by
  cases op <;> decide

/-- At both cursors stands the same infix operator, or none. -/
theorem infixOperator?_mirrors {e : Expr} (he : ReadTo e.span d c) :
    Mirrors W .loose true (fun _ => true) (infixOperator? e) (infixOperator? (move W.shift e)) s c t
      fun op? s' c' => (Skipped W.left.text c s' c' ∧ s'.triviaEnd = some s'.pos) ∧
        ∀ op, op? = some op → matchesAt W.left.text op.symbol s'.pos = true := by
  refine skip_mirrors.bind fun _ s₁ c₁ t₁ _ hskip => .look (firstOperator?_looks _)
    (firstOperator?_looks _)
    (fun h => congrArg (BinaryOperator.longestFirst.find? ·) (funext fun op =>
      h.matchesAt_of_skipped (symbol_spec op).1 (symbol_spec op).2.1 hskip.2)) ?_
  have hfound := fun op => List.find?_some
    (p := fun op : BinaryOperator => matchesAt W.left.text op.symbol s₁.pos)
    (l := BinaryOperator.longestFirst) (a := op)
  generalize BinaryOperator.longestFirst.find?
    (fun op => matchesAt W.left.text op.symbol s₁.pos) = op? at hfound ⊢
  obtain rfl := hskip.1.eq
  cases op? with
  | none => exact .pure rfl ⟨hskip, nofun⟩
  | some op =>
    have hsome : ∀ op', some op = some op' → matchesAt W.left.text op'.symbol s₁.pos = true :=
      fun _ h => by cases h; exact hfound _ rfl
    cases op with
    | subtract =>
      refine .look (startsWith_looks _) (startsWith_looks _) (fun h => h.matchesAt_mark (by decide))
        (.peel (newlineSince_looks _) (newlineSince_looks _) (.cond (fun h => ?_)
          (fun _ => .pure rfl ⟨hskip, nofun⟩) fun _ => .pure rfl ⟨hskip, hsome⟩))
      have hsign : charAt W.left.text s₁.pos = '-' := by
        simpa using charAt_of_matchesAt (n := 0) (c := '-') (hsome _ rfl) (by decide)
      exact congrArg (_ || ·) (newlineSince_eq (h.strict (by rw [hsign]; decide)) he.stop_eq)
    | _ => exact .pure rfl ⟨hskip, hsome⟩

/-- Each of the operands ends behind the one before it. -/
def Ascends : Int → List InfixStep → Prop
  | _, [] => True
  | stop, step :: steps => stop ≤ step.operand.span.stop ∧ Ascends step.operand.span.stop steps

theorem Ascends.concat {stop : Int} {steps : List InfixStep} {step : InfixStep}
    (h : Ascends stop steps) (hle : lastStop stop steps ≤ step.operand.span.stop) :
    Ascends stop (steps ++ [step]) := by
  induction steps generalizing stop with
  | nil => exact ⟨hle, trivial⟩
  | cons first others ih => exact ⟨h.1, ih h.2 (by rwa [lastStop_cons] at hle)⟩

/-- Grouping leads to where the last operand ends. -/
theorem climb_stop (least : Nat) {left : Expr} {steps : List InfixStep}
    (h : Ascends left.span.stop steps) :
    left.span.stop ≤ (climb least left steps).tree.span.stop ∧
      Ascends (climb least left steps).tree.span.stop (climb least left steps).rest ∧
      lastStop (climb least left steps).tree.span.stop (climb least left steps).rest =
        lastStop left.span.stop steps := by
  fun_induction climb least left steps with
  | case1 least left => exact ⟨Int.le_refl _, h, rfl⟩
  | case2 least left step tail hlt => exact ⟨Int.le_refl _, h, rfl⟩
  | case3 least left step tail hge right rest hle hright whole rest' hle' hwhole ih₁ ih₂ =>
    have ih₁ := ih₁ h.2
    rw [hright] at ih₁
    obtain ⟨hle₁, hasc₁, hlast₁⟩ := ih₁
    have hstop : (left.combine step.op right).span.stop = right.span.stop :=
      Int.max_eq_right (Int.le_trans h.1 hle₁)
    rw [hwhole, hstop] at ih₂
    obtain ⟨hle₂, hasc₂, hlast₂⟩ := ih₂ hasc₁
    exact ⟨Int.le_trans (Int.le_trans h.1 hle₁) hle₂, hasc₂,
      hlast₂.trans (hlast₁.trans (lastStop_cons _ _ _).symm)⟩

theorem groupInfix_stop {first : Expr} {steps : List InfixStep}
    (h : Ascends first.span.stop steps) :
    (groupInfix first steps).span.stop = lastStop first.span.stop steps := by
  have h := (climb_stop 0 h).2.2
  rwa [climb_zero_rest] at h

theorem lastStop_back (first : Expr) (steps : Array InfixStep) :
    lastStop first.span.stop steps.toList =
      ((steps.back?.map InfixStep.operand).getD first).span.stop := by
  rw [lastStop, Array.getLast?_toList]
  cases steps.back? <;> rfl

theorem Mirrored.infixSteps (hg : g.Mirrored W) {first : Expr} (hfirst : ReadTo first.span d c)
    (hopened : Opened W.left.text d s c) :
    Mirrors W .loose true (fun _ => true) (g.infixSteps first) (g.infixSteps (move W.shift first))
      s c t fun steps s' c' => ReadTo ((steps.back?.map InfixStep.operand).getD first).span d c' ∧
        Ascends first.span.stop steps.toList ∧ Opened W.left.text d s' c' := by
  refine .repeating true (fun (steps : Array InfixStep) s' c' =>
    ReadTo ((steps.back?.map InfixStep.operand).getD first).span d c' ∧
      Ascends first.span.stop steps.toList ∧ Opened W.left.text d s' c')
    (by simp [move]) ⟨by simpa using hfirst, trivial, hopened⟩ id fun steps s₁ c₁ t₁ _ hsteps => ?_
  have hlast : (((move W.shift steps).back?.map InfixStep.operand).getD (move W.shift first)) =
      move W.shift ((steps.back?.map InfixStep.operand).getD first) := by
    show ((steps.map (InfixStep.placed W.shift)).back?.map InfixStep.operand).getD _ = _
    rw [Array.back?_map]
    cases steps.back? <;> rfl
  rw [hlast]
  refine (infixOperator?_mirrors hsteps.1).bind fun op? s₂ c₂ t₂ h₂ hop => ?_
  obtain ⟨⟨hskipped, hend⟩, hsome⟩ := hop
  obtain rfl := hskipped.eq
  cases op? with
  | none => exact .pure rfl ⟨nofun, hsteps.1, hsteps.2.1, hsteps.2.2.rest h₂⟩
  | some op =>
    have hmatch := hsome op rfl
    have hgo : halts (charAt W.left.text (skipEnd W.left.text c₂)) = false := by
      rw [← (h₂.stands.of_skipped hend).1]
      exact not_halts_of_matchesAt hmatch (symbol_spec op).2.2.1
    refine (advance_matched_mirrors hskipped.poised hmatch (symbol_spec op).2.2.2).bind
      fun _ s₃ c₃ t₃ h₃ _ => hg.operand.bind fun operand s₄ c₄ t₄ h₄ hoperand => .pure ?_ ?_
    · rw [move_next, ← push_move]
      rfl
    · have hlt : c₂ < c₄ := Nat.lt_of_le_of_lt h₃.le hoperand.1.lt
      refine ⟨hlt, ?_, ?_, hsteps.2.2.step ((h₂.trans h₃).trans h₄) hgo⟩
      · simp only [Array.back?_push, Option.map_some, Option.getD_some]
        exact hoperand.1.mono (Nat.le_trans (Nat.le_of_lt hsteps.1.lt) h₃.le)
      · rw [Array.toList_push]
        refine hsteps.2.1.concat ?_
        rw [lastStop_back, hsteps.1.stop_eq, hoperand.1.stop_eq]
        exact Int.ofNat_le.2 (Nat.le_of_lt hlt)

theorem Mirrored.expressionRule (hg : g.Mirrored W) :
    Mirrors W .loose b (fun _ => true) g.expressionRule g.expressionRule s c t
      fun e s' c' => ReadTo e.span c c' ∧ Opened W.left.text c s' c' := by
  refine hg.operand.bind fun first s₁ c₁ t₁ _ hfirst =>
    (hg.infixSteps hfirst.1 hfirst.2).bind fun steps s₂ c₂ t₂ _ hsteps => ?_
  have hgroup : groupInfix (move W.shift first) (move W.shift steps).toList =
      (groupInfix first steps.toList).placed W.shift := by
    rw [← groupInfix_placed]
    exact congrArg _ Array.toList_map
  show Mirrors W .loose true _ (if nestingLimit < (groupInfix first steps.toList).rightDepth then _
    else _) (if nestingLimit < (groupInfix (move W.shift first)
      (move W.shift steps).toList).rightDepth
    then _ else _) _ _ _ _
  rw [hgroup, Expr.rightDepth_placed]
  split
  · exact .bind (P := fun _ _ _ => False) (throw_mirrors .tooDeep nofun) fun _ _ _ _ _ h => h.elim
  · exact .pure rfl ⟨⟨hsteps.1.lt, (groupInfix_stop hsteps.2.1).trans
      ((lastStop_back _ _).trans hsteps.1.stop_eq)⟩, hsteps.2.2⟩

end Grammar

end PklSyntax
