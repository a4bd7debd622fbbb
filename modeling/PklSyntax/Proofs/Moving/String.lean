import PklSyntax.Proofs.Layout.Literal
import PklSyntax.Proofs.Moving.Number

/-!
# Strings in two texts

A string is read in tight mode. It reads on to its closing quotes, so that the left parse is live in
the strict sense throughout, and whatever stands in the string is in the stretch. The quotes and the
signs around a string can stand directly behind no declaration.

## Main definitions

* `Quotes.placed`, `StringBody.moved`: what is known in the body of a string, moved.

## Main statements

* `Parser.stringLiteral_mirrors`: strings.
-/

namespace PklSyntax

/-- The body with all its spans moved. -/
def StringBody.moved (P : Placement) (body : StringBody) : StringBody :=
  ⟨move P body.segments, move P body.textStart⟩

instance : Movable StringBody := ⟨StringBody.moved⟩

variable {W : Overlap} {s t : State} {c : Nat} {b : Bool} {quotes : Quotes}

namespace Overlap

/-- Behind a sign of the stretch there are as many `#` in both texts. -/
theorem poundsFit_place {i : Nat} (h : W.lo ≤ i) (hi : i ≤ W.stop ∨ W.whole = true) :
    poundsFit W.right.text (quotes.placed W.shift) (W.place i) =
      poundsFit W.left.text quotes i := by
  have hle := le_skipWhile W.left.text (· == '#') i
  have hpounds := (signs_place (p := (· == '#')) h hi fun d hd => by
    rw [beq_iff_eq] at hd
    rw [hd]
    decide).1
  have hplace := cast_place h
  have hplace' := W.cast_place (i := skipWhile W.left.text (· == '#') i) (by omega)
  have hlength : W.place (skipWhile W.left.text (· == '#') i) - W.place i =
      skipWhile W.left.text (· == '#') i - i := by omega
  rw [poundsFit, poundsFit, hpounds, hlength]
  rfl

/-- Closing quotes stand first on the line at both cursors, or at none. -/
theorem Together.closingAt?_eq (h : W.Together false s c t) (hlo : W.lo < s.pos) :
    closingAt? W.right.text (quotes.placed W.shift) t.pos =
      (closingAt? W.left.text quotes s.pos).map W.place := by
  have hprobe := inside_skipWhile (p := isIndent) h.inside fun d hd => by
    by_contra hindent
    rw [Bool.not_eq_false, isIndent, Bool.or_eq_true, beq_iff_eq, beq_iff_eq] at hindent
    rcases hindent with rfl | rfl <;> exact absurd hd (by decide)
  have hle := le_skipWhile W.left.text isIndent s.pos
  have hplace := W.cast_place (i := s.pos) (by omega)
  have hbefore : W.place (s.pos - 1) = W.place s.pos - 1 := by
    have := W.cast_place (i := s.pos - 1) (by omega)
    omega
  have hpos : 0 < W.place s.pos := by
    have := W.offset_le
    omega
  rw [closingAt?, closingAt?, h.pos_eq, skipWhile_place h.lo_le_pos (.inl hprobe), ← hbefore,
    charAt_place (by omega) (h.inside.imp_left fun _ => by omega),
    matchesAt_place (by decide) (by omega) hprobe, decide_eq_true hpos,
    decide_eq_true (show 0 < s.pos by omega)]
  cases hmatch : matchesAt W.left.text "\"\"\"" (skipWhile W.left.text isIndent s.pos) with
  | false =>
    simp only [Bool.false_and, Bool.false_eq_true, if_false]
    split <;> split <;> rfl
  | true =>
    have hstop : skipWhile W.left.text isIndent s.pos + 3 ≤ W.stop ∨ W.whole = true := by
      rcases Bool.eq_false_or_eq_true W.whole with hw | hw
      · exact .inr hw
      · exact .inl ((W.cut hw).2.1.add_length_le (by decide) (hprobe.resolve_right (by simp [hw]))
          hmatch)
    rw [← place_add (by omega), poundsFit_place (by omega) hstop]
    show (if _ then _ else _) = Option.map _ (if _ then _ else _)
    rw [apply_ite (Option.map W.place), apply_ite (Option.map W.place)]
    rfl

end Overlap

namespace Parser

variable {body : StringBody} {contentStart : Nat} {interpolate interpolate' : Parser Expr}

/-- In tight mode a token can begin anywhere. -/
theorem advance_tight_mirrors {n : Nat} (hn : 0 < n) (hsize : s.pos + n ≤ W.left.text.size) :
    Mirrors W .tight b (fun _ => true) (advance n) (advance n) s c t fun _ s' c' =>
      s' = { s with pos := s.pos + n } ∧ c' = s.pos + n ∧ Arrived s' c' :=
  .of_linked fun h => advance_mirrors (poised_of_tight h.mode_eq) hn hsize

/-- In tight mode, with the last token at the cursor, the parse keeps to that. -/
theorem moveTo_fresh_mirrors {pos pos' : Nat} (hfresh : Arrived s c) (hle : s.pos ≤ pos)
    (hsize : pos ≤ W.left.text.size)
    (hpos' : W.Together true s c t → pos ≤ W.stop ∨ W.whole = true → pos' = W.place pos) :
    Mirrors W .tight true (fun _ => true) (moveTo pos) (moveTo pos') s c t fun _ s' c' =>
      s' = { s with pos } ∧ Arrived s' c' := by
  refine (moveTo_tight_mirrors hle hsize hfresh.sited hpos').mono fun _ s' c' _ h => ⟨h.1, ?_⟩
  rcases h.2 with ⟨-, hfresh', -⟩ | ⟨heq, rfl⟩
  · exact hfresh'
  · rw [h.1, heq]
    exact hfresh

/-- The same in the middle of a construct. -/
theorem moveTo_within_mirrors {pos pos' : Nat} (hfresh : Arrived s c) (hle : s.pos ≤ pos)
    (hsize : pos ≤ W.left.text.size)
    (hpos' : W.Together false s c t → W.Inside pos → pos' = W.place pos) :
    Mirrors W .tight true (fun _ => false) (moveTo pos) (moveTo pos') s c t fun _ s' c' =>
      s' = { s with pos } ∧ Arrived s' c' := by
  refine .swap (r := moveTo (W.place pos)) (fun h hjoined hope => ?_)
    (.lower nofun (moveTo_fresh_mirrors hfresh hle hsize fun _ _ => rfl))
  have hlive : W.Live false s c := hope.level _ fun _ _ _ _ _ => nofun
  have hin : W.Inside pos := by
    rcases hope with hw | ⟨_, s', c', hon, ⟨rfl, -⟩, hl⟩
    · exact .inr hw
    · exact hl.inside hon.stands
  rw [hpos' ⟨h.lo_le, h.stands, hlive, hjoined (hlive.mono nofun)⟩ hin]

/-! ### Escapes -/

/-- The code point of an escape. -/
theorem unicodeEscape_mirrors {start : Nat} (hlo : W.lo ≤ start) (hstart : start ≤ s.pos) :
    Mirrors W .tight true (fun _ => false) (unicodeEscape quotes start)
      (unicodeEscape (quotes.placed W.shift) (W.place start)) s c t
      fun _ s' c' => Arrived s' c' := by
  refine .of_linked fun hlink => .look_within peek_looks peek_looks (fun h => h.charAt_eq) ?_
  have hlo' := Nat.le_trans hlink.lo_le hlink.stands.le_pos
  -- What was read of the escape, with the character behind it.
  have hspan : ∀ {s₁ c₁ t₁}, start ≤ s₁.pos → W.Together false s₁ c₁ t₁ →
      Span.ofNat (W.place start) (t₁.pos + 1) = W.shift.span (Span.ofNat start (s₁.pos + 1)) := by
    intro s₁ c₁ t₁ hle h
    rw [h.pos_eq, ← Overlap.place_add h.lo_le_pos, Overlap.ofNat_place hlo (by omega)]
  refine .ite (fun _ => ?_) fun hbrace => ?_
  · exact .peel position_looks position_looks (failWith_bind_mirrors rfl rfl (hspan hstart))
  have hchar : charAt W.left.text s.pos = '\x7b' := by simpa using hbrace
  have hsize : s.pos < W.left.text.size := lt_size_of_charAt_ne (by rw [hchar]; decide)
  refine (advance_tight_mirrors Nat.one_pos hsize).bind fun _ s₁ c₁ t₁ h₁ hadv => ?_
  obtain ⟨rfl, rfl, hfresh₁⟩ := hadv
  have hskip := le_skipWhile W.left.text isHexDigit (s.pos + 1)
  refine .look_within position_looks position_looks (fun h => h.pos_eq)
    (.peel theText_looks theText_looks ?_)
  refine (moveTo_within_mirrors hfresh₁ hskip (skipWhile_le_size _ _ h₁.stands.pos_le_size)
    fun h _ => (Overlap.nameEnd_place h.lo_le_pos h.inside fun _ =>
      continuesName_of_isHexDigit).1).bind_within
    fun _ s₂ c₂ t₂ h₂ hmove => ?_
  obtain ⟨rfl, hfresh₂⟩ := hmove
  refine (sliceFrom_mirrors hfresh₂.sited (by simp only; omega) fun _ => rfl).bind
    fun digits s₃ c₃ t₃ _ hslice => ?_
  obtain ⟨-, rfl, rfl⟩ := hslice
  refine .look_within peek_looks peek_looks (fun h => h.charAt_eq)
    (.ite (fun _ => ?_) fun hclose => ?_)
  · exact .peel position_looks position_looks
      (failWith_bind_mirrors rfl rfl (hspan (by simp only; omega)))
  have hchar' : charAt W.left.text (skipWhile W.left.text isHexDigit (s.pos + 1)) = '\x7d' := by
    simp only [Bool.or_eq_false_iff, bne_eq_false_iff_eq] at hclose
    exact hclose.1.1
  have hsize' : skipWhile W.left.text isHexDigit (s.pos + 1) < W.left.text.size :=
    lt_size_of_charAt_ne (by rw [hchar']; decide)
  refine (advance_tight_mirrors Nat.one_pos (Nat.succ_le_of_lt hsize')).bind
    fun _ s₄ c₄ t₄ _ hadv => ?_
  obtain ⟨rfl, -, hfresh₄⟩ := hadv
  dsimp only [move]
  cases scalar? (digitsValue 16 digits.toList) with
  | some value => exact .pure_of rfl hfresh₄ fun h => by cases h
  | none =>
    refine .look_within (spanFrom_looks _) (spanFrom_looks _) (fun h => ?_)
      (failWith_mirrors rfl rfl fun _ => rfl)
    rw [h.pos_eq, Overlap.ofNat_place hlo (by simp only; omega)]

/-- A parser in loose mode inside a construct that is read in tight mode, which leaves the cursor
where the next token can begin. -/
theorem inMode_loose_mirrors {α : Type} [Movable α] {p q : Parser α} {Q : α → State → Nat → Prop}
    (hfresh : Arrived s c)
    (hp : Mirrors W .loose true (fun _ => false) p q { s with mode := .loose } c
      { t with mode := .loose } fun a s' c' =>
        Poised W.left.text s' c' ∧ Q a { s' with mode := s.mode } c') :
    Mirrors W .tight b (fun _ => false) (inMode .loose p) (inMode .loose q) s c t Q := by
  intro h
  have hjoin : W.Joined b s c t →
      W.Joined false { s with mode := .loose } c { t with mode := .loose } := by
    refine fun hjoined hl => (hjoined ?_).with_mode _
    refine hl.imp_right fun hc => ⟨hc.1, .inl ?_⟩
    have hlt : skipEnd W.left.text c < W.stop := hc.2.resolve_right (by simp)
    have := @le_skipEnd W.left.text c
    rw [State.front, h.mode_eq]
    simp only
    have := hfresh.1
    omega
  have hp := hp.of_lt (b := false) (fun _ _ _ _ h => absurd h Bool.false_ne_true)
    ⟨h.lo_le, h.stands.with_mode _, rfl, rfl⟩
  have hmode : t.mode = s.mode := h.mode_right.trans h.mode_eq.symm
  rw [inMode_apply]
  cases hrun : p W.left { s with mode := .loose } with
  | ok a s' =>
    rw [hrun] at hp
    obtain ⟨c', hpass, ⟨hpoised, hQ⟩, hlive⟩ := hp
    refine ⟨c', hpass.of_mode h.stands (fun h : Mode.loose = .tight => by cases h), hQ,
      fun hjoined hl => ?_⟩
    -- What is live in tight mode was live in loose mode, since the next token begins at the cursor.
    have hl' : W.Live false s' c' := by
      refine hl.imp_right fun hc => ⟨hc.1, .inl (Nat.lt_of_le_of_lt hpoised ?_)⟩
      have hlt := hc.2.resolve_right (by simp)
      rwa [State.front, h.mode_eq] at hlt
    obtain ⟨t', hright, habreast⟩ := hlive (hjoin hjoined) hl'
    exact ⟨{ t' with mode := s.mode }, by rw [inMode_apply, hright, hmode], habreast.with_mode _⟩
  | error stop s' =>
    rw [hrun] at hp
    obtain ⟨herror, c', hpass, hwhole⟩ := hp
    refine ⟨herror, c', hpass.of_mode h.stands (fun h : Mode.loose = .tight => by cases h),
      fun hjoined hw => ?_⟩
    obtain ⟨t', hright, habreast⟩ := hwhole (hjoin hjoined) hw
    exact ⟨{ t' with mode := s.mode }, by rw [inMode_apply, hright, hmode], habreast.with_mode _⟩

/-- What stands between the parentheses of an interpolation. -/
def interpolated (interpolate : Parser Expr) : Parser Expr := do
  skip
  let expr ← interpolate
  skip
  if (← peek) != ')' then
    let pos ← position
    failWith .unclosedInterpolation (.ofNat pos (pos + 1))
  return expr

theorem interpolation_eq (interpolate : Parser Expr) :
    interpolation interpolate = do
      let expr ← inMode .loose (interpolated interpolate)
      advance 1
      return expr := by
  have hend : ∀ q : Parser Expr,
      inMode .loose (q >>= fun expr => advance 1 >>= fun _ => pure expr) =
      inMode .loose q >>= fun expr => advance 1 >>= fun _ => pure expr := by
    intro q
    funext ctx s
    rw [inMode_apply, bind_apply, bind_apply, inMode_apply]
    cases q ctx { s with mode := .loose } <;> rfl
  rw [← hend, interpolation, interpolated]
  congr 1
  simp only [bind_assoc]
  refine bind_congr fun _ => bind_congr fun expr => bind_congr fun _ => bind_congr fun next => ?_
  split <;> rfl

theorem add_pounds_le_size {text : Array Char} {i : Nat} (hi : i ≤ text.size)
    (h : poundsFit text quotes i = true) : i + quotes.pounds ≤ text.size := by
  have hsize := skipWhile_le_size text (· == '#') hi
  have hle := le_skipWhile text (· == '#') i
  simp only [poundsFit, Bool.or_eq_true, beq_iff_eq] at h
  omega

/-! ### Bodies -/

/-- The body of a string with the text in front of the offset. -/
def flushAt (text : Array Char) (body : StringBody) (pos : Nat) : StringBody :=
  if body.textStart < pos then
    ⟨body.segments.push (.text (sliceOf text body.textStart pos) (.ofNat body.textStart pos)), pos⟩
  else { body with textStart := pos }

theorem flush_looks (body : StringBody) :
    Looks (flush body) fun ctx s => flushAt ctx.text body s.pos := by
  intro ctx s
  show (if body.textStart < s.pos then do
      let text ← sliceFrom body.textStart
      return ⟨body.segments.push (.text text (.ofNat body.textStart s.pos)), s.pos⟩
    else return { body with textStart := s.pos } : Parser StringBody) ctx s =
      .ok (flushAt ctx.text body s.pos) s
  rw [flushAt]
  split <;> rfl

theorem flushAt_eq (h : W.Together false s c t) (hlo : W.lo ≤ body.textStart) :
    flushAt W.right.text (move W.shift body) t.pos =
      move W.shift (flushAt W.left.text body s.pos) := by
  have hplace := W.cast_place hlo
  have hplace' := W.cast_place h.lo_le_pos
  have hstart : (move W.shift body).textStart = W.place body.textStart := rfl
  rw [flushAt, flushAt, hstart, h.pos_eq]
  by_cases hlt : body.textStart < s.pos
  · rw [if_pos hlt, if_pos (by omega), Overlap.ofNat_place hlo h.lo_le_pos,
      Overlap.sliceOf_place hlo h.lo_le_pos (h.inside.imp_left Nat.le_of_lt)]
    have htext : ∀ (text : String) (span : Span), Segment.text text (W.shift.span span) =
        move W.shift (Segment.text text span) := fun text span => by simp [move, Segment.placed]
    rw [htext]
    exact congrArg (StringBody.mk · (W.place s.pos)) (push_move _ _ _)
  · rw [if_neg hlt, if_neg (by omega)]
    rfl

theorem isSign_of_stringAt {text : Array Char} {i : Nat} (h : stringAt text i = true) :
    isSign (charAt text i) = true := by
  rcases Nat.lt_or_eq_of_le (le_skipWhile text (· == '#') i) with hlt | heq
  · have hpound := ((@skipWhile_spec text i (· == '#')).1 i (Nat.le_refl _) hlt).2
    rw [beq_iff_eq] at hpound
    rw [hpound]
    decide
  · rw [stringAt, ← heq] at h
    rw [show i = i + 0 from rfl, charAt_of_matchesAt h (show "\"".toList[0]? = some '"' from rfl)]
    decide

theorem eq_of_closingAt? {text : Array Char} {pos probe : Nat}
    (h : closingAt? text quotes pos = some probe) : probe = skipWhile text isIndent pos := by
  rw [closingAt?] at h
  split at h
  · split at h
    · exact (Option.some.inj h).symm
    · cases h
  · cases h

section Body

variable (hexpr : ∀ s c t, Mirrors W .loose true (fun _ => true) interpolate interpolate' s c t
  fun _ _ c' => c < c')
include hexpr

theorem interpolated_mirrors :
    Mirrors W .loose true (fun _ => false) (interpolated interpolate) (interpolated interpolate')
      s c t fun _ s' c' => Poised W.left.text s' c' ∧ charAt W.left.text s'.pos = ')' := by
  refine skip_mirrors.bind fun _ s₁ c₁ t₁ _ _ => (hexpr s₁ c₁ t₁).bind fun e s₂ c₂ t₂ _ _ => ?_
  refine skip_inner_mirrors.bind_within fun _ s₃ c₃ t₃ _ hskip => ?_
  obtain rfl := hskip.1.eq
  refine .look_within peek_looks peek_looks (fun h => h.charAt_eq)
    (.ite (fun _ => ?_) fun hclose => ?_)
  · refine .peel position_looks position_looks (failWith_bind_mirrors rfl rfl fun h => ?_)
    have hlo := h.lo_le_pos
    rw [h.pos_eq, ← Overlap.place_add hlo, Overlap.ofNat_place hlo (by omega)]
  · exact .pure_of rfl ⟨hskip.1.poised, by simpa using hclose⟩ nofun

theorem interpolation_mirrors (hfresh : Arrived s c) :
    Mirrors W .tight true (fun _ => false) (interpolation interpolate)
      (interpolation interpolate') s c t fun _ s' c' => Arrived s' c' := by
  rw [interpolation_eq, interpolation_eq]
  refine (inMode_loose_mirrors (Q := fun _ s' _ => charAt W.left.text s'.pos = ')') hfresh
    (interpolated_mirrors hexpr)).bind_within fun e s₁ c₁ t₁ _ hclose => ?_
  have hsize : s₁.pos < W.left.text.size := lt_size_of_charAt_ne (by rw [hclose]; decide)
  exact (advance_tight_mirrors Nat.one_pos hsize).bind fun _ s₂ c₂ t₂ _ hadv =>
    .pure_of rfl hadv.2.2 nofun

/-- An escape, from its backslash on. -/
theorem escapeSequence_mirrors (hchar : charAt W.left.text s.pos = '\\')
    (hfit : poundsFit W.left.text quotes (s.pos + 1) = true) :
    Mirrors W .tight true (fun _ => false) (escapeSequence quotes interpolate)
      (escapeSequence (quotes.placed W.shift) interpolate') s c t fun _ s' c' =>
        Arrived s' c' ∧ s.pos < s'.pos := by
  have hsize : s.pos < W.left.text.size := lt_size_of_charAt_ne (by rw [hchar]; decide)
  have hpounds := add_pounds_le_size hsize hfit
  refine .of_linked fun hlink => ?_
  have hlo := Nat.le_trans hlink.lo_le hlink.stands.le_pos
  refine .look_within position_looks position_looks (fun h => h.pos_eq) ?_
  refine (advance_tight_mirrors (n := 1 + quotes.pounds) (by omega) (by omega)).bind
    fun _ s₁ c₁ t₁ _ hadv => ?_
  obtain ⟨rfl, rfl, hfresh₁⟩ := hadv
  have hlt₁ : s.pos < s.pos + (1 + quotes.pounds) := by omega
  generalize s.pos + (1 + quotes.pounds) = start₁ at hfresh₁ hlt₁ ⊢
  refine .look_within peek_looks peek_looks (fun h => h.charAt_eq) ?_
  dsimp only
  -- Behind the letter of the escape.
  have hletter : ∀ {P : Char → Prop}, P (charAt W.left.text start₁) → ¬ P '\x00' →
      start₁ + 1 ≤ W.left.text.size := fun hP hnul =>
    lt_size_of_charAt_ne fun heq => hnul (heq ▸ hP)
  cases hshort : shortEscape? (charAt W.left.text start₁) with
  | some value =>
    refine (advance_tight_mirrors Nat.one_pos (hletter (P := fun d => shortEscape? d = some value)
      hshort (by simp [shortEscape?]))).bind fun _ s₂ c₂ t₂ _ hadv => ?_
    obtain ⟨rfl, rfl, hfresh₂⟩ := hadv
    refine (spanFrom_mirrors hfresh₂.sited hlo fun _ => rfl).bind fun span s₃ c₃ t₃ _ hspan => ?_
    obtain ⟨-, rfl, rfl⟩ := hspan
    exact .pure_of (by simp [move, Segment.placed]) ⟨hfresh₂, by simp only; omega⟩ nofun
  | none =>
    refine .ite (fun hu => ?_) fun hu => .ite (fun hparen => ?_) fun _ => ?_
    · rw [beq_iff_eq] at hu
      refine (advance_tight_mirrors Nat.one_pos (hletter (P := fun d => d = 'u') hu
        (by decide))).bind fun _ s₂ c₂ t₂ _ hadv => ?_
      obtain ⟨rfl, rfl, hfresh₂⟩ := hadv
      refine (unicodeEscape_mirrors hlo (by simp only; omega)).bind_within
        fun value s₃ c₃ t₃ h₃ hfresh₃ => ?_
      have hle := h₃.pos_le
      refine (spanFrom_mirrors hfresh₃.sited hlo fun _ => rfl).bind fun span s₄ c₄ t₄ _ hspan => ?_
      obtain ⟨-, rfl, rfl⟩ := hspan
      exact .pure_of (by simp [move, Segment.placed]) ⟨hfresh₃, by simp only at hle; omega⟩ nofun
    · rw [beq_iff_eq] at hparen
      refine (advance_tight_mirrors Nat.one_pos (hletter (P := fun d => d = '(') hparen
        (by decide))).bind fun _ s₂ c₂ t₂ _ hadv => ?_
      obtain ⟨rfl, rfl, hfresh₂⟩ := hadv
      refine (interpolation_mirrors hexpr hfresh₂).bind_within fun e s₃ c₃ t₃ h₃ hfresh₃ => ?_
      have hle := h₃.pos_le
      refine (spanFrom_mirrors hfresh₃.sited hlo fun _ => rfl).bind fun span s₄ c₄ t₄ _ hspan => ?_
      obtain ⟨-, rfl, rfl⟩ := hspan
      exact .pure_of (by simp [move, Segment.placed]) ⟨hfresh₃, by simp only at hle; omega⟩ nofun
    · have hlo₁ : W.lo ≤ start₁ := by omega
      refine .look_within position_looks position_looks (fun h => h.pos_eq) ?_
      dsimp only
      refine .look_within (slice_looks _ _) (slice_looks _ _)
        (a := sliceOf W.left.text s.pos (start₁ + 1)) (fun h => ?_)
        (failWith_mirrors rfl rfl fun h => ?_)
      · rw [← Overlap.place_add hlo₁]
        exact Overlap.sliceOf_place hlo (by omega) h.inside
      · rw [← Overlap.place_add hlo₁, Overlap.ofNat_place hlo (by omega)]

/-- In the body of a string: the last token ends at the cursor, and the text that belongs to no
segment begins behind the opening quotes. -/
structure InBody (W : Overlap) (body : StringBody) (s : State) (c : Nat) : Prop where
  fresh : Arrived s c
  lo_lt : W.lo < s.pos
  lo_le : W.lo ≤ body.textStart

omit hexpr in
/-- What a finished string is. -/
theorem finishString_mirrors {contentStop : Nat} {segments : Array Segment} {indent : Option String}
    {d : Nat} (hfresh : Arrived s c) (hlt : d < s.pos) (hstart : W.lo ≤ contentStart)
    (hstop : W.lo ≤ contentStop) :
    Mirrors W .tight true (fun _ => true)
      (finishString quotes contentStart contentStop segments indent)
      (finishString (quotes.placed W.shift) (W.place contentStart) (W.place contentStop)
        (move W.shift segments) indent) s c t fun literal _ c' => ReadTo literal.span d c' := by
  refine .of_linked fun hlink => .look position_looks position_looks
    (fun h => h.pos_eq_of_fresh hfresh) (.pure ?_ ⟨by rw [← hfresh.1]; exact hlt, ?_⟩)
  · rw [← hfresh.1, Overlap.ofNat_place hstart hstop, Overlap.cast_place]
    · simp [move, StringLiteral.placed, Quotes.placed, Placement.span]
    · rw [hfresh.1]
      exact hlink.lo_le
  · rw [← hfresh.1]

theorem stringStep_mirrors {body : StringBody} (hlo : W.lo ≤ contentStart)
    (hin : InBody W body s c) :
    Mirrors W .tight false (Round.level false fun _ => true)
      (stringStep quotes contentStart interpolate body)
      (stringStep (quotes.placed W.shift) (W.place contentStart) interpolate' (move W.shift body))
      s c t fun round s' c' => round.Meets (fun body' => c < c' ∧ InBody W body' s' c')
        fun literal => ReadTo literal.span c c' := by
  have hQ : ∀ (round : Round StringBody StringLiteral) (s' : State) (c' : Nat),
      (round.Meets (fun body' => c < c' ∧ InBody W body' s' c')
        fun literal => ReadTo literal.span c c') →
      Round.level false (fun _ => true) round = true → c < c' := by
    intro round s' c' h hlevel
    cases round with
    | next => simp [Round.level] at hlevel
    | done => exact h.lt
  have hlo' := hin.lo_lt
  have hpos := hin.fresh.1
  refine .of_lt hQ (.look_inside hQ (closingLine?_looks _) (closingLine?_looks _)
    (fun h => h.closingAt?_eq hlo') ?_)
  cases hclosing : closingAt? W.left.text quotes s.pos with
  | some probe =>
    obtain ⟨hle, hquote, hfit⟩ := closingAt?_eq_some hclosing
    obtain ⟨hsize, -⟩ := poundsFit.tokenEnd hquote hfit
    refine .look_inside hQ position_looks position_looks (fun h => h.pos_eq)
      (.look_inside hQ (flush_looks _) (flush_looks _) (fun h => flushAt_eq h hin.lo_le) ?_)
    refine .look_inside hQ (slice_looks _ _) (slice_looks _ _)
      (a := sliceOf W.left.text s.pos probe) (fun h => ?_) ?_
    · obtain rfl := eq_of_closingAt? hclosing
      exact Overlap.sliceOf_place hlo'.le (by omega)
        ((Overlap.inside_skipWhile h.inside Overlap.not_isIndent_of_endsToken).imp_left
          Nat.le_of_lt)
    · have hplace : W.place (probe + 3 + quotes.pounds) = W.place probe + 3 + quotes.pounds := by
        rw [Overlap.place_add (by omega), Overlap.place_add (by omega)]
      refine .of_linked fun hlink => (moveTo_mirrors (poised_of_tight hlink.mode_eq) (by omega)
        hsize
        fun _ _ => hplace.symm).bind fun _ s₁ c₁ t₁ _ hmove => ?_
      obtain ⟨rfl, rfl, hfresh⟩ := hmove
      exact (finishString_mirrors hfresh (by simp only; omega) hlo hlo'.le).bind
        fun _ _ _ _ _ h => .pure rfl h
  | none =>
    refine .look_inside hQ position_looks position_looks (fun h => h.pos_eq)
      (.look_inside hQ peek_looks peek_looks (fun h => h.charAt_eq)
        (.look_inside hQ atEnd_looks atEnd_looks (fun h => h.decide_size_le) ?_))
    refine .ite (fun _ => failWith_mirrors rfl rfl fun _ => rfl) fun hmore => ?_
    have hpounds : W.Together false s c t →
        poundsFit W.right.text (quotes.placed W.shift) (W.place s.pos + 1) =
          poundsFit W.left.text quotes (s.pos + 1) := fun h => by
      rw [← Overlap.place_add hlo'.le]
      exact Overlap.poundsFit_place (by omega) h.inside
    refine .look_inside hQ (poundsAt_looks _ _) (poundsAt_looks _ _) hpounds
      (.ite (fun hclose => ?_) fun _ => ?_)
    · simp only [Bool.and_eq_true, beq_iff_eq] at hclose
      obtain ⟨hsize, -⟩ := poundsFit.tokenEnd hclose.1.1 hclose.2
      refine .look_inside hQ (flush_looks _) (flush_looks _) (fun h => flushAt_eq h hin.lo_le) ?_
      refine (advance_tight_mirrors (n := 1 + quotes.pounds) (by omega) (by omega)).bind
        fun _ s₁ c₁ t₁ _ hadv => ?_
      obtain ⟨rfl, rfl, hfresh⟩ := hadv
      exact (finishString_mirrors hfresh (by simp only; omega) hlo hlo'.le).bind
        fun _ _ _ _ _ h => .pure rfl h
    refine .look_inside hQ (poundsAt_looks _ _) (poundsAt_looks _ _) hpounds
      (.ite (fun hescape => ?_) fun _ => ?_)
    · simp only [Bool.and_eq_true, beq_iff_eq] at hescape
      refine .look_inside hQ (flush_looks _) (flush_looks _) (fun h => flushAt_eq h hin.lo_le) ?_
      refine .bind_inner (escapeSequence_mirrors hexpr hescape.1 hescape.2)
        fun segment s₁ c₁ t₁ _ hsegment => .look_inside (fun _ _ _ h => h.1) position_looks
          position_looks (fun h => h.pos_eq) (.pure_of ?_ ⟨nofun, ?_⟩ nofun)
      · exact congrArg (fun segments => Round.next (StringBody.mk segments (W.place s₁.pos)))
          (push_move _ _ _)
      · have := hsegment.1.1
        exact ⟨by omega, hsegment.1, by omega, by simp only; omega⟩
    · simp only [Bool.or_eq_false_iff, decide_eq_false_iff_not, Nat.not_le] at hmore
      refine (advance_tight_mirrors Nat.one_pos hmore.1).bind fun _ s₁ c₁ t₁ _ hadv => ?_
      obtain ⟨rfl, rfl, hfresh⟩ := hadv
      exact .pure_of rfl ⟨by omega, hfresh, by simp only; omega, hin.lo_le⟩ nofun

/-! ### Strings -/

omit hexpr in
theorem openingLine_mirrors {opening : Span} (hfresh : Arrived s c) :
    Mirrors W .tight true (fun _ => false) (openingLine opening W.left.options.styleWarnings)
      (openingLine (W.shift.span opening) W.right.options.styleWarnings) s c t fun _ s' c' =>
        Arrived s' c' := by
  refine .of_linked fun hlink => .peel theText_looks theText_looks ?_
  refine .look_within position_looks position_looks (fun h => h.pos_eq) ?_
  have hlo := Nat.le_trans hlink.lo_le hlink.stands.le_pos
  have hskip := le_skipWhile W.left.text isIndent s.pos
  have hprobe : W.Together false s c t → W.Inside (skipWhile W.left.text isIndent s.pos) := fun h =>
    Overlap.inside_skipWhile h.inside Overlap.not_isIndent_of_endsToken
  have hmatch : ∀ {word : String}, glued word.toList = true → W.Together false s c t →
      matchesAt W.right.text word (skipWhile W.right.text isIndent (W.place s.pos)) =
        matchesAt W.left.text word (skipWhile W.left.text isIndent s.pos) := fun hglued h => by
    rw [Overlap.skipWhile_place hlo (.inl (hprobe h)),
      Overlap.matchesAt_place hglued (by omega) (hprobe h)]
  have hplace : ∀ n, W.Together false s c t →
      skipWhile W.right.text isIndent (W.place s.pos) + n =
        W.place (skipWhile W.left.text isIndent s.pos + n) := fun n h => by
    rw [Overlap.skipWhile_place hlo (.inl (hprobe h)), Overlap.place_add (by omega)]
  dsimp only
  refine .cond_within (hmatch (by decide)) (fun hbreak => ?_) fun _ =>
    .cond_within (hmatch (by decide)) (fun hbreak => ?_) fun _ => ?_
  · exact (moveTo_within_mirrors hfresh (by omega)
      (add_length_le_of_matchesAt hbreak (by decide)) fun h _ => hplace 2 h).mono
        fun _ _ _ _ h => h.2
  · exact (moveTo_within_mirrors hfresh (by omega)
      (add_length_le_of_matchesAt hbreak (by decide)) fun h _ => hplace 1 h).mono
        fun _ _ _ _ h => h.2
  · refine .lower nofun ((warn_if_mirrors rfl rfl).mono fun _ s' c' _ h => ?_)
    obtain ⟨⟨diagnostics, rfl⟩, rfl⟩ := h
    exact hfresh

theorem stringLiteral_mirrors {mode : Mode} (hstring : stringAt W.left.text s.pos = true) :
    Mirrors W mode b (fun _ => true) (stringLiteral interpolate W.left.options.styleWarnings)
      (stringLiteral interpolate' W.right.options.styleWarnings) s c t fun literal _ c' =>
        ReadTo literal.span c c' := by
  have hQ : ∀ (a : StringLiteral) (s' : State) (c' : Nat),
      ReadTo a.span c c' → true = true → c < c' := fun _ _ _ h _ => h.lt
  have hopens := opensToken_of_stringAt hstring
  refine .of_linked fun hlink => .of_lt hQ (inMode_mirrors (hlink.stands.poised_of_opens hopens) ?_)
  have hlo := Nat.le_trans hlink.lo_le hlink.stands.le_pos
  have hc := hlink.stands.le_pos
  refine .of_linked fun hlink => .look_inside hQ position_looks position_looks (fun h => h.pos_eq)
    (.peel theText_looks theText_looks ?_)
  have hskip := le_skipWhile W.left.text (· == '#') s.pos
  have hsign := isSign_of_stringAt hstring
  have hplace : W.Together true { s with mode := .tight } c { t with mode := .tight } →
      skipWhile W.right.text (· == '#') (W.place s.pos) =
        W.place (skipWhile W.left.text (· == '#') s.pos) := fun h =>
    (Overlap.signs_place hlo ((h.strict hsign).inside.imp_left Nat.le_of_lt) fun d hd => by
      rw [beq_iff_eq] at hd
      rw [hd]
      decide).1
  have hmatch : matchesAt W.left.text "\"" (skipWhile W.left.text (· == '#') s.pos) = true :=
    hstring
  have hsize := add_length_le_of_matchesAt hmatch (by decide)
  have hlen : "\"".length = 1 := rfl
  have hlen' : "\"\"\"".length = 3 := rfl
  dsimp only
  generalize skipWhile W.right.text (· == '#') (W.place s.pos) = quote' at hplace ⊢
  generalize skipWhile W.left.text (· == '#') s.pos = quote at hplace hskip hmatch hsize ⊢
  apply Mirrors.replace_inside (v := quote') hQ fun h => hplace (h.mono nofun)
  refine .bind (moveTo_tight_mirrors hskip (by omega)
    (.of_inside fun t ht => (ht.strict hsign).inside) fun _ _ => rfl) fun _ s₁ c₁ t₁ _ hmove => ?_
  obtain ⟨rfl, -⟩ := hmove
  refine .look (startsWith_looks _) (startsWith_looks _) (fun h => h.matchesAt_mark (by decide)) ?_
  have hquotes : quote + (if matchesAt W.left.text "\"\"\"" quote = true then 3 else 1) ≤
      W.left.text.size := by
    split
    · rename_i htriple
      exact add_length_le_of_matchesAt htriple (by decide)
    · exact hsize
  refine (advance_tight_mirrors (by split <;> omega) hquotes).bind fun _ s₂ c₂ t₂ _ hadv => ?_
  obtain ⟨rfl, rfl, hfresh₂⟩ := hadv
  have hlt : quote < quote + (if matchesAt W.left.text "\"\"\"" quote = true then 3 else 1) := by
    split <;> omega
  generalize quote + (if matchesAt W.left.text "\"\"\"" quote = true then 3 else 1) = inner
    at hfresh₂ hlt
  refine (spanFrom_mirrors hfresh₂.sited hlo fun _ => rfl).bind
    fun opening s₃ c₃ t₃ _ hopening => ?_
  obtain ⟨-, rfl, rfl⟩ := hopening
  have hpounds : W.place quote - W.place s.pos = quote - s.pos := by
    have := W.cast_place hlo
    have := W.cast_place (i := quote) (by omega)
    omega
  rw [hpounds, ite_bind, ite_bind]
  refine .bind_inner (P := fun _ s' c' => Arrived s' c')
    (.ite (fun _ => openingLine_mirrors hfresh₂) fun _ => .pure_of rfl hfresh₂ nofun)
    fun _ s₃ c₃ t₃ h₃ hfresh₃ => ?_
  have hle₃ := h₃.pos_le
  have hpos₃ := hfresh₃.1
  refine .look_inside (fun _ _ _ h => h.1) position_looks position_looks (fun h => h.pos_eq) ?_
  refine .repeating false (fun body s' c' => InBody W body s' c') ?_
    ⟨hfresh₃, by simp only at hle₃; omega, by simp only at hle₃ ⊢; omega⟩ nofun
    fun body s₄ c₄ t₄ h₄ hin => (stringStep_mirrors hexpr ?_ hin).mono
      fun round s₅ c₅ _ hround => ?_
  · exact congrArg (StringBody.mk · (W.place s₃.pos)) (by simp [move])
  · simp only at hle₃
    omega
  · have hle₄ := h₄.le
    cases round with
    | next => exact hround
    | done => exact ⟨fun _ _ => hround.lt, fun _ => Nat.lt_of_le_of_lt hle₄ hround.lt,
        hround.mono (by simp only at hle₃; omega)⟩

end Body

end Parser

end PklSyntax
