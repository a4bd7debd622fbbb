import PklSyntax.Proofs.LineEnding.Token
import PklSyntax.Proofs.Placement.Grammar

/-!
# Other line endings: strings

Of all constructs only strings between triple quotes have line feeds in their text. The loop over the
body of a string goes over one character after the other, so that it takes one round for a line feed
in the first text and two rounds for the carriage return and the line feed in the second one. No
closing quotes are looked for between these two: the line begins behind the line feed. In a string
between single quotes either text fails, the first one at the line feed and the second one behind the
carriage return.

All other rounds correspond one to one, and the rounds that the second loop may take suffice, since it
is given one for each character.

## Main definitions

* `StringBody.placed`: the body at its new place.
* `LineFeeds.breaksFrom`: the number of line feeds from an offset on.

## Main statements

* `LineFeeds.escapeSequence_follows`, `LineFeeds.stringStep_follows`: one round.
* `LineFeeds.stringRounds_follows`: the loop over the body.
* `LineFeeds.stringLiteral_follows`: strings.
-/

namespace PklSyntax

open PklSyntax.Parser

/-- The body of a string, with the text that belongs to no segment yet, at its new place. -/
def StringBody.placed (W : LineFeeds) (body : StringBody) : StringBody :=
  ⟨body.segments.map (Segment.placed W.placement), W.place body.textStart⟩

namespace LineFeeds

variable {W : LineFeeds} {s : State} {quotes : Quotes} {contentStart : Nat} {interpolate : Parser Expr}

/-! ### Quotes -/

theorem stringAt_place (i : Nat) : stringAt W.crlf (W.place i) = stringAt W.text i := by
  rw [stringAt, stringAt, skipWhile_place (by decide), matchesAt_place (by decide)]

theorem onLine_pounds (i : Nat) : W.OnLine i (skipWhile W.text (· == '#') i) :=
  onLine_run (by decide) i

theorem place_pounds (i : Nat) :
    W.place (skipWhile W.text (· == '#') i) - W.place i = skipWhile W.text (· == '#') i - i := by
  obtain ⟨n, hn⟩ := Nat.exists_eq_add_of_le (le_skipWhile W.text (· == '#') i)
  have hline := @onLine_pounds W i
  rw [hn] at hline ⊢
  rw [place_add hline]
  omega

theorem poundsFit_place (quotes : Quotes) (i : Nat) :
    poundsFit W.crlf (quotes.placed W.placement) (W.place i) = poundsFit W.text quotes i := by
  rw [poundsFit, poundsFit, skipWhile_place (by decide), place_pounds]
  rfl

/-- The `#` behind a quote or a backslash stand within a line. -/
theorem onLine_of_poundsFit {i : Nat} (h : poundsFit W.text quotes i = true) :
    W.OnLine i (i + quotes.pounds) := by
  rw [poundsFit, Bool.or_eq_true, beq_iff_eq, beq_iff_eq] at h
  rcases h with h | h
  · rw [h]
    exact onLine_self i
  · have hle := le_skipWhile W.text (· == '#') i
    rw [← h, Nat.add_sub_cancel' hle]
    exact onLine_pounds i

/-- A line begins at the same places. -/
theorem lineBegins_place (i : Nat) :
    (0 < W.place i && charAt W.crlf (W.place i - 1) == '\n' : Bool) =
      (0 < i && charAt W.text (i - 1) == '\n' : Bool) := by
  cases i with
  | zero => rw [place_zero]; rfl
  | succ n =>
    have hpos : 0 < W.place (n + 1) := Nat.lt_of_le_of_lt (Nat.zero_le _) (place_lt_place_succ n)
    by_cases hbreak : charAt W.text n = '\n'
    · rw [place_succ_of_lineFeed hbreak] at hpos ⊢
      simp [hbreak, charAt_place_add_one hbreak]
    · rw [place_succ hbreak] at hpos ⊢
      simp [lineEnd_of_ne hbreak]

theorem closingAt?_place (quotes : Quotes) (i : Nat) :
    closingAt? W.crlf (quotes.placed W.placement) (W.place i) =
      (closingAt? W.text quotes i).map W.place := by
  have hfit : (matchesAt W.crlf "\"\"\"" (W.place (skipWhile W.text isIndent i)) &&
      poundsFit W.crlf (quotes.placed W.placement) (W.place (skipWhile W.text isIndent i) + 3)) =
      (matchesAt W.text "\"\"\"" (skipWhile W.text isIndent i) &&
        poundsFit W.text quotes (skipWhile W.text isIndent i + 3)) := by
    rw [matchesAt_place (by decide)]
    cases hmatch : matchesAt W.text "\"\"\"" (skipWhile W.text isIndent i) with
    | false => rfl
    | true =>
      have hplace : W.place (skipWhile W.text isIndent i + 3) =
          W.place (skipWhile W.text isIndent i) + 3 :=
        place_add_of_matchesAt (by decide) hmatch (Nat.le_refl 3)
      rw [← hplace, poundsFit_place]
  rw [closingAt?, closingAt?, Bool.and_assoc, Bool.and_assoc, lineBegins_place,
    skipWhile_place (p := isIndent) (by decide), hfit]
  show (if (quotes.multiline && _) = true then _ else none) = _
  split
  · split <;> rfl
  · rfl

/-- The closing quotes lie within a line, and so do the blanks in front of them. -/
theorem onLine_of_closingAt? {i probe : Nat} (h : closingAt? W.text quotes i = some probe) :
    W.OnLine i probe ∧ W.OnLine probe (probe + 3 + quotes.pounds) := by
  rw [closingAt?] at h
  split at h
  · split at h
    next hclose =>
      cases h
      rw [Bool.and_eq_true] at hclose
      exact ⟨onLine_run (by decide) i, .trans
        (onLine_of_matchesAt (by decide) hclose.1 (Nat.le_refl 3)) (onLine_of_poundsFit hclose.2)⟩
    next => cases h
  · cases h

/-! ### Segments -/

/-- Taking the text up to the cursor as a segment moves nothing. -/
theorem flush_state {ctx : Context} {body body' : StringBody} {s' : State}
    (h : flush body ctx s = .ok body' s') : s' = s := by
  rw [flush, position_looks.bind_apply] at h
  split at h
  · rw [(sliceFrom_looks _).bind_apply] at h
    cases h
    rfl
  · cases h
    rfl

theorem flush_follows (body : StringBody) :
    W.FollowsAt (StringBody.placed W) (flush body) (flush (body.placed W)) s :=
  .position (.iteProp place_lt_place
    (fun _ => .sliceFrom (.pure (by simp [StringBody.placed, Segment.placed])))
    fun _ => .pure rfl)

theorem unicodeEscape_follows (start : Nat) :
    W.FollowsAt id (unicodeEscape quotes start)
      (unicodeEscape (quotes.placed W.placement) (W.place start)) s := by
  have hfail {α β : Type} (problem : Problem) (start : Nat) (k : α → Parser β) : (do
      let pos ← position
      failWith problem (.ofNat start (pos + 1)) >>= k).GivesUp :=
    .of_idle position_looks.idle fun _ => (failWith_givesUp _ _).bind k
  refine .peek (.ite (lineEnd_class (p := fun c => c != '\x7b') (by decide) _)
    (fun _ => .of_givesUp (hfail _ _ _) (hfail _ _ _)) fun hopen => ?_)
  have hopen : charAt W.text s.pos ≠ '\n' := by
    rw [show charAt W.text s.pos = '\x7b' by simpa using hopen]
    decide
  refine (advance_sign_follows hopen).bind fun _ s₁ _ => .position (.theText
    ((moveTo_follows (skipWhile_place (by decide) _)).bind fun _ s₂ h₂ => ?_))
  cases h₂
  refine .sliceFrom (.peek ?_)
  rw [crlfText_sliceOf (onLine_run (by decide) _), lineEnd_class (p := (· != '\x7d')) (by decide)]
  refine .ite rfl (fun _ => .of_givesUp (hfail _ _ _) (hfail _ _ _)) fun hclose => ?_
  refine (advance_sign_follows fun hbreak => ?_).bind fun _ s₃ _ => ?_
  · rw [hbreak] at hclose
    exact absurd hclose (by simp)
  dsimp only
  split
  · exact .pure rfl
  · exact .spanFrom failWith_follows

theorem interpolation_follows
    (hexpr : ∀ s, W.FollowsAt (Expr.placed W.placement) interpolate interpolate s) :
    W.FollowsAt (Expr.placed W.placement) (interpolation interpolate) (interpolation interpolate) s := by
  refine .inMode (skip_follows.bind fun _ s₁ _ => (hexpr s₁).bind fun e s₂ _ =>
    skip_follows.bind fun _ s₃ _ => .peek (.ite (lineEnd_class (p := (· != ')')) (by decide) _)
      (fun _ => .of_givesUp ?_ ?_) fun hclose => ?_))
  · exact .of_idle position_looks.idle fun _ => (failWith_givesUp _ _).bind _
  · exact .of_idle position_looks.idle fun _ => (failWith_givesUp _ _).bind _
  · exact (advance_sign_follows fun hbreak => by simp [hbreak] at hclose).bind fun _ _ _ => .pure rfl

/-- A line feed is no letter of a short escape, and neither is a carriage return. -/
theorem shortEscape?_lineEnd (c : Char) : shortEscape? (lineEnd c) = shortEscape? c := by
  by_cases hbreak : c = '\n'
  · rw [hbreak]
    rfl
  · rw [lineEnd_of_ne hbreak]

theorem escapeSequence_follows
    (hexpr : ∀ s, W.FollowsAt (Expr.placed W.placement) interpolate interpolate s)
    (hslash : charAt W.text s.pos = '\\') (hfit : poundsFit W.text quotes (s.pos + 1) = true) :
    W.FollowsAt (Segment.placed W.placement) (escapeSequence quotes interpolate)
      (escapeSequence (quotes.placed W.placement) interpolate) s := by
  have hline : W.OnLine s.pos (s.pos + (1 + quotes.pounds)) := by
    rw [← Nat.add_assoc]
    exact (onLine_succ (by rw [hslash]; decide)).trans (onLine_of_poundsFit hfit)
  refine .position ((advance_follows (place_add hline)).bind fun _ s₁ _ => .peek ?_)
  rw [shortEscape?_lineEnd, lineEnd_beq (by decide), lineEnd_beq (by decide)]
  have hadvance {c : Char} (h : charAt W.text s₁.pos = c) (hc : c ≠ '\n') :
      W.FollowsAt id (advance 1) (advance 1) s₁ := advance_sign_follows (by rwa [h])
  cases hshort : shortEscape? (charAt W.text s₁.pos) with
  | some value =>
    refine (advance_sign_follows fun hbreak => ?_).bind fun _ s₂ _ => .spanFrom (.pure ?_)
    · rw [hbreak, show shortEscape? '\n' = none by decide] at hshort
      cases hshort
    · simp [Segment.placed]
  | none =>
    refine .ite rfl (fun hu => ?_) fun _ => .ite rfl (fun hopen => ?_) fun _ =>
      .position (.of_givesUp ?_ ?_)
    · exact (hadvance (beq_iff_eq.1 hu) (by decide)).bind fun _ s₂ _ =>
        (unicodeEscape_follows _).bind fun value s₃ _ => .spanFrom (.pure (by simp [Segment.placed]))
    · exact (hadvance (beq_iff_eq.1 hopen) (by decide)).bind fun _ s₂ _ =>
        (interpolation_follows hexpr).bind fun e s₃ _ => .spanFrom (.pure (by simp [Segment.placed]))
    · exact .of_idle (slice_looks _ _).idle fun _ => failWith_givesUp _ _
    · exact .of_idle (slice_looks _ _).idle fun _ => failWith_givesUp _ _

/-! ### The body of a string -/

theorem finishString_follows (contentStop : Nat) (segments : Array Segment) (indent : Option String) :
    W.FollowsAt (StringLiteral.placed W.placement)
      (finishString quotes contentStart contentStop segments indent)
      (finishString (quotes.placed W.placement) (W.place contentStart) (W.place contentStop)
        (segments.map (Segment.placed W.placement)) indent) s :=
  .position (.pure (by simp [StringLiteral.placed, Quotes.placed, Placement.span, Span.ofNat]))

/-- One round, unless it goes over a line feed. -/
theorem stringStep_follows
    (hexpr : ∀ s, W.FollowsAt (Expr.placed W.placement) interpolate interpolate s)
    (body : StringBody) (hplain : closingAt? W.text quotes s.pos = none → charAt W.text s.pos ≠ '\n') :
    W.FollowsAt (Round.map (StringBody.placed W) (StringLiteral.placed W.placement))
      (stringStep quotes contentStart interpolate body)
      (stringStep (quotes.placed W.placement) (W.place contentStart) interpolate (body.placed W)) s := by
  refine .look (closingLine?_looks quotes) (closingLine?_looks _) (closingAt?_place quotes s.pos) ?_
  cases hclosing : closingAt? W.text quotes s.pos with
  | some probe =>
    obtain ⟨hindent, hquotes⟩ := onLine_of_closingAt? hclosing
    have hstop : W.place (probe + 3 + quotes.pounds) = W.place probe + 3 + quotes.pounds := by
      rw [Nat.add_assoc] at hquotes ⊢
      rw [place_add hquotes, Nat.add_assoc]
    refine .position ((flush_follows body).bind fun body' s₁ _ => .slice ?_)
    rw [crlfText_sliceOf hindent]
    exact (moveTo_follows hstop.symm).bind fun _ s₂ _ => (finishString_follows _ _ _).bind
      fun _ _ _ => .pure rfl
  | none =>
    have hbreak := hplain hclosing
    have hnext : W.place (s.pos + 1) = W.place s.pos + 1 := place_succ hbreak
    have hfit : poundsFit W.crlf (quotes.placed W.placement) (W.place s.pos + 1) =
        poundsFit W.text quotes (s.pos + 1) := by rw [← hnext, poundsFit_place]
    refine .position (.peek (.atEnd ?_))
    rw [lineEnd_of_ne hbreak]
    refine .ite rfl (fun _ => failWith_follows) fun _ =>
      .look (poundsAt_looks quotes _) (poundsAt_looks _ _) hfit (.ite rfl (fun hquote => ?_)
        fun _ => .look (poundsAt_looks quotes _) (poundsAt_looks _ _) hfit
          (.ite rfl (fun hslash => ?_) fun _ => ?_))
    · rw [Bool.and_eq_true] at hquote
      have hline : W.OnLine s.pos (s.pos + (1 + quotes.pounds)) := by
        rw [← Nat.add_assoc]
        exact (onLine_succ hbreak).trans (onLine_of_poundsFit hquote.2)
      refine (flush_follows body).bind fun body' s₁ h₁ => ?_
      obtain rfl := flush_state h₁
      exact (advance_follows (place_add hline)).bind fun _ s₂ _ => (finishString_follows _ _ _).bind
        fun _ _ _ => .pure rfl
    · rw [Bool.and_eq_true, beq_iff_eq] at hslash
      refine (flush_follows body).bind fun body' s₁ h₁ => ?_
      obtain rfl := flush_state h₁
      refine (escapeSequence_follows hexpr hslash.1 hslash.2).bind fun segment s₂ _ =>
        .position (.pure ?_)
      simp [Round.map, StringBody.placed]
    · exact (advance_sign_follows hbreak).bind fun _ _ _ => .pure rfl

/-! ### The loop over the body -/

variable (W) in
/-- The number of line feeds from an offset on. -/
def breaksFrom (i : Nat) : Nat := (W.text.toList.drop i).count '\n'

theorem breaksFrom_le {i j : Nat} (h : min i W.text.size ≤ j) : W.breaksFrom j ≤ W.breaksFrom i := by
  rcases Nat.le_total i W.text.size with hi | hi
  · exact (List.drop_sublist_drop_left _ (Nat.min_eq_left hi ▸ h)).count_le '\n'
  · rw [breaksFrom, List.drop_eq_nil_of_le (by rw [Array.length_toList]; omega)]
    exact Nat.zero_le _

theorem breaksFrom_lineFeed {i : Nat} (h : charAt W.text i = '\n') :
    W.breaksFrom i = W.breaksFrom (i + 1) + 1 := by
  have hi : i < W.text.size := lt_size_of_charAt_ne (by rw [h]; decide)
  rw [breaksFrom, drop_text hi, h, List.count_cons_self, breaksFrom]

theorem size_sub_place (i : Nat) : W.crlf.size - W.place i = W.text.size - i + W.breaksFrom i := by
  rcases Nat.le_total i W.text.size with hi | hi
  · have hcount : W.text.toList.count '\n' =
        (W.text.toList.take i).count '\n' + (W.text.toList.drop i).count '\n' := by
      rw [← List.count_append, List.take_append_drop]
    rw [← place_size, place, place, breaksFrom, ← Array.length_toList, List.take_length, hcount]
    rw [← Array.length_toList] at hi
    omega
  · have hplace := (@size_le_place W i).2 hi
    rw [breaksFrom, List.drop_eq_nil_of_le (by rw [Array.length_toList]; omega), List.count_nil]
    omega

/-- A round that goes over one character of the text. -/
theorem stringStep_plain {ctx : Context} {body : StringBody} (hlt : s.pos < ctx.text.size)
    (hclosing : closingAt? ctx.text quotes s.pos = none) (hquote : charAt ctx.text s.pos ≠ '"')
    (hslash : charAt ctx.text s.pos ≠ '\\')
    (hline : quotes.multiline = true ∨ charAt ctx.text s.pos ≠ '\n') :
    stringStep quotes contentStart interpolate body ctx s =
      .ok (.next body) { s with pos := s.pos + 1 } := by
  have hend : (decide (ctx.text.size ≤ s.pos) ||
      !quotes.multiline && charAt ctx.text s.pos == '\n') = false := by
    rw [decide_eq_false (Nat.not_le.2 hlt), Bool.false_or]
    rcases hline with hline | hline
    · rw [hline]
      rfl
    · rw [beq_eq_false_iff_ne.2 hline, Bool.and_false]
  rw [stringStep, (closingLine?_looks quotes).bind_apply, hclosing]
  simp only
  rw [position_looks.bind_apply, peek_looks.bind_apply, atEnd_looks.bind_apply, hend,
    if_neg Bool.false_ne_true, (poundsAt_looks quotes _).bind_apply, beq_eq_false_iff_ne.2 hquote,
    Bool.false_and, Bool.false_and, if_neg Bool.false_ne_true, (poundsAt_looks quotes _).bind_apply,
    beq_eq_false_iff_ne.2 hslash, Bool.false_and, if_neg Bool.false_ne_true]
  show EStateM.Result.ok (Round.next body) { s with pos := min ctx.text.size (s.pos + 1) } = _
  rw [Nat.min_eq_right hlt]

/-- A string between single quotes is not closed behind its line. -/
theorem closingAt?_of_single {text : Array Char} (h : quotes.multiline = false) (i : Nat) :
    closingAt? text quotes i = none := by
  rw [closingAt?, h]
  rfl

/-- A line feed ends a string between single quotes before its time. -/
theorem stringStep_unterminated {ctx : Context} {body : StringBody} (hquotes : quotes.multiline = false)
    (hbreak : charAt ctx.text s.pos = '\n') :
    ∃ t, stringStep quotes contentStart interpolate body ctx s = .error .failed t := by
  rw [stringStep, (closingLine?_looks quotes).bind_apply, closingAt?_of_single hquotes]
  simp only
  rw [position_looks.bind_apply, peek_looks.bind_apply, atEnd_looks.bind_apply, hbreak, hquotes,
    if_pos (by simp)]
  exact ⟨_, rfl⟩

/-- A line feed within the body of a string. -/
theorem stringRounds_lineFeed {n m : Nat} {body : StringBody} (hbreak : charAt W.text s.pos = '\n')
    (hclosing : closingAt? W.text quotes s.pos = none)
    (hrest : quotes.multiline = true → W.FollowsAt (StringLiteral.placed W.placement)
      (rounds (stringStep quotes contentStart interpolate) n body)
      (rounds (stringStep (quotes.placed W.placement) (W.place contentStart) interpolate) m
        (body.placed W)) { s with pos := s.pos + 1 }) :
    W.FollowsAt (StringLiteral.placed W.placement)
      (rounds (stringStep quotes contentStart interpolate) (n + 1) body)
      (rounds (stringStep (quotes.placed W.placement) (W.place contentStart) interpolate) (m + 2)
        (body.placed W)) s := by
  have hlt : s.pos < W.text.size := lt_size_of_charAt_ne (by rw [hbreak]; decide)
  have hreturn : charAt W.crlf (W.place s.pos) = '\r' := by rw [charAt_place, hbreak, lineEnd_lineFeed]
  have hfeed : charAt W.crlf (W.place s.pos + 1) = '\n' := charAt_place_add_one hbreak
  have hclosing₁ : closingAt? W.crlf (quotes.placed W.placement) (W.place s.pos) = none := by
    rw [closingAt?_place, hclosing]
    rfl
  have hstep₁ : stringStep (quotes.placed W.placement) (W.place contentStart) interpolate
      (body.placed W) W.behind (W.moved s) =
        .ok (.next (body.placed W)) { W.moved s with pos := W.place s.pos + 1 } :=
    stringStep_plain (place_lt_size.2 hlt) hclosing₁ (by rw [pos_moved, hreturn]; decide)
      (by rw [pos_moved, hreturn]; decide) (.inr (by rw [pos_moved, hreturn]; decide))
  cases hmulti : quotes.multiline with
  | true =>
    have hstep : stringStep quotes contentStart interpolate body W.front s =
        .ok (.next body) { s with pos := s.pos + 1 } :=
      stringStep_plain hlt hclosing (by rw [hbreak]; decide) (by rw [hbreak]; decide) (.inl hmulti)
    -- Between the carriage return and the line feed no line begins.
    have hclosing₂ : closingAt? W.crlf (quotes.placed W.placement) (W.place s.pos + 1) = none := by
      rw [closingAt?, Nat.add_sub_cancel, hreturn]
      simp
    have hstep₂ : stringStep (quotes.placed W.placement) (W.place contentStart) interpolate
        (body.placed W) W.behind { W.moved s with pos := W.place s.pos + 1 } =
          .ok (.next (body.placed W)) { W.moved s with pos := W.place s.pos + 1 + 1 } :=
      stringStep_plain (lt_size_of_charAt_ne (by rw [hfeed]; decide)) hclosing₂
        (by rw [hfeed]; decide) (by rw [hfeed]; decide) (.inl hmulti)
    have hstate : { W.moved s with pos := W.place s.pos + 1 + 1 } =
        W.moved { s with pos := s.pos + 1 } := by
      simp only [moved, place_succ_of_lineFeed hbreak]
    have hbehind := (rounds_of_next (n := m + 1) hstep₁).trans (rounds_of_next hstep₂)
    rw [hstate] at hbehind
    rw [FollowsAt, rounds_of_next hstep, hbehind]
    exact hrest hmulti
  | false =>
    obtain ⟨t, hstep⟩ : ∃ t, stringStep quotes contentStart interpolate body W.front s =
        .error .failed t := stringStep_unterminated hmulti hbreak
    obtain ⟨t', hstep₂⟩ : ∃ t, stringStep (quotes.placed W.placement) (W.place contentStart)
        interpolate (body.placed W) W.behind { W.moved s with pos := W.place s.pos + 1 } =
          .error .failed t := stringStep_unterminated hmulti hfeed
    rw [FollowsAt, rounds_of_error hstep]
    exact ⟨t', (rounds_of_next hstep₁).trans (rounds_of_error hstep₂)⟩

/-- The loop over the body of a string, when it may take a round more for every line feed. -/
theorem stringRounds_follows
    (hgrows : ∀ s, interpolate.Grows W.front s fun e _ => (Node.expr e).WellFormed)
    (hexpr : ∀ s, W.FollowsAt (Expr.placed W.placement) interpolate interpolate s) {n m : Nat}
    {body : StringBody} (hbody : StringBody.WellFormed body) {s : State}
    (h : n + W.breaksFrom s.pos ≤ m) :
    W.FollowsAt (StringLiteral.placed W.placement)
      (rounds (stringStep quotes contentStart interpolate) n body)
      (rounds (stringStep (quotes.placed W.placement) (W.place contentStart) interpolate) m
        (body.placed W)) s := by
  induction n generalizing m body s with
  | zero => exact .of_stop nofun
  | succ n ih =>
    by_cases hfeed : closingAt? W.text quotes s.pos = none ∧ charAt W.text s.pos = '\n'
    · have hbreaks := breaksFrom_lineFeed hfeed.2
      obtain ⟨m, rfl⟩ : ∃ k, m = k + 2 := ⟨m - 2, by omega⟩
      exact stringRounds_lineFeed hfeed.2 hfeed.1 fun _ => ih hbody (by simp only; omega)
    · obtain ⟨m, rfl⟩ : ∃ k, m = k + 1 := ⟨m - 1, by omega⟩
      refine (stringStep_follows hexpr body fun hclosing hbreak => hfeed ⟨hclosing, hbreak⟩).bind
        fun round s' hrun => ?_
      obtain ⟨hgrown, hround⟩ := (stringStep_grows hgrows hbody).of_ok hrun
      cases round with
      | next body' =>
        have := breaksFrom_le hgrown.pos_le
        exact ih hround (by omega)
      | done literal => exact .pure rfl

/-! ### The line break behind opening triple quotes -/

/-- A character other than NUL stands at an offset. -/
theorem getElem?_beq {text : Array Char} {i : Nat} {c : Char} (hc : c ≠ '\x00') :
    (text[i]? == some c) = (charAt text i == c) := by
  rw [charAt, Array.getD_eq_getD_getElem?]
  cases text[i]? with
  | none => simp [hc.symm]
  | some d => simp

theorem matchesAt_lineFeed (text : Array Char) (i : Nat) :
    matchesAt text "\n" i = (charAt text i == '\n') := by
  rw [matchesAt, show "\n".toList = ['\n'] by decide, charsMatchAt, charsMatchAt, Bool.and_true,
    getElem?_beq (by decide)]

theorem matchesAt_crlf (text : Array Char) (i : Nat) :
    matchesAt text "\r\n" i = (charAt text i == '\r' && charAt text (i + 1) == '\n') := by
  rw [matchesAt, show "\r\n".toList = ['\r', '\n'] by decide, charsMatchAt, charsMatchAt, charsMatchAt,
    Bool.and_true, getElem?_beq (by decide), getElem?_beq (by decide)]

theorem openingLine_follows (opening : Span) (styleWarnings : Bool) :
    W.FollowsAt id (openingLine opening styleWarnings)
      (openingLine (W.placement.span opening) styleWarnings) s := by
  refine .theText (.position ?_)
  rw [skipWhile_place (p := isIndent) (by decide)]
  dsimp only
  rw [matchesAt_crlf, matchesAt_crlf, matchesAt_lineFeed, matchesAt_lineFeed, charAt_place,
    beq_eq_false_iff_ne.2 (charAt_ne_return _), Bool.false_and, if_neg Bool.false_ne_true]
  by_cases hbreak : charAt W.text (skipWhile W.text isIndent s.pos) = '\n'
  · rw [charAt_place_add_one hbreak, hbreak, if_pos (by decide), if_pos (by decide)]
    exact moveTo_follows (place_succ_of_lineFeed hbreak).symm
  · rw [lineEnd_of_ne hbreak, beq_eq_false_iff_ne.2 (charAt_ne_return _),
      beq_eq_false_iff_ne.2 hbreak, Bool.false_and, if_neg Bool.false_ne_true,
      if_neg Bool.false_ne_true, if_neg Bool.false_ne_true]
    exact .ite rfl (fun _ => report_follows rfl) fun _ => .pure rfl

theorem stringLiteral_follows (styleWarnings : Bool)
    (hgrows : ∀ s, interpolate.Grows W.front s fun e _ => (Node.expr e).WellFormed)
    (hexpr : ∀ s, W.FollowsAt (Expr.placed W.placement) interpolate interpolate s)
    (hstring : stringAt W.text s.pos = true) :
    W.FollowsAt (StringLiteral.placed W.placement) (stringLiteral interpolate styleWarnings)
      (stringLiteral interpolate styleWarnings) s := by
  refine .inMode (.position (.theText ((moveTo_follows (skipWhile_place (by decide) _)).bind
    fun _ s₁ h₁ => .startsWith (by decide) ?_)))
  cases h₁
  rw [skipWhile_place (by decide), place_pounds]
  dsimp only
  have hopening : W.FollowsAt id (advance (if matchesAt W.text "\"\"\"" (skipWhile W.text (· == '#') s.pos) =
      true then 3 else 1)) (advance (if matchesAt W.text "\"\"\"" (skipWhile W.text (· == '#') s.pos) = true
      then 3 else 1)) { s with mode := .tight, pos := skipWhile W.text (· == '#') s.pos } := by
    split
    next hmulti => exact advance_word_follows "\"\"\"" (by decide) hmulti (Nat.le_refl 3)
    next => exact advance_word_follows "\"" (by decide) hstring (Nat.le_refl 1)
  -- The loop over the body, behind the line break of triple quotes.
  have hrounds (quotes : Quotes) (s : State) :
      W.FollowsAt (StringLiteral.placed W.placement)
        (do
          let contentStart ← position
          repeating (stringStep quotes contentStart interpolate) ⟨#[], contentStart⟩)
        (do
          let contentStart ← position
          repeating (stringStep (quotes.placed W.placement) contentStart interpolate)
            ⟨#[], contentStart⟩) s := by
    refine .position (.theText (.position ?_))
    have hfuel : W.text.size - s.pos + 1 + W.breaksFrom s.pos ≤ W.crlf.size - W.place s.pos + 1 := by
      rw [size_sub_place]
      omega
    have hempty : StringBody.WellFormed ⟨#[], s.pos⟩ := by simp [StringBody.WellFormed]
    have hplaced : StringBody.placed W ⟨#[], s.pos⟩ = ⟨#[], W.place s.pos⟩ := by
      rw [StringBody.placed, Array.map_empty]
    rw [← hplaced]
    exact stringRounds_follows hgrows hexpr hempty hfuel
  refine hopening.bind fun _ s₂ _ => .spanFrom (.ite rfl (fun _ => ?_) fun _ => ?_)
  · exact (openingLine_follows _ _).bind fun _ s₃ _ => hrounds _ s₃
  · exact hrounds _ s₂

end LineFeeds

end PklSyntax
