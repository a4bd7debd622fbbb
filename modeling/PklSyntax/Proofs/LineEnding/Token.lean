import PklSyntax.Proofs.LineEnding.Lockstep

/-!
# Other line endings: tokens, names and numbers

Tokens, names and numbers lie within a line, so that they are the same text in both readings, at
other places.

## Main statements

* `LineFeeds.accept?_follows`, `LineFeeds.expect_follows`, `LineFeeds.commaList_follows`: tokens.
* `LineFeeds.expectName_follows`, `LineFeeds.qualifiedName_follows`: names.
* `LineFeeds.number_follows`: numbers.
-/

namespace PklSyntax

open PklSyntax.Parser

theorem Parser.failExpected_givesUp {α : Type} (what : String) :
    (failExpected what : Parser α).GivesUp :=
  .of_idle peek_looks.idle fun _ => .of_idle atEnd_looks.idle fun _ => .ite
    (.of_idle here_idle fun _ => failWith_givesUp _ _)
    (.of_idle describeCurrent_idle fun _ => .of_idle here_idle fun _ => failWith_givesUp _ _)

namespace LineFeeds

variable {α β γ δ : Type} {W : LineFeeds} {s : State}

theorem failExpected_follows {f : α → β} (what : String) :
    W.FollowsAt f (failExpected what) (failExpected what) s :=
  .of_givesUp (failExpected_givesUp what) (failExpected_givesUp what)

theorem failWith_follows {f : α → β} {problem problem' : Problem} {span span' : Span} :
    W.FollowsAt f (failWith problem span) (failWith problem' span') s :=
  .of_givesUp (failWith_givesUp _ _) (failWith_givesUp _ _)

/-! ### Tokens -/

theorem atToken_follows (token : String) (htoken : InLine token) :
    W.FollowsAt id (atToken token) (atToken token) s :=
  skip_follows.bind fun _ s₁ _ =>
    .value (startsWith_looks token) (startsWith_looks token) (matchesAt_place htoken s₁.pos)

theorem atKeyword_follows (word : String) (hword : InLine word) :
    W.FollowsAt id (atKeyword word) (atKeyword word) s :=
  skip_follows.bind fun _ s₁ _ =>
    .value (atWord_looks word) (atWord_looks word) (wordAt_place hword s₁.pos)

theorem atAssign_follows : W.FollowsAt id atAssign atAssign s :=
  (atToken_follows "=" (by decide)).bind fun _ _ _ =>
    .ite rfl (fun _ => .startsWith (by decide) (.pure rfl)) fun _ => .pure rfl

/-- Moving over a token that is found behind the trivia. -/
theorem advance_found_follows {token : String} {found : Bool} {s' : State}
    (h : atToken token W.front s = .ok found s') (hfound : found = true)
    (htoken : InLine token) :
    W.FollowsAt id (advance token.length) (advance token.length) s' :=
  advance_word_follows token htoken (((atToken_grows token).of_ok h).2.2 ▸ hfound) (Nat.le_refl _)

/-- Moving over a sign of assignment that is found behind the trivia. -/
theorem advance_assign_follows {found : Bool} {s' : State} (h : atAssign W.front s = .ok found s')
    (hfound : found = true) : W.FollowsAt id (advance 1) (advance 1) s' := by
  have hequals : atAssign.Grows W.front s fun found s' =>
      found = true → matchesAt W.text "=" s'.pos = true :=
    (atToken_grows "=").bind fun found s₁ _ h₁ => .ite
      (fun h => .look (startsWith_looks "==") (.pure fun _ => h₁.2 ▸ h)) fun _ => .pure nofun
  exact advance_word_follows "=" (by decide) ((hequals.of_ok h).2 hfound) (Nat.le_refl 1)

theorem takeToken_follows {n : Nat} (token : String) (h : matchesAt W.text token s.pos = true)
    (hn : n ≤ token.length) (htoken : InLine token) :
    W.FollowsAt W.placement.span (takeToken n) (takeToken n) s :=
  .position ((advance_word_follows token htoken h hn).bind fun _ _ _ =>
    .value (spanFrom_looks _) (spanFrom_looks _) rfl)

theorem accept?_follows (token : String) (htoken : InLine token) :
    W.FollowsAt (Option.map W.placement.span) (accept? token) (accept? token) s := by
  refine (atToken_follows token htoken).bind fun found s₁ h₁ => .ite rfl (fun hfound => ?_)
    fun _ => .pure rfl
  obtain ⟨-, -, hmatch⟩ := (atToken_grows token).of_ok h₁
  exact (takeToken_follows token (hmatch ▸ hfound) (Nat.le_refl _) htoken).bind fun _ _ _ => .pure rfl

theorem accept_follows (token : String) (htoken : InLine token) :
    W.FollowsAt id (accept token) (accept token) s :=
  (accept?_follows token htoken).bind fun _ _ _ => .pure Option.isSome_map

theorem acceptKeyword_follows (word : String) (hword : InLine word) :
    W.FollowsAt id (acceptKeyword word) (acceptKeyword word) s := by
  refine (atKeyword_follows word hword).bind fun found s₁ h₁ => .ite rfl (fun hfound => ?_)
    fun _ => .pure rfl
  obtain ⟨-, -, hmatch⟩ := (atKeyword_grows word).of_ok h₁
  exact (advance_word_follows word hword (matchesAt_of_wordAt (hmatch ▸ hfound)) (Nat.le_refl _)).bind
    fun _ _ _ => .pure rfl

theorem expect_follows (token : String) (htoken : InLine token) :
    W.FollowsAt W.placement.span (expect token) (expect token) s := by
  refine (accept?_follows token htoken).bind fun span? s₁ _ => ?_
  cases span? with
  | some span => exact .pure rfl
  | none => exact failExpected_follows _

theorem expectKeyword_follows (word : String) (hword : InLine word) :
    W.FollowsAt id (expectKeyword word) (expectKeyword word) s :=
  (acceptKeyword_follows word hword).bind fun _ _ _ =>
    .ite rfl (fun _ => failExpected_follows _) fun _ => .pure rfl

theorem commaList_follows {f : α → β} {close : String} {item : Parser α} {item' : Parser β}
    (hitem : ∀ s, W.FollowsAt f item item' s) (hclose : InLine close) :
    W.FollowsAt (List.map f) (commaList close item) (commaList close item') s := by
  refine FollowsAt.bind (f := Array.map f) (.repeating (f := Array.map f) (fun items s₁ => ?_) Array.map_empty.symm)
    fun items _ _ => .pure Array.toList_map
  refine (atToken_follows close hclose).bind fun _ s₂ _ => .ite rfl (fun _ => .pure rfl) fun _ => ?_
  refine (hitem s₂).bind fun a s₃ _ => (accept_follows "," (by decide)).bind fun _ _ _ =>
    .ite rfl (fun _ => .pure ?_) fun _ => .pure ?_
  · rw [Round.map, Array.map_push]
  · rw [Round.map, Array.map_push]

/-- What is read when something that announces it was found. -/
theorem announced_follows {f : α → β} {g : γ → δ} {announced : Parser Bool} {p : Parser α}
    {q : Parser β} {k : Option α → Parser γ} {k' : Option β → Parser δ}
    (hannounced : W.FollowsAt id announced announced s) (hp : ∀ s, W.FollowsAt f p q s)
    (hk : ∀ a? s', W.FollowsAt g (k a?) (k' (a?.map f)) s') :
    W.FollowsAt g
      (do
        let found ← announced
        if found = true then do
          let a ← some <$> p
          k a
        else do
          let a ← pure none
          k a)
      (do
        let found ← announced
        if found = true then do
          let a ← some <$> q
          k' a
        else do
          let a ← pure none
          k' a) s :=
  hannounced.bind fun _ s₁ _ => .join rfl (fun _ => (hp s₁).map fun _ => rfl) (fun _ => .pure rfl) hk

/-! ### Names -/

theorem continuesName_ne_lineFeed {c : Char} (h : continuesName c = true) : c ≠ '\n' := by
  rintro rfl
  exact absurd h (by decide)

/-- A name between backticks ends with its line in both texts, or with the second backtick. -/
theorem quoteEnd_place (i : Nat) :
    (charAt W.text (skipWhile W.text (fun c => c != backtick && c != '\n') i) ≠ '\n' →
      skipWhile W.crlf (fun c => c != backtick && c != '\n') (W.place i) =
        W.place (skipWhile W.text (fun c => c != backtick && c != '\n') i)) ∧
    (charAt W.crlf (skipWhile W.crlf (fun c => c != backtick && c != '\n') (W.place i)) == backtick) =
      (charAt W.text (skipWhile W.text (fun c => c != backtick && c != '\n') i) == backtick) := by
  rw [skipWhile_place_line (by decide) (by decide)]
  refine ⟨lineStop_of_ne, ?_⟩
  by_cases hbreak : charAt W.text (skipWhile W.text (fun c => c != backtick && c != '\n') i) = '\n'
  · rw [lineStop_of_lineFeed hbreak, charAt_place_add_one hbreak, hbreak]
  · rw [lineStop_of_ne hbreak, charAt_place, lineEnd_of_ne hbreak]

theorem quotedIdentifier_follows (h : charAt W.text s.pos = backtick) :
    W.FollowsAt (Identifier.placed W.placement) quotedIdentifier quotedIdentifier s := by
  have hopen : W.place (s.pos + 1) = W.place s.pos + 1 := place_succ (by rw [h]; decide)
  obtain ⟨hstop, hquote⟩ := @quoteEnd_place W (s.pos + 1)
  refine .theText (.position ?_)
  rw [hopen] at hstop hquote
  refine .ite hquote (fun hclose => ?_) fun _ => failWith_follows
  have hbreak : charAt W.text (skipWhile W.text (fun c => c != backtick && c != '\n') (s.pos + 1)) ≠
      '\n' := by
    rw [beq_iff_eq.1 hclose]
    decide
  rw [hstop hbreak, ← hopen]
  refine (moveTo_follows (place_succ hbreak).symm).bind fun _ s₁ _ => .slice (.spanFrom (.pure ?_))
  rw [crlfText_sliceOf (onLine_run (by decide) _)]
  rfl

theorem identifier?_follows :
    W.FollowsAt (Option.map (Identifier.placed W.placement)) identifier? identifier? s := by
  refine .peek (.ite (lineEnd_beq (by decide)) (fun hfirst => ?_) fun _ =>
    .ite (lineEnd_class (p := startsName) (by decide) _) (fun hfirst => ?_) fun _ => .pure rfl)
  · exact (quotedIdentifier_follows (beq_iff_eq.1 hfirst)).bind fun _ _ _ => .pure rfl
  · refine .position (.wordEnd ((moveTo_follows rfl).bind fun _ s₁ h₁ => ?_))
    cases h₁
    refine .sliceFrom (.spanFrom (.pure ?_))
    rw [crlfText_sliceOf (onLine_run (by decide) _), lineEnd_of_ne (continuesName_ne_lineFeed (continuesName_of_startsName hfirst))]
    rfl

theorem identifier_follows (what : String) :
    W.FollowsAt (Identifier.placed W.placement) (identifier what) (identifier what) s := by
  refine identifier?_follows.bind fun name? s₁ _ => ?_
  cases name? with
  | some name => exact .pure rfl
  | none => exact failExpected_follows _

theorem expectName_follows (what : String) :
    W.FollowsAt (Identifier.placed W.placement) (expectName what) (expectName what) s :=
  skip_follows.bind fun _ _ _ => (identifier_follows what).bind fun _ _ _ =>
    .guard rfl (failWith_givesUp _ _) (failWith_givesUp _ _) fun _ => .pure rfl

/-- A point with a name behind it is the same in both texts. -/
theorem pathStep_place (i : Nat) :
    (charAt W.crlf (W.place i) == '.' &&
      (charAt W.crlf (W.place i + 1) == backtick || startsName (charAt W.crlf (W.place i + 1)))) =
      (charAt W.text i == '.' && (charAt W.text (i + 1) == backtick || startsName (charAt W.text (i + 1)))) := by
  rw [charAt_place]
  exact sign_and (p := fun c => c == backtick || startsName c) (by decide) (by decide) i

theorem qualifiedName_follows (what : String) :
    W.FollowsAt (NamedType.placed W.placement) (qualifiedName what) (qualifiedName what) s := by
  refine (identifier_follows what).bind fun first s₁ _ => ?_
  refine FollowsAt.bind (f := Array.map (Identifier.placed W.placement))
    (.repeating (f := Array.map (Identifier.placed W.placement)) (fun path s₂ => ?_) (by simp))
    fun path s₂ _ => .pure ?_
  · refine .look atPathStep_looks atPathStep_looks (pathStep_place s₂.pos) (.ite rfl (fun hstep => ?_)
      fun _ => .pure rfl)
    rw [Bool.and_eq_true, beq_iff_eq] at hstep
    refine (advance_sign_follows (by rw [hstep.1]; decide)).bind fun _ s₃ _ =>
      (identifier_follows what).bind fun name _ _ => .pure ?_
    rw [Round.map, Array.map_push]
  · have hlast : (path.map (Identifier.placed W.placement)).back?.getD (first.placed W.placement) =
        (path.back?.getD first).placed W.placement := by
      rw [Array.back?_map]
      cases path.back? <;> rfl
    rw [hlast]
    simp [NamedType.placed, Identifier.placed, Placement.span]

/-! ### Numbers -/

theorem numberAt_place (i : Nat) : numberAt W.crlf (W.place i) = numberAt W.text i := by
  rw [numberAt, numberAt, charAt_place, lineEnd_class (p := isDigitLike) (by decide),
    sign_and (p := isDigitLike) (by decide) (by decide), wordAt_place (by decide),
    wordAt_place (by decide)]

/-- The digits of a base, and underscores. -/
theorem digitClass (base : IntBase) :
    (base.isDigit '\r' || '\r' == '_') = false ∧ (base.isDigit '\n' || '\n' == '_') = false := by
  cases base <;> decide

theorem digits_follows (base : IntBase) : W.FollowsAt id (digits base) (digits base) s := by
  have hclass := digitClass base
  refine .position (.theText ((moveTo_follows (skipWhile_place (hclass.1.trans hclass.2.symm) _)).bind
    fun _ s₁ h₁ => ?_))
  cases h₁
  refine .sliceFrom ?_
  rw [crlfText_sliceOf (onLine_run hclass.2 _)]
  dsimp only
  generalize misplacedUnderscore? _ = found?
  cases found? with
  | some found => exact failWith_follows
  | none => exact .pure rfl

theorem digits_onLine (base : IntBase) :
    (digits base).Grows W.front s fun _ s' => W.OnLine s.pos s'.pos := by
  refine .look position_looks (.look theText_looks ?_)
  have hle := le_skipWhile W.text (fun c => base.isDigit c || c == '_') s.pos
  refine (moveTo_grows (by simp only; omega) (skipWhile_le_size _ _)).bind fun _ s₁ _ h₁ =>
    .look (sliceFrom_looks _) ?_
  split
  · exact failWith_grows rfl
  · rw [h₁]
    exact .pure (onLine_run (digitClass base).2 _)

/-- Moving over a character within a line. -/
theorem onLine_advance {s₁ : State} (h : charAt W.text s.pos ≠ '\n')
    (h₁ : s₁ = { s with pos := min W.text.size (s.pos + 1) }) : W.OnLine s.pos s₁.pos := by
  intro k hle hlt
  rw [h₁] at hlt
  exact onLine_succ h k hle (by simp only at hlt; omega)

theorem endOfNumber_follows (start : Nat) :
    W.FollowsAt id (endOfNumber start) (endOfNumber (W.place start)) s :=
  .peek (.ite (lineEnd_class (p := continuesName) (by decide) _)
    (fun _ => .wordEnd (.slice failWith_follows)) fun _ => .pure rfl)

theorem floatWord_follows (start : Nat) (word : String) (hword : InLine word)
    (h : wordAt W.text word s.pos = true) :
    W.FollowsAt (NumberLiteral.placed W.placement) (floatWord start word)
      (floatWord (W.place start) word) s :=
  (advance_word_follows word hword (matchesAt_of_wordAt h) (Nat.le_refl _)).bind fun _ _ _ =>
    .spanFrom (.pure rfl)

theorem basedNumber_follows (start : Nat) (base : IntBase)
    (h : W.OnLine s.pos (s.pos + 2)) :
    W.FollowsAt (NumberLiteral.placed W.placement) (basedNumber start base)
      (basedNumber (W.place start) base) s := by
  have hclass : (!base.isDigit '\r' && '\r' != '_') = (!base.isDigit '\n' && '\n' != '_') := by
    cases base <;> decide
  refine .peekAt 1 ((advance_follows (place_add h)).bind fun _ s₁ _ => .peek (.ite
    (lineEnd_class (p := fun c => !base.isDigit c && c != '_') hclass _)
    (fun _ => .spanFrom (.of_givesUp ((failWith_givesUp _ _).bind _) ((failWith_givesUp _ _).bind _)))
    fun _ => ?_))
  exact (digits_follows base).bind fun run s₂ _ => (endOfNumber_follows start).bind fun _ s₃ _ =>
    .spanFrom (.pure rfl)

theorem fraction_follows : W.FollowsAt id fraction fraction s := by
  refine .peek (.peekAt 1 (.ite (sign_and (p := isDigitLike) (by decide) (by decide) _) (fun hdot => ?_)
    fun _ => .pure rfl))
  rw [Bool.and_eq_true, beq_iff_eq] at hdot
  exact (advance_sign_follows (by rw [hdot.1]; decide)).bind fun _ s₁ _ =>
    (digits_follows .decimal).bind fun _ _ _ => .pure rfl

theorem fraction_onLine : fraction.Grows W.front s fun _ s' => W.OnLine s.pos s'.pos := by
  refine .look peek_looks (.look (peekAt_looks 1) (.ite (fun hdot => ?_) fun _ => .pure (onLine_self _)))
  rw [Bool.and_eq_true, beq_iff_eq] at hdot
  refine (advance_grows 1).bind fun _ s₁ _ h₁ => (digits_onLine .decimal).bind fun _ s₂ _ h₂ => .pure ?_
  exact .trans (onLine_advance (by rw [hdot.1]; decide) h₁) h₂

theorem exponentAt_place (i : Nat) : exponentAt W.crlf (W.place i) = exponentAt W.text i := by
  rw [exponentAt, exponentAt, charAt_place, lineEnd_beq (by decide), lineEnd_beq (by decide)]
  cases hletter : charAt W.text i == 'e' || charAt W.text i == 'E' with
  | false => rfl
  | true =>
    have hone : W.place (i + 1) = W.place i + 1 := place_succ fun hbreak => by
      rw [hbreak] at hletter
      exact absurd hletter (by decide)
    rw [← hone, charAt_place, lineEnd_beq (by decide), lineEnd_beq (by decide),
      lineEnd_class (p := isDigitLike) (by decide)]
    cases hsign : charAt W.text (i + 1) == '+' || charAt W.text (i + 1) == '-' with
    | false => rfl
    | true =>
      have htwo : W.place (i + 2) = W.place i + 2 := by
        rw [place_succ fun hbreak => ?_, hone]
        rw [hbreak] at hsign
        exact absurd hsign (by decide)
      rw [← htwo, charAt_place, lineEnd_class (p := isDigitLike) (by decide)]

/-- The letter of an exponent stands within a line. -/
theorem ne_lineFeed_of_exponentAt {i : Nat} (h : exponentAt W.text i = true) :
    charAt W.text i ≠ '\n' := by
  intro hbreak
  rw [exponentAt, hbreak] at h
  exact absurd h (by simp)

theorem exponent_follows : W.FollowsAt id exponent exponent s := by
  refine .look atExponent_looks atExponent_looks (exponentAt_place s.pos) (.ite rfl (fun hexp => ?_)
    fun _ => .pure rfl)
  refine (advance_sign_follows (ne_lineFeed_of_exponentAt hexp)).bind fun _ s₁ _ => .peek ?_
  have hdigits (s : State) : W.FollowsAt id (do
      let _ ← digits .decimal
      return true) (do
      let _ ← digits .decimal
      return true) s := (digits_follows .decimal).bind fun _ _ _ => .pure rfl
  refine .ite (lineEnd_class (p := fun c => c == '+' || c == '-') (by decide) _) (fun hsign => ?_)
    fun _ => hdigits s₁
  exact (advance_sign_follows fun hbreak => absurd hsign (by rw [hbreak]; decide)).bind fun _ s₂ _ =>
    hdigits s₂

theorem exponent_onLine : exponent.Grows W.front s fun _ s' => W.OnLine s.pos s'.pos := by
  refine .look atExponent_looks (.ite (fun hexp => ?_) fun _ => .pure (onLine_self _))
  refine (advance_grows 1).bind fun _ s₁ _ h₁ => .look peek_looks (.option
    (P := fun _ s' => W.OnLine s.pos s'.pos) () (fun hsign => ?_) (fun _ => ?_) fun _ s₂ _ h₂ => ?_)
  · refine (advance_grows 1).mono fun _ s₂ _ h₂ => .trans (onLine_advance
      (ne_lineFeed_of_exponentAt hexp) h₁) (onLine_advance (fun hbreak => ?_) h₂)
    rw [hbreak] at hsign
    exact absurd hsign (by decide)
  · exact onLine_advance (ne_lineFeed_of_exponentAt hexp) h₁
  · exact (digits_onLine .decimal).bind fun _ s₃ _ h₃ => .pure (h₂.trans h₃)

theorem decimalNumber_follows (start : Nat) (styleWarnings : Bool) (hstart : W.OnLine start s.pos) :
    W.FollowsAt (NumberLiteral.placed W.placement) (decimalNumber start styleWarnings)
      (decimalNumber (W.place start) styleWarnings) s := by
  refine .peek (.branch (f := id) (P := fun _ s' => W.OnLine start s'.pos) (lineEnd_beq (by decide))
    (fun _ => ⟨.pure rfl, fun _ _ h => by cases h; exact hstart⟩)
    (fun _ => ⟨digits_follows .decimal, fun _ _ h =>
      hstart.trans ((digits_onLine .decimal).of_ok h).2⟩) fun integer s₁ h₁ => ?_)
  refine fraction_follows.bind fun hasFraction s₂ h₂ => exponent_follows.bind
    fun hasExponent s₃ h₃ => (endOfNumber_follows start).bind fun _ s₄ h₄ =>
      .spanFrom (.ite rfl (fun _ => .pure rfl) fun _ => .sliceFrom ?_)
  have hline : W.OnLine start s₄.pos := by
    rw [(endOfNumber_grows.of_ok h₄).2.1]
    exact (h₁.trans (fraction_onLine.of_ok h₂).2).trans (exponent_onLine.of_ok h₃).2
  rw [crlfText_sliceOf hline]
  exact .ite rfl (fun _ => (report_follows rfl).bind fun _ _ _ => .pure rfl) fun _ => .pure rfl

/-- The letter of a base. -/
theorem ofLetter?_place {i : Nat} (h : charAt W.text i = '0') :
    IntBase.ofLetter? (charAt W.crlf (W.place i + 1)) = IntBase.ofLetter? (charAt W.text (i + 1)) := by
  rw [charAt_place_succ (by rw [h]; decide)]
  by_cases hbreak : charAt W.text (i + 1) = '\n'
  · rw [hbreak]
    rfl
  · rw [lineEnd_of_ne hbreak]

theorem number_follows (styleWarnings : Bool) :
    W.FollowsAt (NumberLiteral.placed W.placement) (number styleWarnings) (number styleWarnings) s := by
  refine .inMode (.position (.atWord (by decide) (.ite rfl
    (fun hword => floatWord_follows _ "NaN" (by decide) hword) fun _ => .atWord (by decide) (.ite rfl
    (fun hword => floatWord_follows _ "Infinity" (by decide) hword) fun _ => .peek (.peekAt 1 ?_)))))
  rw [lineEnd_beq (by decide)]
  dsimp only
  cases hzero : charAt W.text s.pos == '0' with
  | false => exact decimalNumber_follows _ _ (onLine_self _)
  | true =>
    rw [beq_iff_eq] at hzero
    rw [ofLetter?_place hzero]
    cases hbase : IntBase.ofLetter? (charAt W.text (s.pos + 1)) with
    | none => exact decimalNumber_follows _ _ (onLine_self _)
    | some base =>
      refine basedNumber_follows _ base (.trans (onLine_succ (by rw [hzero]; decide)) (onLine_succ ?_))
      intro hbreak
      rw [hbreak, show IntBase.ofLetter? '\n' = none by decide] at hbase
      cases hbase

end LineFeeds

end PklSyntax
