import PklSyntax.Proofs.Labels.Basic

/-!
# Where the errors of tokens and literals point

What is wrong with a token is reported at the cursor, and what is wrong with a number or a string
from some offset up to the cursor, which has only been moved on since. The quotes of a string have
been read before anything in it.

## Main statements

* `Parser.identifier_inside`, `Parser.expect_inside`: names and tokens that were read lie in the
  text.
* `Parser.Marks.failExpected`, `Parser.Marks.expectName`: tokens and names.
* `Parser.Marks.number`, `Parser.Marks.stringLiteral`: literals.
-/

namespace PklSyntax

/-! ### The cursor moves on -/

/-- All steps leave the cursor where it is or move it on within the text. -/
def Upkeep.forward (ctx : Context) : Upkeep where
  ctx := ctx
  holds s s' := s.pos ≤ ctx.text.size → s.pos ≤ s'.pos ∧ s'.pos ≤ ctx.text.size
  refl _ h := ⟨le_refl _, h⟩
  trans h h' hs := by
    obtain ⟨hle, hsize⟩ := h hs
    exact ⟨hle.trans (h' hsize).1, (h' hsize).2⟩
  inMode _ h := h
  moveTo hkept hs := by
    have hle := hkept.pos_le
    rw [Nat.min_eq_left hs] at hle
    exact ⟨hle, hkept.pos_le_size hs⟩
  report _ _ _ _ h := ⟨le_refl _, h⟩
  skipTrivia s h := by
    rw [State.skipTrivia]
    split
    · exact ⟨le_refl _, h⟩
    · exact ⟨le_skipEnd s.pos, skipEnd_le_size h⟩
  takeDoc s h := by
    obtain ⟨attached, heq, -⟩ := s.takeDoc_eq
    rw [heq]
    exact ⟨le_refl _, h⟩

namespace Parser

variable {α β σ : Type} {ctx : Context} {s : State}

/-- What upholds all that its steps uphold moves the cursor on. -/
theorem forward_leaves {p : Parser α} (h : ∀ U, p.Upholds U) :
    p.Leaves Steady ctx s fun _ s' => s.pos ≤ s'.pos := by
  have : Upkept p := ⟨h⟩
  refine .of_run fun hs a s' hrun => ?_
  obtain ⟨c, hc⟩ := hs.stands
  have hforward : s.pos ≤ ctx.text.size →
      s.pos ≤ (endState (p ctx s)).pos ∧ (endState (p ctx s)).pos ≤ ctx.text.size :=
    h (Upkeep.forward ctx) s
  rw [hrun] at hforward
  exact (hforward hc.pos_le_size).1

/-! ### Looking -/

namespace Marks

instance peekAt (offset : Nat) : Marks (peekAt offset) := .of_idle (peekAt_looks offset).idle

instance peek : Marks peek := .of_idle peek_looks.idle

instance atEnd : Marks atEnd := .of_idle atEnd_looks.idle

instance startsWith (word : String) : Marks (startsWith word) :=
  .of_idle (startsWith_looks word).idle

instance atWord (word : String) : Marks (atWord word) := .of_idle (atWord_looks word).idle

instance slice (start stop : Nat) : Marks (slice start stop) :=
  .of_idle (slice_looks start stop).idle

instance sliceFrom (start : Nat) : Marks (sliceFrom start) := .of_idle (sliceFrom_looks start).idle

instance newlineSince (span : Span) : Marks (newlineSince span) :=
  .of_idle (newlineSince_looks span).idle

instance spanFrom (start : Nat) : Marks (spanFrom start) := .of_idle (spanFrom_looks start).idle

instance limitReached : Marks limitReached := .of_idle limitReached_looks.idle

instance mark : Marks mark := .of_idle mark_looks.idle

instance atIdentifier : Marks atIdentifier := .of_idle atIdentifier_looks.idle

instance atPathStep : Marks atPathStep := .of_idle atPathStep_looks.idle

instance atString : Marks atString := .of_idle atString_looks.idle

instance atNumber : Marks atNumber := .of_idle atNumber_looks.idle

instance atExponent : Marks atExponent := .of_idle atExponent_looks.idle

instance firstModifier? (ms : List Modifier) : Marks (firstModifier? ms) :=
  .of_idle (firstModifier?_looks ms).idle

/-! ### Tokens -/

instance skip : Marks skip := ⟨fun _ _ hs => hs.skipTrivia⟩

instance takeDoc : Marks takeDoc := ⟨fun _ _ hs => hs.takeDoc⟩

instance advance (n : Nat) : Marks (advance n) :=
  ⟨fun _ _ => .look theText_looks (.look position_looks (.moveTo fun hs =>
    have hle := hs.pos_le
    ⟨by omega, Nat.min_le_left _ _⟩))⟩

instance atToken (token : String) : Marks (atToken token) := by delta Parser.atToken; infer_instance

instance atKeyword (word : String) : Marks (atKeyword word) := by
  delta Parser.atKeyword; infer_instance

instance atAssign : Marks atAssign := by delta Parser.atAssign; infer_instance

instance takeToken (length : Nat) : Marks (takeToken length) := by
  delta Parser.takeToken; infer_instance

instance accept? (token : String) : Marks (accept? token) := by delta Parser.accept?; infer_instance

instance accept (token : String) : Marks (accept token) := by delta Parser.accept; infer_instance

instance acceptKeyword (word : String) : Marks (acceptKeyword word) := by
  delta Parser.acceptKeyword; infer_instance

end Marks

/-- The character at the cursor lies in the text; at its end there is none. -/
theorem here_inside {size pos : Nat} (h : pos ≤ size) :
    (Span.ofNat pos (if decide (size ≤ pos) = true then pos else pos + 1)).Inside size := by
  split
  · exact Span.inside_ofNat (le_refl pos) h
  · rename_i hend
    rw [decide_eq_true_eq] at hend
    exact Span.inside_ofNat (by omega) (by omega)

/-- Failing at the cursor: the character there is marked, if there is one. -/
theorem failHere_marks {problem : Problem} (hnone : problem.opening? = none) :
    (do failWith problem (← here) : Parser α).MarksFrom ctx s :=
  .look here_looks (.failWith fun hs => .of_inside hnone (here_inside hs.pos_le))

namespace Marks

instance failExpected (what : String) : Marks (failExpected what : Parser α) :=
  ⟨fun _ _ => .look peek_looks (.look atEnd_looks (.ite (fun _ => failHere_marks rfl) fun _ =>
    .idle describeCurrent_idle fun _ => failHere_marks rfl))⟩

instance expect (token : String) : Marks (expect token) := by
  delta Parser.expect
  refine sequence fun span? => ?_
  cases span? <;> infer_instance

instance expectKeyword (word : String) : Marks (expectKeyword word) := by
  delta Parser.expectKeyword; infer_instance

instance commaList (close : String) (item : Parser α) [Marks item] :
    Marks (commaList close item) := by
  delta Parser.commaList; infer_instance

end Marks

/-! ### What has been read lies in the text -/

/-- What is known of a parser from wherever a steady state may stand. -/
theorem leaves_of_yields {p : Parser α} [Keeps Steady p] {P : α → State → Prop}
    {Q : Nat → α → State → Nat → Prop} (hp : ∀ c, p.Yields ctx s c (Q c))
    (h : ∀ c a s' c', c' ≤ ctx.text.size → Q c a s' c' → P a s') : p.Leaves Steady ctx s P := by
  refine .of_holds fun hs => ?_
  obtain ⟨c, hc⟩ := hs.stands
  refine (Leaves.of_yields hc (hp c)).mono ?_
  rintro a s' ⟨c', hon, hQ⟩
  exact h c a s' c' hon.stands.le_size hQ

theorem TokenRead.inside {text : Array Char} {token : String} {lo c' : Nat} {span : Span}
    {s' : State} (h : TokenRead text token lo span s' c') (hsize : c' ≤ text.size) :
    span.Inside text.size := by
  obtain ⟨start, -, rfl, -, rfl⟩ := h.exists_start
  exact Span.inside_ofNat (by omega) hsize

theorem takeToken_inside (length : Nat) :
    (takeToken length).Leaves Steady ctx s fun span _ => span.Inside ctx.text.size := by
  refine .look position_looks ((forward_leaves fun _ => advance_upholds length).holds.bind ?_)
  rintro _ s' ⟨hs', hle⟩
  obtain ⟨c, hc⟩ := hs'.stands
  exact .value (spanFrom_looks _) (Span.inside_ofNat hle hc.pos_le_size)

theorem accept?_inside {token : String} (hne : token ≠ "") :
    (accept? token).Leaves Steady ctx s fun span? _ => ∀ span ∈ span?, span.Inside ctx.text.size :=
  leaves_of_yields (fun _ => accept?_yields hne) fun _ span? _ _ hsize hread span hspan => by
    cases hspan
    exact TokenRead.inside hread hsize

theorem expect_inside {token : String} (hne : token ≠ "") :
    (expect token).Leaves Steady ctx s fun span _ => span.Inside ctx.text.size :=
  leaves_of_yields (fun _ => expect_yields hne) fun _ _ _ _ hsize hread =>
    TokenRead.inside hread hsize

theorem identifier_inside (what : String) :
    (identifier what).Leaves Steady ctx s fun name _ => name.span.Inside ctx.text.size :=
  leaves_of_yields (fun _ => identifier_yields) fun _ _ _ _ hsize hread =>
    Span.inside_of_placed hread.placed hsize

theorem expectName_inside (what : String) :
    (expectName what).Leaves Steady ctx s fun name _ => name.span.Inside ctx.text.size :=
  leaves_of_yields (fun _ => expectName_yields) fun _ _ _ _ hsize hread =>
    Span.inside_of_placed hread.1 hsize

/-! ### Names -/

/-- A name without its second backtick is marked at the first one. -/
theorem quotedIdentifier_marks (hfirst : charAt ctx.text s.pos = backtick) :
    quotedIdentifier.MarksFrom ctx s := by
  have hlt := lt_size_of_charAt_ne (by rw [hfirst]; decide)
  have hle := le_skipWhile ctx.text (fun c => c != backtick && c != '\n') (s.pos + 1)
  refine .look theText_looks (.look position_looks ?_)
  dsimp only
  refine .ite (fun hlast => .moveTo_bind (fun _ => ⟨by omega, ?_⟩) (Marks.marksFrom _ _)) fun _ =>
    .failWith fun _ => .of_inside rfl (Span.inside_ofNat (by omega) hlt)
  rw [beq_iff_eq] at hlast
  exact lt_size_of_charAt_ne (by rw [hlast]; decide)

namespace Marks

instance identifier? : Marks identifier? := by
  refine ⟨fun ctx s => .look peek_looks (.ite (fun hfirst => ?_) fun _ => .ite (fun hfirst => ?_)
    fun _ => .pure none)⟩
  · exact .andThen (quotedIdentifier_marks (beq_iff_eq.1 hfirst)) fun _ _ _ => .pure _
  · have hname := continuesName_of_startsName hfirst
    have hend := skipWhile_le_size ctx.text continuesName
      (lt_size_of_charAt_ne (ne_nul_of_continuesName hname)).le
    exact .look position_looks (.look wordEnd_looks
      (.moveTo_bind (fun _ => ⟨(lt_nameEnd hname).le, hend⟩) (Marks.marksFrom _ _)))

instance identifier (what : String) : Marks (identifier what) := by
  delta Parser.identifier
  refine sequence fun name? => ?_
  cases name? <;> infer_instance

instance expectName (what : String) : Marks (expectName what) :=
  ⟨fun _ _ => .after fun _ s' _ => .bind (Marks.marksFrom _ s') (identifier_inside what)
    fun _ _ hname => .ite (fun _ => .failWith_bind fun _ => .of_inside rfl hname) fun _ => .pure _⟩

instance qualifiedName (what : String) : Marks (qualifiedName what) := by
  delta Parser.qualifiedName; infer_instance

end Marks

/-! ### Numbers -/

/-- A misplaced underscore stands in its run. -/
theorem lt_length_of_misplacedUnderscoreFrom? {i j : Nat} {run : List Char}
    {place : UnderscorePlace} (h : misplacedUnderscoreFrom? i run = some (j, place)) :
    j < i + run.length := by
  fun_induction misplacedUnderscoreFrom? i run <;> simp_all <;> omega

namespace Marks

instance digits (base : IntBase) : Marks (digits base) := by
  refine ⟨fun ctx s => .look position_looks (.look theText_looks (.moveTo_bind
    (fun hs => ⟨le_skipWhile _ _ _, skipWhile_le_size _ _ hs.pos_le⟩)
      (.look (sliceFrom_looks _) ?_)))⟩
  cases hplace : misplacedUnderscore? _ with
  | none => exact .pure _
  | some found =>
    have hlt := lt_length_of_misplacedUnderscoreFrom? hplace
    refine .failWith fun hs => .of_inside rfl (Span.inside_ofNat (by omega) ?_)
    have hsize := hs.pos_le
    simp only [sliceOf, String.toList_ofList, Array.length_toList, Array.size_extract] at hlt hsize
    omega

instance fraction : Marks fraction := by delta Parser.fraction; infer_instance

instance exponent : Marks exponent := by delta Parser.exponent; infer_instance

instance floatWord (start : Nat) (word : String) : Marks (floatWord start word) := by
  delta Parser.floatWord; infer_instance

end Marks

/-- A number that runs on into a name is marked from its start to the end of the name. -/
theorem endOfNumber_marks {start : Nat} (hle : start ≤ s.pos) :
    (endOfNumber start).MarksFrom ctx s := by
  refine .look peek_looks (.ite (fun _ => .look wordEnd_looks (.look (slice_looks _ _)
    (.failWith fun hs => .of_inside rfl (Span.inside_ofNat ?_ ?_)))) fun _ => .pure ())
  · exact hle.trans (le_skipWhile _ _ _)
  · exact skipWhile_le_size _ _ hs.pos_le

theorem basedNumber_marks {start : Nat} (hle : start ≤ s.pos) (base : IntBase) :
    (basedNumber start base).MarksFrom ctx s := by
  refine .look (peekAt_looks 1) (.bind (Marks.marksFrom ctx s)
    (forward_leaves fun _ => advance_upholds 2) fun _ s₁ h₁ => .look peek_looks (.ite
      (fun _ => .look (spanFrom_looks start) (.failWith_bind fun hs => .of_inside rfl
        (Span.inside_ofNat (hle.trans h₁) hs.pos_le))) fun _ => ?_))
  refine .bind (Marks.marksFrom ctx s₁) (forward_leaves fun _ => digits_upholds base)
    fun run s₂ h₂ => ?_
  exact .andThen (endOfNumber_marks (hle.trans (h₁.trans h₂))) fun _ _ _ => Marks.marksFrom _ _

theorem decimalNumber_marks {start : Nat} (hle : start ≤ s.pos) (styleWarnings : Bool) :
    (decimalNumber start styleWarnings).MarksFrom ctx s := by
  -- Behind the integer part, which may be missing.
  have hrest (integer : String) (s₁ : State) (h₁ : s.pos ≤ s₁.pos) : (do
      let hasFraction ← fraction
      let hasExponent ← exponent
      endOfNumber start
      let span ← spanFrom start
      if !hasFraction && !hasExponent then return .int ⟨.decimal, integer, span⟩
      else
        let text ← sliceFrom start
        if integer.isEmpty && styleWarnings then report (.missingIntegerPart text) span
        return .float ⟨text, span⟩ : Parser NumberLiteral).MarksFrom ctx s₁ := by
    refine .bind (Marks.marksFrom ctx s₁) (forward_leaves fun _ => fraction_upholds)
      fun hasFraction s₂ h₂ => .bind (Marks.marksFrom ctx s₂)
        (forward_leaves fun _ => exponent_upholds) fun hasExponent s₃ h₃ => ?_
    have hle₃ : start ≤ s₃.pos := hle.trans (h₁.trans (h₂.trans h₃))
    refine .bind (endOfNumber_marks hle₃) (forward_leaves fun _ => endOfNumber_upholds start)
      fun _ s₄ h₄ => .look (spanFrom_looks start) (.ite (fun _ => .pure _) fun _ =>
        .look (sliceFrom_looks start) (.ite (fun _ => ?_) fun _ => .pure _))
    exact .report_bind (fun hs => .of_inside rfl (Span.inside_ofNat (hle₃.trans h₄) hs.pos_le))
      (.pure _)
  refine .look peek_looks (.ite (fun _ => hrest "" s (le_refl _)) fun _ => ?_)
  exact .bind (Marks.marksFrom ctx s) (forward_leaves fun _ => digits_upholds .decimal) hrest

instance Marks.number (styleWarnings : Bool) : Marks (number styleWarnings) := by
  refine ⟨fun ctx s => .inMode (.look position_looks (.look (atWord_looks _) (.ite
    (fun _ => Marks.marksFrom _ _) fun _ => .look (atWord_looks _) (.ite
      (fun _ => Marks.marksFrom _ _) fun _ => .look peek_looks (.look (peekAt_looks 1) ?_)))))⟩
  split
  · exact basedNumber_marks (le_refl _) _
  · exact decimalNumber_marks (le_refl _) styleWarnings

/-! ### Strings -/

section Strings

variable {interpolate : Parser Expr} [Marks interpolate] {quotes : Quotes}

/-- What is wrong in front of or behind the digits is marked over the character at the cursor. -/
theorem unicodeEscape_marks {start : Nat} (hopening : quotes.opening.Inside ctx.text.size)
    (hle : start ≤ s.pos) : (unicodeEscape quotes start).MarksFrom ctx s := by
  have hquotes {opening : Span} (h : opening ∈ some quotes.opening) :
      opening.Inside ctx.text.size := Option.some.inj h ▸ hopening
  refine .look peek_looks (.ite (fun _ => .look position_looks (.failWith_bind fun hs =>
    .of_cursor rfl (fun _ => hquotes) hle hs.pos_le)) fun _ => .bind (Marks.marksFrom ctx s)
      (forward_leaves fun _ => advance_upholds 1) fun _ s₁ h₁ => ?_)
  have hdigits := le_skipWhile ctx.text isHexDigit s₁.pos
  refine .look position_looks (.look theText_looks (.moveTo_bind
    (fun hs => ⟨hdigits, skipWhile_le_size _ _ hs.pos_le⟩) (.look (sliceFrom_looks _)
      (.look peek_looks (.ite (fun _ => .look position_looks (.failWith_bind fun hs =>
        .of_cursor rfl (fun _ => hquotes) (hle.trans (h₁.trans hdigits)) hs.pos_le)) fun _ => ?_)))))
  refine .bind (Marks.marksFrom ctx _) (forward_leaves fun _ => advance_upholds 1)
    fun _ s₂ h₂ => ?_
  dsimp only
  split
  · exact .pure _
  · refine .look (spanFrom_looks start) (.failWith fun hs => ⟨.inl ?_, fun _ => hquotes⟩)
    exact Span.inside_ofNat (hle.trans (h₁.trans (hdigits.trans h₂))) hs.pos_le

instance Marks.interpolation : Marks (interpolation interpolate) :=
  ⟨fun _ _ => .inMode (.after fun _ _ _ => .after fun _ _ _ => .after fun _ _ _ =>
    .look peek_looks (.ite (fun _ => .look position_looks (.failWith_bind fun hs =>
      .of_cursor rfl nofun (le_refl _) hs.pos_le)) fun _ => Marks.marksFrom _ _))⟩

theorem escapeSequence_marks (hopening : quotes.opening.Inside ctx.text.size) :
    (escapeSequence quotes interpolate).MarksFrom ctx s := by
  refine .look position_looks (.bind (Marks.marksFrom ctx s)
    (forward_leaves fun _ => advance_upholds _) fun _ s₁ h₁ => .look peek_looks ?_)
  split
  · exact Marks.marksFrom ctx s₁
  refine .ite (fun _ => ?_) fun _ => .ite (fun _ => Marks.marksFrom ctx s₁) fun _ => ?_
  · refine .bind (Marks.marksFrom ctx s₁) (forward_leaves fun _ => advance_upholds 1)
      fun _ s₂ h₂ => .andThen (unicodeEscape_marks hopening (h₁.trans h₂))
        fun _ _ _ => Marks.marksFrom _ _
  · refine .look position_looks (.look (slice_looks _ _) (.failWith fun hs =>
      .of_cursor rfl (fun _ h => Option.some.inj h ▸ hopening) h₁ hs.pos_le))

theorem stringStep_marks (hopening : quotes.opening.Inside ctx.text.size) (contentStart : Nat)
    (body : StringBody) : (stringStep quotes contentStart interpolate body).MarksFrom ctx s := by
  refine .look (closingLine?_looks quotes) ?_
  cases hprobe : closingAt? ctx.text quotes s.pos with
  | some probe =>
    obtain ⟨hle, hquote, hfit⟩ := closingAt?_eq_some hprobe
    -- Up to the move nothing has changed, so that the closing quotes are found behind the cursor.
    exact .look position_looks (.idle (flush_idle body) fun _ => .look (slice_looks _ _)
      (.moveTo_bind (fun _ => ⟨by omega, (poundsFit.tokenEnd hquote hfit).1⟩)
        (.idle finishString_idle fun _ => .pure _)))
  | none =>
    refine .look position_looks (.look peek_looks (.look atEnd_looks (.ite
      (fun _ => .failWith fun _ => .of_inside rfl hopening) fun _ => .look (poundsAt_looks quotes _)
        (.ite (fun _ => ?_) fun _ => .look (poundsAt_looks quotes _) (.ite (fun _ => ?_)
          fun _ => Marks.marksFrom ctx s)))))
    · exact .idle (flush_idle body) fun _ => .after fun _ _ _ => .idle finishString_idle
        fun _ => .pure _
    · exact .idle (flush_idle body) fun _ => .andThen (escapeSequence_marks hopening)
        fun _ _ _ => Marks.marksFrom _ _

theorem openingLine_marks {opening : Span} (hopening : opening.Inside ctx.text.size)
    (styleWarnings : Bool) : (openingLine opening styleWarnings).MarksFrom ctx s := by
  refine .look theText_looks (.look position_looks ?_)
  have hle := le_skipWhile ctx.text isIndent s.pos
  have hbreak {word : String} (hne : word ≠ "")
      (hmatch : matchesAt ctx.text word (skipWhile ctx.text isIndent s.pos) = true) :
      s.pos ≤ skipWhile ctx.text isIndent s.pos + word.length ∧
        skipWhile ctx.text isIndent s.pos + word.length ≤ ctx.text.size :=
    ⟨by omega, add_length_le_of_matchesAt hmatch hne⟩
  exact .ite (fun h => .moveTo fun _ => hbreak (by decide) h) fun _ =>
    .ite (fun h => .moveTo fun _ => hbreak (by decide) h) fun _ =>
      .ite (fun _ => .report fun _ => .of_inside rfl hopening) fun _ => .pure ()

/-- A string is marked at its opening quotes, which have been read before anything else in it. -/
instance Marks.stringLiteral (styleWarnings : Bool) :
    Marks (stringLiteral interpolate styleWarnings) := by
  refine ⟨fun ctx s => .inMode (.look position_looks (.look theText_looks ?_))⟩
  have hpounds := le_skipWhile ctx.text (· == '#') s.pos
  refine .moveTo_bind (fun hs => ⟨hpounds, skipWhile_le_size _ _ hs.pos_le⟩)
    (.look (startsWith_looks _) (.bind (Marks.marksFrom ctx _)
      (forward_leaves fun _ => advance_upholds _) fun _ s₂ h₂ => .look (spanFrom_looks _) ?_))
  refine .of_marked fun hs₂ => ?_
  have hopening : (Span.ofNat s.pos s₂.pos).Inside ctx.text.size :=
    Span.inside_ofNat (hpounds.trans h₂) hs₂.pos_le
  have hbody (quotes : Quotes) (h : quotes.opening = .ofNat s.pos s₂.pos) (contentStart : Nat)
      (s' : State) :
      (Parser.repeating (stringStep quotes contentStart interpolate)
        ⟨#[], contentStart⟩).MarksFrom ctx s' :=
    .repeating (fun body _ => stringStep_marks (h ▸ hopening) contentStart body) _
  exact .ite (fun _ => .andThen (openingLine_marks hopening styleWarnings) fun _ s₃ _ =>
    .look position_looks (hbody _ rfl _ s₃)) fun _ => .look position_looks (hbody _ rfl _ s₂)

end Strings

end Parser

end PklSyntax
