import PklSyntax.Proofs.Options.Sieve
import PklSyntax.Proofs.Growth.Literal

/-!
# Other options: tokens, numbers and strings

The tokens, names and literals of the language sift. The options themselves are read at two places
only, for the warnings of a number without an integer part and of text behind opening triple quotes.

## Main statements

* `Parser.expect_sifts`, `Parser.commaList_sifts`, `Parser.qualifiedName_sifts`.
* `Parser.number_siftsAt`, `Parser.stringLiteral_siftsAt`: literals, with the warnings of each
  reading.
-/

namespace PklSyntax

namespace Parser

variable {α β : Type} {W : Sieve}

/-! ### Errors at the cursor -/

theorem here_sifts : here.Sifts W :=
  position_sifts.bind fun _ => atEnd_sifts.bind fun _ => .pure _

theorem describeCurrent_sifts : describeCurrent.Sifts W :=
  peek_sifts.bind fun _ => peekWord_sifts.bind fun _ => atEnd_sifts.bind fun _ =>
    .ite (.pure _) (.ite (.pure _) (.ite (.pure _) (.pure _)))

theorem failExpected_sifts (what : String) : (failExpected what : Parser α).Sifts W :=
  peek_sifts.bind fun _ => atEnd_sifts.bind fun _ =>
    .ite (here_sifts.bind fun _ => failWith_sifts rfl _)
      (describeCurrent_sifts.bind fun _ => here_sifts.bind fun _ => failWith_sifts rfl _)

/-! ### Tokens -/

theorem atToken_sifts (token : String) : (atToken token).Sifts W :=
  skip_sifts.bind fun _ => startsWith_sifts token

theorem atKeyword_sifts (word : String) : (atKeyword word).Sifts W :=
  skip_sifts.bind fun _ => atWord_sifts word

theorem atAssign_sifts : atAssign.Sifts W :=
  (atToken_sifts "=").bind fun _ => .ite ((startsWith_sifts "==").bind fun _ => .pure _) (.pure _)

theorem takeToken_sifts (length : Nat) : (takeToken length).Sifts W :=
  position_sifts.bind fun _ => (advance_sifts length).bind fun _ => spanFrom_sifts _

theorem accept?_sifts (token : String) : (accept? token).Sifts W :=
  (atToken_sifts token).bind fun _ => .ite ((takeToken_sifts _).bind fun _ => .pure _) (.pure _)

theorem accept_sifts (token : String) : (accept token).Sifts W :=
  (accept?_sifts token).bind fun _ => .pure _

theorem acceptKeyword_sifts (word : String) : (acceptKeyword word).Sifts W :=
  (atKeyword_sifts word).bind fun _ => .ite ((advance_sifts _).bind fun _ => .pure _) (.pure _)

theorem expect_sifts (token : String) : (expect token).Sifts W := by
  refine (accept?_sifts token).bind fun span? => ?_
  cases span? with
  | some span => exact .pure span
  | none => exact failExpected_sifts _

theorem expectKeyword_sifts (word : String) : (expectKeyword word).Sifts W :=
  (acceptKeyword_sifts word).bind fun _ => .ite (failExpected_sifts _) (.pure _)

theorem commaList_sifts {close : String} {item : Parser α} (hitem : item.Sifts W) :
    (commaList close item).Sifts W :=
  (repeating_sifts (fun _ => (atToken_sifts close).bind fun _ => .ite (.pure _)
    (hitem.bind fun _ => (accept_sifts ",").bind fun _ => .ite (.pure _) (.pure _))) _).bind
      fun _ => .pure _

/-- What is read when something that announces it was found. -/
theorem announced_sifts {announced : Parser Bool} {p : Parser α} {k : Option α → Parser β}
    (hannounced : announced.Sifts W) (hp : p.Sifts W) (hk : ∀ a?, (k a?).Sifts W) :
    (do
      let found ← announced
      if found = true then do
        let a ← some <$> p
        k a
      else do
        let a ← pure none
        k a : Parser β).Sifts W :=
  hannounced.bind fun _ => .branch hp.map (.pure none) hk

/-! ### Names -/

theorem quotedIdentifier_sifts : quotedIdentifier.Sifts W :=
  theText_sifts.bind fun _ => position_sifts.bind fun _ =>
    .ite ((moveTo_sifts _).bind fun _ => (slice_sifts _ _).bind fun _ =>
      (spanFrom_sifts _).bind fun _ => .pure _) (failWith_sifts rfl _)

theorem identifier?_sifts : identifier?.Sifts W :=
  peek_sifts.bind fun _ => .ite (quotedIdentifier_sifts.bind fun _ => .pure _)
    (.ite (position_sifts.bind fun _ => wordEnd_sifts.bind fun _ => (moveTo_sifts _).bind fun _ =>
      (sliceFrom_sifts _).bind fun _ => (spanFrom_sifts _).bind fun _ => .pure _) (.pure _))

theorem identifier_sifts (what : String) : (identifier what).Sifts W := by
  refine identifier?_sifts.bind fun name? => ?_
  cases name? with
  | some name => exact .pure name
  | none => exact failExpected_sifts what

theorem expectName_sifts (what : String) : (expectName what).Sifts W :=
  skip_sifts.bind fun _ => (identifier_sifts what).bind fun _ =>
    .option () (failWith_sifts rfl _) fun _ => .pure _

theorem qualifiedName_sifts (what : String) : (qualifiedName what).Sifts W :=
  (identifier_sifts what).bind fun _ => (repeating_sifts (fun _ =>
    Sifts.bind (.look atPathStep_looks fun _ => rfl) fun _ => .ite
      ((advance_sifts 1).bind fun _ => (identifier_sifts what).bind fun _ => .pure _) (.pure _)) _).bind
        fun _ => .pure _

/-! ### Numbers -/

theorem digits_sifts (base : IntBase) : (digits base).Sifts W := by
  refine position_sifts.bind fun _ => theText_sifts.bind fun _ => (moveTo_sifts _).bind fun _ =>
    (sliceFrom_sifts _).bind fun run => ?_
  split
  · exact failWith_sifts rfl _
  · exact .pure run

theorem endOfNumber_sifts (start : Nat) : (endOfNumber start).Sifts W :=
  peek_sifts.bind fun _ => .ite (wordEnd_sifts.bind fun _ => (slice_sifts _ _).bind fun _ =>
    failWith_sifts rfl _) (.pure _)

theorem floatWord_sifts (start : Nat) (word : String) : (floatWord start word).Sifts W :=
  (advance_sifts _).bind fun _ => (spanFrom_sifts _).bind fun _ => .pure _

theorem basedNumber_sifts (start : Nat) (base : IntBase) : (basedNumber start base).Sifts W :=
  (peekAt_sifts 1).bind fun _ => (advance_sifts 2).bind fun _ => peek_sifts.bind fun _ =>
    .ite ((spanFrom_sifts _).bind fun _ => failWith_bind_sifts rfl _) ((digits_sifts base).bind
      fun _ => (endOfNumber_sifts start).bind fun _ => (spanFrom_sifts _).bind fun _ => .pure _)

theorem fraction_sifts : fraction.Sifts W :=
  peek_sifts.bind fun _ => (peekAt_sifts 1).bind fun _ => .ite ((advance_sifts 1).bind fun _ =>
    (digits_sifts .decimal).bind fun _ => .pure _) (.pure _)

theorem exponent_sifts : exponent.Sifts W :=
  Sifts.bind (.look atExponent_looks fun _ => rfl) fun _ => .ite ((advance_sifts 1).bind fun _ =>
    peek_sifts.bind fun _ => .option () (advance_sifts 1) fun _ =>
      (digits_sifts .decimal).bind fun _ => .pure _) (.pure _)

/-- The number without a mark of its base, with the warning of each reading. -/
theorem decimalNumber_siftsAt (start : Nat) (s : State) :
    W.SiftsAt (decimalNumber start W.first.styleWarnings)
      (decimalNumber start W.second.styleWarnings) s := by
  refine (peek_sifts s).bind fun c s₁ _ => .branch (.pure "") (digits_sifts .decimal s₁)
    fun integer s₂ => ?_
  refine (fraction_sifts s₂).bind fun hasFraction s₃ _ => (exponent_sifts s₃).bind
    fun hasExponent s₄ _ => (endOfNumber_sifts start s₄).bind fun _ s₅ _ =>
      (spanFrom_sifts start s₅).bind fun span s₆ _ => ?_
  cases !hasFraction && !hasExponent with
  | true => exact .pure _
  | false =>
    refine (sliceFrom_sifts start s₆).bind fun text s₇ _ => ?_
    cases integer.isEmpty with
    | true => exact reportIfAsked_sifts (.missingIntegerPart text) span (.pure _)
    | false => exact .pure _

theorem number_siftsAt (s : State) :
    W.SiftsAt (number W.first.styleWarnings) (number W.second.styleWarnings) s := by
  refine .inMode ((position_sifts _).bind fun start s₁ _ => (atWord_sifts "NaN" s₁).bind
    fun isNaN s₂ _ => .ite (floatWord_sifts start _ s₂) ((atWord_sifts "Infinity" s₂).bind
      fun isInfinity s₃ _ => .ite (floatWord_sifts start _ s₃) ((peek_sifts s₃).bind
        fun c s₄ _ => (peekAt_sifts 1 s₄).bind fun letter s₅ _ => ?_)))
  split
  · exact basedNumber_sifts start _ s₅
  · exact decimalNumber_siftsAt start s₅

/-! ### Strings -/

variable {interpolate : Parser Expr}

theorem poundsAt_sifts (quotes : Quotes) (i : Nat) : (poundsAt quotes i).Sifts W :=
  .look (poundsAt_looks quotes i) fun _ => rfl

theorem closingLine?_sifts (quotes : Quotes) : (closingLine? quotes).Sifts W :=
  .look (closingLine?_looks quotes) fun _ => rfl

theorem flush_sifts (body : StringBody) : (flush body).Sifts W :=
  position_sifts.bind fun _ => by
    split
    · exact (sliceFrom_sifts _).bind fun _ => .pure _
    · exact .pure _

theorem unicodeEscape_sifts (quotes : Quotes) (start : Nat) : (unicodeEscape quotes start).Sifts W := by
  refine peek_sifts.bind fun _ => .ite (position_sifts.bind fun _ => failWith_bind_sifts rfl _) ?_
  refine (advance_sifts 1).bind fun _ => position_sifts.bind fun first => theText_sifts.bind
    fun _ => (moveTo_sifts _).bind fun _ => (sliceFrom_sifts first).bind fun digits =>
      peek_sifts.bind fun _ => .ite (position_sifts.bind fun _ => failWith_bind_sifts rfl _) ?_
  refine (advance_sifts 1).bind fun _ => ?_
  dsimp only
  split
  · exact .pure _
  · exact (spanFrom_sifts start).bind fun _ => failWith_sifts rfl _

theorem interpolation_sifts (hexpr : interpolate.Sifts W) : (interpolation interpolate).Sifts W :=
  .inMode (skip_sifts.bind fun _ => hexpr.bind fun _ => skip_sifts.bind fun _ => peek_sifts.bind
    fun _ => .ite (position_sifts.bind fun _ => failWith_bind_sifts rfl _)
      ((advance_sifts 1).bind fun _ => .pure _))

theorem escapeSequence_sifts (quotes : Quotes) (hexpr : interpolate.Sifts W) :
    (escapeSequence quotes interpolate).Sifts W := by
  refine position_sifts.bind fun start => (advance_sifts _).bind fun _ => peek_sifts.bind fun c => ?_
  split
  · exact (advance_sifts 1).bind fun _ => (spanFrom_sifts start).bind fun _ => .pure _
  refine .ite ?_ (.ite ?_ ?_)
  · exact (advance_sifts 1).bind fun _ => (unicodeEscape_sifts quotes start).bind fun _ =>
      (spanFrom_sifts start).bind fun _ => .pure _
  · exact (advance_sifts 1).bind fun _ => (interpolation_sifts hexpr).bind fun _ =>
      (spanFrom_sifts start).bind fun _ => .pure _
  · exact position_sifts.bind fun _ => (slice_sifts start _).bind fun _ => failWith_sifts rfl _

theorem finishString_sifts {quotes : Quotes} {contentStart contentStop : Nat}
    {segments : Array Segment} {indent : Option String} :
    (finishString quotes contentStart contentStop segments indent).Sifts W :=
  position_sifts.bind fun _ => .pure _

theorem stringStep_sifts (quotes : Quotes) (contentStart : Nat) (hexpr : interpolate.Sifts W)
    (body : StringBody) : (stringStep quotes contentStart interpolate body).Sifts W := by
  refine (closingLine?_sifts quotes).bind fun probe? => ?_
  cases probe? with
  | some probe =>
    exact position_sifts.bind fun _ => (flush_sifts body).bind fun _ => (slice_sifts _ _).bind
      fun _ => (moveTo_sifts _).bind fun _ => finishString_sifts.bind fun _ => .pure _
  | none =>
    refine position_sifts.bind fun pos => peek_sifts.bind fun c => atEnd_sifts.bind fun _ =>
      .ite (failWith_sifts rfl _) ((poundsAt_sifts quotes _).bind fun _ => .ite ?_
        ((poundsAt_sifts quotes _).bind fun _ => .ite ?_ ((advance_sifts 1).bind fun _ => .pure _)))
    · exact (flush_sifts body).bind fun _ => (advance_sifts _).bind fun _ =>
        finishString_sifts.bind fun _ => .pure _
    · exact (flush_sifts body).bind fun _ => (escapeSequence_sifts quotes hexpr).bind fun _ =>
        position_sifts.bind fun _ => .pure _

theorem openingLine_siftsAt (opening : Span) (s : State) :
    W.SiftsAt (openingLine opening W.first.styleWarnings)
      (openingLine opening W.second.styleWarnings) s := by
  refine (theText_sifts s).bind fun text s₁ _ => (position_sifts s₁).bind fun pos s₂ _ => ?_
  dsimp only
  refine .ite (moveTo_sifts _ s₂) (.ite (moveTo_sifts _ s₂) ?_)
  exact reportIfAsked_sifts .contentOnOpeningLine opening (.pure ())

theorem stringLiteral_siftsAt (hexpr : interpolate.Sifts W) (s : State) :
    W.SiftsAt (stringLiteral interpolate W.first.styleWarnings)
      (stringLiteral interpolate W.second.styleWarnings) s := by
  refine .inMode ((position_sifts _).bind fun start s₁ _ => (theText_sifts s₁).bind fun text s₂ _ =>
    (moveTo_sifts _ s₂).bind fun _ s₃ _ => (startsWith_sifts _ s₃).bind fun multiline s₄ _ =>
      (advance_sifts _ s₄).bind fun _ s₅ _ => (spanFrom_sifts start s₅).bind fun span s₆ _ => ?_)
  have hbody (quotes : Quotes) : (do
      let contentStart ← position
      repeating (stringStep quotes contentStart interpolate) ⟨#[], contentStart⟩ :
      Parser StringLiteral).Sifts W :=
    position_sifts.bind fun contentStart =>
      repeating_sifts (fun body => stringStep_sifts quotes contentStart hexpr body) _
  dsimp only
  cases multiline with
  | true => exact (openingLine_siftsAt span s₆).bind fun _ s₇ _ => hbody _ s₇
  | false => exact hbody _ s₆

end Parser

end PklSyntax
