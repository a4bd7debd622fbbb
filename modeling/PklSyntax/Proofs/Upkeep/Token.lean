import PklSyntax.Proofs.Upkeep.Basic
import PklSyntax.Proofs.Growth.Literal

/-!
# What tokens, numbers and strings uphold

The parsers of tokens and names, and those of literals, uphold every relation that the steps uphold.
All but a few of them move the cursor over what they have found in the text; those that put it at an
offset put it at the end of a run of characters, or behind quotes that stand there.

## Main statements

* `Parser.expect_upholds`, `Parser.commaList_upholds`, `Parser.qualifiedName_upholds`.
* `Parser.number_upholds`, `Parser.stringLiteral_upholds`.
-/

namespace PklSyntax

namespace Parser

variable {α β : Type} {U : Upkeep}

/-! ### Errors at the cursor -/

theorem failExpected_upholds (what : String) : (failExpected what : Parser α).Upholds U :=
  .look peek_looks fun _ => .look atEnd_looks fun _ =>
    .ite (.bind (.idle here_idle) fun _ => failWith_upholds rfl _)
      (.bind (.idle describeCurrent_idle) fun _ => .bind (.idle here_idle) fun _ =>
        failWith_upholds rfl _)

/-! ### Tokens -/

theorem atToken_upholds (token : String) : (atToken token).Upholds U :=
  skip_upholds.bind fun _ => .idle (startsWith_looks token).idle

theorem atKeyword_upholds (word : String) : (atKeyword word).Upholds U :=
  skip_upholds.bind fun _ => .idle (atWord_looks word).idle

theorem atAssign_upholds : atAssign.Upholds U :=
  (atToken_upholds "=").bind fun _ =>
    .ite (.look (startsWith_looks "==") fun _ => .pure _) (.pure _)

theorem takeToken_upholds (length : Nat) : (takeToken length).Upholds U :=
  .look position_looks fun start => (advance_upholds length).bind fun _ =>
    .idle (spanFrom_looks start).idle

theorem accept?_upholds (token : String) : (accept? token).Upholds U :=
  (atToken_upholds token).bind fun _ => .ite ((takeToken_upholds _).bind fun _ => .pure _) (.pure _)

theorem accept_upholds (token : String) : (accept token).Upholds U :=
  (accept?_upholds token).bind fun _ => .pure _

theorem acceptKeyword_upholds (word : String) : (acceptKeyword word).Upholds U :=
  (atKeyword_upholds word).bind fun _ => .ite ((advance_upholds _).bind fun _ => .pure _) (.pure _)

theorem expect_upholds (token : String) : (expect token).Upholds U := by
  refine (accept?_upholds token).bind fun span? => ?_
  cases span? with
  | some span => exact .pure span
  | none => exact failExpected_upholds _

theorem expectKeyword_upholds (word : String) : (expectKeyword word).Upholds U :=
  (acceptKeyword_upholds word).bind fun _ => .ite (failExpected_upholds _) (.pure _)

theorem commaList_upholds {close : String} {item : Parser α} (hitem : item.Upholds U) :
    (commaList close item).Upholds U :=
  (repeating_upholds (fun _ => (atToken_upholds close).bind fun _ => .ite (.pure _)
    (hitem.bind fun _ => (accept_upholds ",").bind fun _ => .ite (.pure _) (.pure _))) _).bind
      fun _ => .pure _

/-- What is read when something that announces it was found. -/
theorem announced_upholds {announced : Parser Bool} {p : Parser α} {k : Option α → Parser β}
    (hannounced : announced.Upholds U) (hp : p.Upholds U) (hk : ∀ a?, (k a?).Upholds U) :
    (do
      let found ← announced
      if found = true then do
        let a ← some <$> p
        k a
      else do
        let a ← pure none
        k a : Parser β).Upholds U :=
  hannounced.bind fun _ => .branch hp.map (.pure none) hk

/-! ### Names -/

theorem quotedIdentifier_upholds : quotedIdentifier.Upholds U := by
  refine fun s => .look theText_looks (.look position_looks ?_)
  dsimp only
  refine .ite (fun hlast => ?_) fun _ => failWith_upholds rfl _ s
  rw [beq_iff_eq] at hlast
  have hle := le_skipWhile U.ctx.text (fun c => c != backtick && c != '\n') (s.pos + 1)
  have hlt := lt_size_of_charAt_ne (by rw [hlast]; decide)
  refine .bind (U.refl s) (moveTo_holdsFrom (by omega) fun _ => hlt) fun _ _ _ h => .of_upholds h ?_
  exact .look (slice_looks _ _) fun _ => .look (spanFrom_looks _) fun _ => .pure _

theorem identifier?_upholds : identifier?.Upholds U := by
  refine fun s => .look peek_looks (.ite
    (fun _ => (quotedIdentifier_upholds.bind fun _ => .pure _) s) fun _ => .ite (fun hfirst => ?_)
      fun _ => .pure (U.refl s))
  have hname := continuesName_of_startsName hfirst
  have hlt := lt_nameEnd hname
  have hend := skipWhile_le_size U.ctx.text continuesName
    (Nat.le_of_lt (lt_size_of_charAt_ne (ne_nul_of_continuesName hname)))
  refine .look position_looks (.look wordEnd_looks (.bind (U.refl s)
    (moveTo_holdsFrom (by omega) fun _ => hend) fun _ _ _ h => .of_upholds h ?_))
  exact .look (sliceFrom_looks _) fun _ => .look (spanFrom_looks _) fun _ => .pure _

theorem identifier_upholds (what : String) : (identifier what).Upholds U := by
  refine identifier?_upholds.bind fun name? => ?_
  cases name? with
  | some name => exact .pure name
  | none => exact failExpected_upholds what

theorem expectName_upholds (what : String) : (expectName what).Upholds U :=
  skip_upholds.bind fun _ => (identifier_upholds what).bind fun _ =>
    .option () (failWith_upholds rfl _) fun _ => .pure _

theorem qualifiedName_upholds (what : String) : (qualifiedName what).Upholds U :=
  (identifier_upholds what).bind fun _ => (repeating_upholds (fun _ =>
    .look atPathStep_looks fun _ => .ite
      ((advance_upholds 1).bind fun _ => (identifier_upholds what).bind fun _ => .pure _)
        (.pure _)) _).bind fun _ => .pure _

/-! ### Numbers -/

theorem digits_upholds (base : IntBase) : (digits base).Upholds U := by
  refine fun s => .look position_looks (.look theText_looks ?_)
  have hle := le_skipWhile U.ctx.text (fun c => base.isDigit c || c == '_') s.pos
  refine .bind (U.refl s) (moveTo_holdsFrom (by omega) (skipWhile_le_size _ _)) fun _ _ _ h =>
    .of_upholds h (.look (sliceFrom_looks _) fun run => ?_)
  split
  · exact failWith_upholds rfl _
  · exact .pure run

theorem endOfNumber_upholds (start : Nat) : (endOfNumber start).Upholds U :=
  .look peek_looks fun _ => .ite (.look wordEnd_looks fun _ => .look (slice_looks _ _) fun _ =>
    failWith_upholds rfl _) (.pure _)

theorem floatWord_upholds (start : Nat) (word : String) : (floatWord start word).Upholds U :=
  (advance_upholds _).bind fun _ => .look (spanFrom_looks _) fun _ => .pure _

theorem basedNumber_upholds (start : Nat) (base : IntBase) : (basedNumber start base).Upholds U :=
  .look (peekAt_looks 1) fun _ => (advance_upholds 2).bind fun _ => .look peek_looks fun _ =>
    .ite (.look (spanFrom_looks _) fun _ => failWith_bind_upholds rfl _) ((digits_upholds base).bind
      fun _ => (endOfNumber_upholds start).bind fun _ => .look (spanFrom_looks _) fun _ => .pure _)

theorem fraction_upholds : fraction.Upholds U :=
  .look peek_looks fun _ => .look (peekAt_looks 1) fun _ => .ite ((advance_upholds 1).bind fun _ =>
    (digits_upholds .decimal).bind fun _ => .pure _) (.pure _)

theorem exponent_upholds : exponent.Upholds U :=
  .look atExponent_looks fun _ => .ite ((advance_upholds 1).bind fun _ => .look peek_looks fun _ =>
    .option () (advance_upholds 1) fun _ => (digits_upholds .decimal).bind fun _ => .pure _)
      (.pure _)

theorem decimalNumber_upholds (start : Nat) (styleWarnings : Bool) :
    (decimalNumber start styleWarnings).Upholds U :=
  .look peek_looks fun _ => .branch (.pure "") (digits_upholds .decimal) fun _ =>
    fraction_upholds.bind fun _ => exponent_upholds.bind fun _ => (endOfNumber_upholds start).bind
      fun _ => .look (spanFrom_looks _) fun _ => .ite (.pure _) (.look (sliceFrom_looks _) fun _ =>
        .option () (report_upholds rfl _) fun _ => .pure _)

theorem number_upholds (styleWarnings : Bool) : (number styleWarnings).Upholds U := by
  refine .inMode (.look position_looks fun start => .look (atWord_looks _) fun _ =>
    .ite (floatWord_upholds start _) (.look (atWord_looks _) fun _ =>
      .ite (floatWord_upholds start _) (.look peek_looks fun _ => .look (peekAt_looks 1) fun _ =>
        ?_)))
  split
  · exact basedNumber_upholds start _
  · exact decimalNumber_upholds start styleWarnings

/-! ### Strings -/

variable {interpolate : Parser Expr}

theorem flush_idle (body : StringBody) : Idle (flush body) := by
  refine position_looks.idle.bind fun _ => ?_
  split
  · exact (sliceFrom_looks _).idle.bind fun _ => .pure _
  · exact .pure _

theorem unicodeEscape_upholds (quotes : Quotes) (start : Nat) :
    (unicodeEscape quotes start).Upholds U := by
  refine .look peek_looks fun _ => .ite (.look position_looks fun _ => failWith_bind_upholds rfl _)
    ((advance_upholds 1).bind fun _ => fun s => .look position_looks (.look theText_looks ?_))
  have hle := le_skipWhile U.ctx.text isHexDigit s.pos
  refine .bind (U.refl s) (moveTo_holdsFrom (by omega) (skipWhile_le_size _ _)) fun _ _ _ h =>
    .of_upholds h (.look (sliceFrom_looks _) fun _ => .look peek_looks fun _ => .ite
      (.look position_looks fun _ => failWith_bind_upholds rfl _) ((advance_upholds 1).bind
        fun _ => ?_))
  dsimp only
  split
  · exact .pure _
  · exact .look (spanFrom_looks start) fun _ => failWith_upholds rfl _

theorem interpolation_upholds (hexpr : interpolate.Upholds U) :
    (interpolation interpolate).Upholds U :=
  .inMode (skip_upholds.bind fun _ => hexpr.bind fun _ => skip_upholds.bind fun _ =>
    .look peek_looks fun _ => .ite (.look position_looks fun _ => failWith_bind_upholds rfl _)
      ((advance_upholds 1).bind fun _ => .pure _))

theorem escapeSequence_upholds (quotes : Quotes) (hexpr : interpolate.Upholds U) :
    (escapeSequence quotes interpolate).Upholds U := by
  refine .look position_looks fun start => (advance_upholds _).bind fun _ => .look peek_looks
    fun c => ?_
  split
  · exact (advance_upholds 1).bind fun _ => .look (spanFrom_looks start) fun _ => .pure _
  refine .ite ?_ (.ite ?_ ?_)
  · exact (advance_upholds 1).bind fun _ => (unicodeEscape_upholds quotes start).bind fun _ =>
      .look (spanFrom_looks start) fun _ => .pure _
  · exact (advance_upholds 1).bind fun _ => (interpolation_upholds hexpr).bind fun _ =>
      .look (spanFrom_looks start) fun _ => .pure _
  · exact .look position_looks fun _ => .look (slice_looks start _) fun _ => failWith_upholds rfl _

theorem finishString_idle {quotes : Quotes} {contentStart contentStop : Nat}
    {segments : Array Segment} {indent : Option String} :
    Idle (finishString quotes contentStart contentStop segments indent) :=
  position_looks.idle.bind fun _ => .pure _

theorem stringStep_upholds (quotes : Quotes) (contentStart : Nat) (hexpr : interpolate.Upholds U)
    (body : StringBody) : (stringStep quotes contentStart interpolate body).Upholds U := by
  refine fun s => .look (closingLine?_looks quotes) ?_
  split
  · rename_i probe hprobe
    obtain ⟨hle, hquote, hfit⟩ := closingAt?_eq_some hprobe
    have hsize := (poundsFit.tokenEnd hquote hfit).1
    -- Up to the move nothing has changed, so that the closing quotes are found behind the cursor.
    refine .look position_looks (.idle (flush_idle body) fun _ => .look (slice_looks _ _)
      (.bind (U.refl s) (moveTo_holdsFrom (by omega) fun _ => hsize) fun _ _ _ h =>
        .of_upholds h ?_))
    exact .bind (.idle finishString_idle) fun _ => .pure _
  · refine (Upholds.look position_looks fun pos => .look peek_looks fun c => .look atEnd_looks
      fun _ => .ite (failWith_upholds rfl _) (.look (poundsAt_looks quotes _) fun _ => .ite ?_
        (.look (poundsAt_looks quotes _) fun _ => .ite ?_ ((advance_upholds 1).bind fun _ =>
          .pure _)))) s
    · exact .bind (.idle (flush_idle body)) fun _ => (advance_upholds _).bind fun _ =>
        .bind (.idle finishString_idle) fun _ => .pure _
    · exact .bind (.idle (flush_idle body)) fun _ => (escapeSequence_upholds quotes hexpr).bind
        fun _ => .look position_looks fun _ => .pure _

theorem openingLine_upholds (opening : Span) (styleWarnings : Bool) :
    (openingLine opening styleWarnings).Upholds U := by
  refine fun s => .look theText_looks (.look position_looks ?_)
  have hle := le_skipWhile U.ctx.text isIndent s.pos
  have hmove {word : String} {n : Nat} (hn : n = word.length) (hne : word ≠ "")
      (hmatch : matchesAt U.ctx.text word (skipWhile U.ctx.text isIndent s.pos) = true) :
      U.HoldsFrom s (moveTo (skipWhile U.ctx.text isIndent s.pos + n)) s := by
    have hsize := add_length_le_of_matchesAt hmatch hne
    exact moveTo_holdsFrom (by omega) fun _ => by omega
  exact .ite (hmove rfl (by decide)) fun _ => .ite (hmove rfl (by decide)) fun _ =>
    .ite (fun _ => report_upholds rfl _ s) fun _ => .pure (U.refl s)

theorem stringLiteral_upholds (hexpr : interpolate.Upholds U) (styleWarnings : Bool) :
    (stringLiteral interpolate styleWarnings).Upholds U := by
  refine .inMode fun s => .look position_looks (.look theText_looks ?_)
  have hle := le_skipWhile U.ctx.text (· == '#') s.pos
  refine .bind (U.refl s) (moveTo_holdsFrom (by omega) (skipWhile_le_size _ _)) fun _ _ _ h =>
    .of_upholds h (.look (startsWith_looks _) fun multiline => (advance_upholds _).bind fun _ =>
      .look (spanFrom_looks _) fun opening => .option () (openingLine_upholds _ _) fun _ =>
        .look position_looks fun contentStart => ?_)
  exact repeating_upholds (stringStep_upholds _ contentStart hexpr) _

end Parser

end PklSyntax
