import PklSyntax.Proofs.Course.Orderly
import PklSyntax.Proofs.Upkeep.Token

/-!
# Tokens and literals

The runs of the parsers of tokens, names, numbers and strings are orderly, in whatever mode they
begin. All but a few of them are so because what they are made of is; those that put the cursor at
an offset put it at the end of a run of characters, or behind quotes or a line break that stand in
front of the cursor. An interpolation is read in loose mode, whatever the mode is around it.

## Main statements

* `Parser.Orderly.advance`, `Parser.Orderly.identifier?`: tokens and names.
* `Parser.Orderly.number`, `Parser.Orderly.stringLiteral`: literals.
-/

namespace PklSyntax

-- The proof for a long production is a large term.
set_option synthInstance.maxSize 4000

namespace Parser

namespace Orderly

variable {α β σ : Type} {mode : Mode}

/-! ### Looking -/

instance theText : Orderly mode theText := .of_silent fun _ _ => rfl

instance theOptions : Orderly mode theOptions := .of_silent fun _ _ => rfl

instance position : Orderly mode position := .of_silent fun _ _ => rfl

instance peekAt (offset : Nat) : Orderly mode (peekAt offset) := .of_silent fun _ _ => rfl

instance peek : Orderly mode peek := .of_silent fun _ _ => rfl

instance atEnd : Orderly mode atEnd := .of_silent fun _ _ => rfl

instance startsWith (word : String) : Orderly mode (startsWith word) := .of_silent fun _ _ => rfl

instance wordEnd : Orderly mode wordEnd := .of_silent fun _ _ => rfl

instance slice (start stop : Nat) : Orderly mode (slice start stop) := .of_silent fun _ _ => rfl

instance sliceFrom (start : Nat) : Orderly mode (sliceFrom start) := .of_silent fun _ _ => rfl

instance peekWord : Orderly mode peekWord := .of_silent fun _ _ => rfl

instance newlineSince (span : Span) : Orderly mode (newlineSince span) := .of_silent fun _ _ => rfl

instance spanFrom (start : Nat) : Orderly mode (spanFrom start) := .of_silent fun _ _ => rfl

instance limitReached : Orderly mode limitReached := .of_silent fun _ _ => rfl

instance mark : Orderly mode mark := .of_silent fun _ _ => rfl

instance atIdentifier : Orderly mode atIdentifier := .of_silent fun _ _ => rfl

instance atPathStep : Orderly mode atPathStep := .of_silent fun _ _ => rfl

instance atString : Orderly mode atString := .of_silent fun _ _ => rfl

instance poundsAt (quotes : Quotes) (i : Nat) : Orderly mode (poundsAt quotes i) :=
  .of_silent fun _ _ => rfl

instance finishString (quotes : Quotes) (contentStart contentStop : Nat) (segments : Array Segment)
    (indent : Option String) :
    Orderly mode (finishString quotes contentStart contentStop segments indent) :=
  .of_silent fun _ _ => rfl

instance atWord (word : String) : Orderly mode (atWord word) := by
  delta Parser.atWord atWord.scripted id inferInstance; infer_instance

instance here : Orderly mode here := by
  delta Parser.here here.scripted id inferInstance; infer_instance

instance describeCurrent : Orderly mode describeCurrent := by
  delta Parser.describeCurrent describeCurrent.scripted id inferInstance; infer_instance

instance atNumber : Orderly mode atNumber := by
  delta Parser.atNumber atNumber.scripted id inferInstance; infer_instance

instance atExponent : Orderly mode atExponent := by
  delta Parser.atExponent atExponent.scripted id inferInstance; infer_instance

instance closingLine? (quotes : Quotes) : Orderly mode (closingLine? quotes) := by
  delta Parser.closingLine? closingLine?.scripted id inferInstance; infer_instance

instance flush (body : StringBody) : Orderly mode (flush body) := by
  delta Parser.flush flush.scripted id inferInstance; infer_instance

instance firstModifier? (ms : List Modifier) : Orderly mode (firstModifier? ms) := by
  induction ms with
  | nil => exact pure _
  | cons m ms ih => exact bind

/-! ### Tokens and names -/

instance advance (n : Nat) : Orderly mode (advance n) :=
  .of_runs fun _ _ _ => .look theText_looks (.look position_looks (.moveTo fun hs =>
    have hle := hs.pos_le
    ⟨by omega, Nat.min_le_left _ _⟩))

theorem loop {step : σ → Parser (Round σ β)} {_ : ∀ value, Scripted (step value)}
    (hstep : ∀ value, Orderly mode (step value)) (value : σ) :
    Orderly mode (Parser.repeating step value) := by
  delta Parser.repeating repeating.scripted id inferInstance; infer_instance

instance repeating {step : σ → Parser (Round σ β)} [∀ value, Scripted (step value)]
    [hstep : ∀ value, Orderly mode (step value)] (value : σ) :
    Orderly mode (Parser.repeating step value) :=
  loop hstep value

instance failExpected (what : String) : Orderly mode (failExpected what : Parser α) :=
  .of_production (by delta Parser.failExpected id inferInstance; infer_instance)

instance atToken (token : String) : Orderly mode (atToken token) :=
  .of_production (by delta Parser.atToken id inferInstance; infer_instance)

instance atKeyword (word : String) : Orderly mode (atKeyword word) :=
  .of_production (by delta Parser.atKeyword id inferInstance; infer_instance)

instance atAssign : Orderly mode atAssign :=
  .of_production (by delta Parser.atAssign id inferInstance; infer_instance)

instance takeToken (length : Nat) : Orderly mode (takeToken length) :=
  .of_production (by delta Parser.takeToken id inferInstance; infer_instance)

instance accept? (token : String) : Orderly mode (accept? token) :=
  .of_production (by delta Parser.accept? id inferInstance; infer_instance)

instance accept (token : String) : Orderly mode (accept token) :=
  .of_production (by delta Parser.accept id inferInstance; infer_instance)

instance acceptKeyword (word : String) : Orderly mode (acceptKeyword word) :=
  .of_production (by delta Parser.acceptKeyword id inferInstance; infer_instance)

instance expect (token : String) : Orderly mode (expect token) :=
  .of_production (by
    delta Parser.expect id inferInstance
    refine sequence fun span? => ?_
    cases span? <;> infer_instance)

instance expectKeyword (word : String) : Orderly mode (expectKeyword word) :=
  .of_production (by delta Parser.expectKeyword id inferInstance; infer_instance)

instance commaList (close : String) (item : Parser α) [Scripted item] [Orderly mode item] :
    Orderly mode (commaList close item) :=
  .of_production (by delta Parser.commaList id inferInstance; infer_instance)

instance quotedIdentifier : Orderly mode quotedIdentifier := by
  refine .of_runs fun ctx s _ => .look theText_looks (.look position_looks ?_)
  dsimp only
  refine .ite (fun hlast => .bind (.moveTo fun _ => ?_) fun _ _ _ _ => .of_mode rfl) fun _ =>
    .of_mode rfl
  rw [beq_iff_eq] at hlast
  have hle := le_skipWhile ctx.text (fun c => c != backtick && c != '\n') (s.pos + 1)
  have hlt := lt_size_of_charAt_ne (by rw [hlast]; decide)
  exact ⟨by omega, hlt⟩

instance identifier? : Orderly mode identifier? := by
  refine .of_runs fun ctx s _ => .look peek_looks (.ite (fun _ => .of_mode rfl) fun _ =>
    .ite (fun hfirst => .look position_looks (.look wordEnd_looks (.bind (.moveTo fun _ => ?_)
      fun _ _ _ _ => .of_mode rfl))) fun _ => .pure none)
  have hname := continuesName_of_startsName hfirst
  exact ⟨(lt_nameEnd hname).le, skipWhile_le_size ctx.text continuesName
    (lt_size_of_charAt_ne (ne_nul_of_continuesName hname)).le⟩

instance identifier (what : String) : Orderly mode (identifier what) :=
  .of_production (by
    delta Parser.identifier id inferInstance
    refine sequence fun name? => ?_
    cases name? <;> infer_instance)

instance expectName (what : String) : Orderly mode (expectName what) :=
  .of_production (by delta Parser.expectName id inferInstance; infer_instance)

instance qualifiedName (what : String) : Orderly mode (qualifiedName what) :=
  .of_production (by delta Parser.qualifiedName id inferInstance; infer_instance)

/-! ### Literals -/

instance digits (base : IntBase) : Orderly mode (digits base) := by
  refine .of_runs fun ctx s _ => .look position_looks (.look theText_looks (.bind (.moveTo
    fun hs => ⟨le_skipWhile _ _ _, skipWhile_le_size _ _ hs.pos_le⟩) fun _ s' _ _ =>
      .look (sliceFrom_looks _) ?_))
  rcases misplacedUnderscore? _ with _ | ⟨i, place⟩ <;> exact .of_mode rfl

instance endOfNumber (start : Nat) : Orderly mode (endOfNumber start) :=
  .of_production (by delta Parser.endOfNumber id inferInstance; infer_instance)

instance basedNumber (start : Nat) (base : IntBase) : Orderly mode (basedNumber start base) :=
  .of_production (by delta Parser.basedNumber id inferInstance; infer_instance)

instance fraction : Orderly mode fraction :=
  .of_production (by delta Parser.fraction id inferInstance; infer_instance)

instance exponent : Orderly mode exponent :=
  .of_production (by delta Parser.exponent id inferInstance; infer_instance)

instance decimalNumber (start : Nat) (styleWarnings : Bool) :
    Orderly mode (decimalNumber start styleWarnings) :=
  .of_production (by delta Parser.decimalNumber id inferInstance; infer_instance)

instance floatWord (start : Nat) (word : String) : Orderly mode (floatWord start word) :=
  .of_production (by delta Parser.floatWord id inferInstance; infer_instance)

instance number (styleWarnings : Bool) : Orderly mode (number styleWarnings) :=
  .of_production (by
    delta Parser.number id inferInstance
    refine .within (sequence fun _ => sequence fun _ => choice inferInstance
      (sequence fun _ => choice inferInstance (sequence fun first => sequence fun letter => ?_)))
    rcases first == '0', IntBase.ofLetter? letter with ⟨_ | _, _ | _⟩ <;> infer_instance)

variable {interpolate : Parser Expr} [Scripted interpolate] [Orderly .loose interpolate]

instance unicodeEscape (quotes : Quotes) (start : Nat) :
    Orderly mode (unicodeEscape quotes start) := by
  refine .of_runs fun _ _ _ => .look peek_looks (.ite (fun _ => .look position_looks .failWith)
    fun _ => .after rfl fun _ _ _ _ => .look position_looks (.look theText_looks (.bind
      (.moveTo fun hs => ⟨le_skipWhile _ _ _, skipWhile_le_size _ _ hs.pos_le⟩)
        fun _ _ _ _ => ?_)))
  refine .look (sliceFrom_looks _) (.look peek_looks (.ite
    (fun _ => .look position_looks .failWith) fun _ => .after rfl fun _ _ _ _ => ?_))
  dsimp only
  rcases scalar? _ with _ | c <;> exact .of_mode rfl

instance interpolation : Orderly mode (interpolation interpolate) :=
  .of_production (by delta Parser.interpolation id inferInstance; infer_instance)

instance escapeSequence (quotes : Quotes) : Orderly mode (escapeSequence quotes interpolate) :=
  .of_production (by
    delta Parser.escapeSequence id inferInstance
    refine sequence fun _ => sequence fun _ => sequence fun c => ?_
    cases shortEscape? c <;> infer_instance)

instance stringStep (quotes : Quotes) (contentStart : Nat) (body : StringBody) :
    Orderly mode (stringStep quotes contentStart interpolate body) := by
  refine .of_runs fun ctx s _ => .look (closingLine?_looks quotes) ?_
  cases hprobe : closingAt? ctx.text quotes s.pos with
  | some probe =>
    obtain ⟨hle, hquote, hfit⟩ := closingAt?_eq_some hprobe
    -- Up to the move nothing has changed, so that the closing quotes are found behind the cursor.
    exact .look position_looks (.idle (flush_idle body) fun _ => .look (slice_looks _ _)
      (.bind (.moveTo fun _ => ⟨by omega, (poundsFit.tokenEnd hquote hfit).1⟩) fun _ _ _ _ =>
        .of_mode rfl))
  | none => exact .of_mode rfl

instance openingLine (opening : Span) (styleWarnings : Bool) :
    Orderly mode (openingLine opening styleWarnings) := by
  refine .of_runs fun ctx s _ => .look theText_looks (.look position_looks ?_)
  have hle := le_skipWhile ctx.text isIndent s.pos
  have hbreak {word : String} (hne : word ≠ "")
      (hmatch : matchesAt ctx.text word (skipWhile ctx.text isIndent s.pos) = true) :
      s.pos ≤ skipWhile ctx.text isIndent s.pos + word.length ∧
        skipWhile ctx.text isIndent s.pos + word.length ≤ ctx.text.size :=
    ⟨by omega, add_length_le_of_matchesAt hmatch hne⟩
  exact .ite (fun h => .moveTo fun _ => hbreak (by decide) h) fun _ =>
    .ite (fun h => .moveTo fun _ => hbreak (by decide) h) fun _ => .of_mode rfl

instance stringLiteral (styleWarnings : Bool) :
    Orderly mode (stringLiteral interpolate styleWarnings) :=
  .of_runs fun _ _ _ => .inMode (.look position_looks (.look theText_looks (.bind
    (.moveTo fun hs => ⟨le_skipWhile _ _ _, skipWhile_le_size _ _ hs.pos_le⟩) fun _ _ _ _ =>
      .of_mode rfl)))

end Orderly
end Parser
end PklSyntax
