import PklSyntax.Proofs.Growth.Token
import PklSyntax.Proofs.Layout.Literal

/-!
# Growth: numbers and strings

A number or a string that is read where one begins moves the cursor on. A string is well-formed when
the expressions in its interpolations are. The expression of an interpolation is read by a parser of
which no more is known than that it gives well-formed expressions.

## Main statements

* `Parser.number_grows`, `Parser.stringLiteral_grows`.
-/

namespace PklSyntax

variable {text : Array Char} {s s' : State}

/-- A state in which the cursor has passed a place within the text. -/
theorem Advanced.of_lt (hlt : s.pos < text.size) (hlt' : s.pos < s'.pos) : Advanced text s s' :=
  ⟨hlt, hlt'⟩

namespace Parser

variable {ctx : Context}

/-! ### Numbers -/

theorem digits_grows (base : IntBase) : (digits base).Grows ctx s fun _ _ => True := by
  refine .look position_looks (.look theText_looks ?_)
  have hle := le_skipWhile ctx.text (fun c => base.isDigit c || c == '_') s.pos
  refine (moveTo_grows (by omega) (skipWhile_le_size _ _)).bind fun _ s₁ _ _ =>
    .look (sliceFrom_looks _) ?_
  split
  · exact failWith_grows rfl
  · exact .pure trivial

theorem endOfNumber_grows {start : Nat} :
    (endOfNumber start).Grows ctx s fun _ s' =>
      s' = s ∧ continuesName (charAt ctx.text s.pos) = false := by
  refine .look peek_looks (.ite (fun _ => ?_) fun hend => .pure ⟨rfl, hend⟩)
  exact .idle wordEnd_looks.idle fun _ => .idle (slice_looks _ _).idle fun _ => failWith_grows rfl

theorem floatWord_grows {start : Nat} {word : String}
    (hword : wordAt ctx.text word s.pos = true) (hne : word ≠ "") :
    (floatWord start word).Grows ctx s fun _ s' => Advanced ctx.text s s' :=
  (advance_matched_grows _ (matchesAt_of_wordAt hword) hne).bind fun _ _ _ h =>
    .look (spanFrom_looks _) (.pure h)

theorem basedNumber_grows {start : Nat} {base : IntBase} (hlt : s.pos < ctx.text.size) :
    (basedNumber start base).Grows ctx s fun _ s' => Advanced ctx.text s s' := by
  refine .look (peekAt_looks 1) ((advance_grows 2).bind fun _ s₁ _ hadv => .look peek_looks ?_)
  have hadv₁ : Advanced ctx.text s s₁ := by
    rw [hadv]
    exact ⟨hlt, by simp only; omega⟩
  refine .ite (fun _ => .look (spanFrom_looks _) (failWith_bind_grows rfl)) fun _ => ?_
  refine (digits_grows base).bind fun run s₂ h₂ _ => endOfNumber_grows.bind fun _ s₃ h₃ _ =>
    .look (spanFrom_looks _) (.pure ((hadv₁.grown h₂).grown h₃))

theorem fraction_grows :
    fraction.Grows ctx s fun found s' =>
      if found = true then Advanced ctx.text s s'
      else s' = s ∧
        (charAt ctx.text s.pos == '.' && isDigitLike (charAt ctx.text (s.pos + 1))) = false := by
  refine .look peek_looks (.look (peekAt_looks 1) (.ite (fun hdot => ?_) fun hdot => .pure ⟨rfl, hdot⟩))
  rw [Bool.and_eq_true, beq_iff_eq] at hdot
  exact (advance_sign_grows hdot.1 (by decide)).bind fun _ s₁ _ h₁ =>
    (digits_grows .decimal).bind fun _ s₂ h₂ _ => .pure (h₁.grown h₂)

theorem exponent_grows : exponent.Grows ctx s fun _ _ => True := by
  refine .look atExponent_looks (.ite (fun _ => ?_) fun _ => .pure trivial)
  refine (advance_grows 1).bind fun _ s₁ _ _ => .look peek_looks (.option (P := fun _ _ => True) ()
    (fun _ => (advance_grows 1).mono fun _ _ _ _ => trivial) (fun _ => trivial) fun _ s₂ _ _ => ?_)
  exact (digits_grows .decimal).bind fun _ s₃ _ _ => .pure trivial

/-- A number in base ten is not empty: where nothing of it is read, its first character shows that
it runs on into a name. -/
theorem decimalNumber_grows {start : Nat} {styleWarnings : Bool}
    (hdigit : isDigitLike (charAt ctx.text s.pos) = true ∨
      charAt ctx.text s.pos = '.' ∧ isDigitLike (charAt ctx.text (s.pos + 1)) = true) :
    (decimalNumber start styleWarnings).Grows ctx s fun _ s' => Advanced ctx.text s s' := by
  have hlt : s.pos < ctx.text.size := by
    rcases hdigit with hdigit | hdot
    · exact lt_size_of_charAt_ne (ne_nul_of_continuesName (continuesName_of_isDigitLike hdigit))
    · exact lt_size_of_charAt_ne (by rw [hdot.1]; decide)
  refine .look peek_looks (.branch
    (P := fun _ s' => s' = s ∧ charAt ctx.text s.pos = '.' ∨ charAt ctx.text s.pos ≠ '.')
    (fun hdot => .pure (.inl ⟨rfl, by simpa using hdot⟩))
    (fun hdot => (digits_grows _).mono fun _ _ _ _ => .inr (by simpa using hdot))
    fun integer s₁ h₁ hinteger => ?_)
  refine fraction_grows.bind fun hasFraction s₂ h₂ hfraction => exponent_grows.bind
    fun hasExponent s₃ h₃ _ => endOfNumber_grows.bind fun _ s₄ h₄ hend =>
      .look (spanFrom_looks _) ?_
  obtain ⟨rfl, hend⟩ := hend
  have hmoved : Advanced ctx.text s s₄ := by
    refine .of_lt hlt (Nat.lt_of_le_of_ne ?_ fun hpos => ?_)
    · have := h₁.pos_le
      have := h₂.pos_le
      have := h₃.pos_le
      omega
    · -- Nothing has been read, so the first character is a point with a digit behind it.
      have hdot : charAt ctx.text s.pos = '.' ∧
          isDigitLike (charAt ctx.text (s.pos + 1)) = true := hdigit.resolve_left fun hdigit => by
        rw [← hpos, continuesName_of_isDigitLike hdigit] at hend
        cases hend
      obtain ⟨rfl, -⟩ := hinteger.resolve_right (not_not_intro hdot.1)
      cases hasFraction with
      | true =>
        have := (hfraction.grown h₃).2
        omega
      | false => simp [hdot.1, hdot.2] at hfraction
  refine .ite (fun _ => .pure hmoved) fun _ => .look (sliceFrom_looks _) ?_
  refine .option (P := fun _ _ => True) () (fun _ => ?_) (fun _ => trivial) fun _ s₅ h₅ _ =>
    .pure (hmoved.grown h₅)
  exact (report_grows rfl rfl).mono fun _ _ _ _ => trivial

theorem number_grows {styleWarnings : Bool} (hnum : numberAt ctx.text s.pos = true) :
    (number styleWarnings).Grows ctx s fun _ s' => Advanced ctx.text s s' := by
  refine inMode_grows (.look position_looks (.look (atWord_looks _) ?_))
  refine .ite (fun hword => floatWord_grows hword (by decide)) fun hnan => ?_
  refine .look (atWord_looks _) (.ite (fun hword => floatWord_grows hword (by decide))
    fun hinfinity => .look peek_looks (.look (peekAt_looks 1) ?_))
  have hdigit : isDigitLike (charAt ctx.text s.pos) = true ∨
      charAt ctx.text s.pos = '.' ∧ isDigitLike (charAt ctx.text (s.pos + 1)) = true := by
    simpa [numberAt, show wordAt ctx.text "NaN" s.pos = false from hnan,
      show wordAt ctx.text "Infinity" s.pos = false from hinfinity] using hnum
  split
  · rename_i base hzero hletter
    exact basedNumber_grows (lt_size_of_charAt_ne (by rw [beq_iff_eq.1 hzero]; decide))
  · exact decimalNumber_grows hdigit

/-! ### Strings -/

variable {quotes : Quotes} {contentStart : Nat} {interpolate : Parser Expr}

/-- The segments that have been read are well-formed. -/
def StringBody.WellFormed (body : StringBody) : Prop :=
  ∀ segment ∈ body.segments.toList, (Node.segment segment).WellFormed

theorem StringBody.WellFormed.push {body : StringBody} {segment : Segment} {textStart : Nat}
    (h : StringBody.WellFormed body) (hsegment : (Node.segment segment).WellFormed) :
    StringBody.WellFormed ⟨body.segments.push segment, textStart⟩ :=
  forall_mem_toList_push h hsegment

theorem flush_grows {body : StringBody} (hbody : StringBody.WellFormed body) :
    (flush body).Grows ctx s fun body' s' => s' = s ∧ StringBody.WellFormed body' := by
  refine .look position_looks ?_
  split
  · exact .look (sliceFrom_looks _) (.pure ⟨rfl, hbody.push (.leaf trivial rfl)⟩)
  · exact .pure ⟨rfl, hbody⟩

/-- The code point comes from one to six digits, and it is that of a character. -/
structure CodePoint (c : Char) (digits : List Char) : Prop where
  pos : 1 ≤ digits.length
  le : digits.length ≤ 6
  hex : ∀ d ∈ digits, isHexDigit d = true
  valid : (digitsValue 16 digits).isValidChar
  toNat_eq : c.toNat = digitsValue 16 digits

/-- All characters of a run have the property by which the run is found. -/
theorem forall_mem_sliceOf_skipWhile (text : Array Char) (p : Char → Bool) (i : Nat) :
    ∀ c ∈ (sliceOf text i (skipWhile text p i)).toList, p c = true := by
  intro c hc
  rw [sliceOf, String.toList_ofList, Array.mem_toList_iff, Array.mem_iff_getElem] at hc
  obtain ⟨k, hk, rfl⟩ := hc
  rw [Array.size_extract] at hk
  obtain ⟨hlt, hp⟩ := (@skipWhile_spec text i p).1 (i + k) (by omega) (by omega)
  rw [charAt_of_lt hlt] at hp
  rwa [Array.getElem_extract]

theorem unicodeEscape_grows {start : Nat} :
    (unicodeEscape quotes start).Grows ctx s fun c _ => ∃ digits, CodePoint c digits := by
  refine .look peek_looks (.ite (fun _ => .look position_looks (failWith_bind_grows rfl)) fun _ => ?_)
  refine (advance_grows 1).bind fun _ s₁ _ _ => .look position_looks (.look theText_looks ?_)
  have hle := le_skipWhile ctx.text isHexDigit s₁.pos
  refine (moveTo_grows (by omega) (skipWhile_le_size _ _)).bind fun _ s₂ _ h₂ =>
    .look (sliceFrom_looks _) (.look peek_looks ?_)
  refine .ite (fun _ => .look position_looks (failWith_bind_grows rfl)) fun hdigits => ?_
  refine (advance_grows 1).bind fun _ s₃ _ _ => ?_
  subst h₂
  simp only [Bool.or_eq_false_iff, decide_eq_false_iff_not, Nat.not_lt] at hdigits
  dsimp only
  split
  · rename_i c hc
    rw [scalar?] at hc
    obtain ⟨hvalid, hchar⟩ := Option.dite_none_right_eq_some.1 hc
    obtain rfl := Option.some.inj hchar
    refine .pure ⟨_, List.length_pos_of_ne_nil ?_, hdigits.2,
      forall_mem_sliceOf_skipWhile _ _ _, hvalid, rfl⟩
    simpa using hdigits.1.2
  · exact .look (spanFrom_looks _) (failWith_grows rfl)

theorem interpolation_grows
    (hexpr : ∀ s, interpolate.Grows ctx s fun e _ => (Node.expr e).WellFormed) :
    (interpolation interpolate).Grows ctx s fun e _ => (Node.expr e).WellFormed := by
  refine inMode_grows (skip_grows.bind fun _ s₁ _ _ => (hexpr s₁).bind fun e s₂ _ he =>
    skip_grows.bind fun _ s₃ _ _ => .look peek_looks ?_)
  refine .ite (fun _ => .look position_looks (failWith_bind_grows rfl)) fun _ => ?_
  exact (advance_grows 1).bind fun _ s₄ _ _ => .pure he

/-- An escape, from its backslash on. -/
theorem escapeSequence_grows
    (hexpr : ∀ s, interpolate.Grows ctx s fun e _ => (Node.expr e).WellFormed) :
    (escapeSequence quotes interpolate).Grows ctx s fun segment _ =>
      (Node.segment segment).WellFormed := by
  refine .look position_looks ((advance_grows _).bind fun _ s₁ _ _ => .look peek_looks ?_)
  split
  · exact (advance_grows 1).bind fun _ s₂ _ _ => .look (spanFrom_looks _) (.pure (.leaf trivial rfl))
  refine .ite (fun _ => ?_) fun _ => .ite (fun _ => ?_) fun _ => ?_
  · exact (advance_grows 1).bind fun _ s₂ _ _ => unicodeEscape_grows.bind fun value s₃ _ _ =>
      .look (spanFrom_looks _) (.pure (.leaf trivial rfl))
  · refine (advance_grows 1).bind fun _ s₂ _ _ => (interpolation_grows hexpr).bind fun e s₃ _ he =>
      .look (spanFrom_looks _) (.pure ?_)
    rw [Node.wellFormed_iff]
    exact ⟨trivial, by simpa [Node.children, Node.fields, Segment.fields] using he⟩
  · exact .look position_looks (.look (slice_looks _ _) (failWith_grows rfl))

theorem finishString_grows {body : StringBody} (hbody : StringBody.WellFormed body)
    (contentStop : Nat) (indent : Option String) :
    (finishString quotes contentStart contentStop body.segments indent).Grows ctx s
      fun literal _ => (Node.string literal).WellFormed := by
  refine .look position_looks (.pure ?_)
  rw [Node.wellFormed_iff]
  refine ⟨trivial, ?_⟩
  simpa [Node.children, Node.fields, StringLiteral.fields, StringBody.WellFormed] using hbody

theorem stringStep_grows {body : StringBody}
    (hexpr : ∀ s, interpolate.Grows ctx s fun e _ => (Node.expr e).WellFormed)
    (hbody : StringBody.WellFormed body) :
    (stringStep quotes contentStart interpolate body).Grows ctx s fun round _ =>
      round.Meets StringBody.WellFormed fun literal => (Node.string literal).WellFormed := by
  refine .look (closingLine?_looks quotes) ?_
  split
  · rename_i probe hprobe
    obtain ⟨hle, hquote, hfit⟩ := closingAt?_eq_some hprobe
    have hsize := (poundsFit.tokenEnd hquote hfit).1
    refine .look position_looks ((flush_grows hbody).bind fun body' s₁ _ hflush =>
      .look (slice_looks _ _) ?_)
    obtain ⟨rfl, hbody'⟩ := hflush
    exact (moveTo_grows (by omega) fun _ => hsize).bind fun _ s₂ _ _ =>
      (finishString_grows hbody' _ _).bind fun _ _ _ h => .pure h
  · refine .look position_looks (.look peek_looks (.look atEnd_looks
      (.ite (fun _ => failWith_grows rfl) fun _ => .look (poundsAt_looks quotes _) ?_)))
    refine .ite (fun _ => ?_) fun _ => .look (poundsAt_looks quotes _) (.ite (fun _ => ?_) fun _ => ?_)
    · exact (flush_grows hbody).bind fun body' s₁ _ hflush => (advance_grows _).bind fun _ s₂ _ _ =>
        (finishString_grows hflush.2 _ _).bind fun _ _ _ h => .pure h
    · exact (flush_grows hbody).bind fun body' s₁ _ hflush => (escapeSequence_grows hexpr).bind
        fun segment s₂ _ hsegment => .look position_looks (.pure (hflush.2.push hsegment))
    · exact (advance_grows 1).bind fun _ s₁ _ _ => .pure hbody

theorem openingLine_grows {opening : Span} {styleWarnings : Bool} :
    (openingLine opening styleWarnings).Grows ctx s fun _ _ => True := by
  refine .look theText_looks (.look position_looks ?_)
  have hle := le_skipWhile ctx.text isIndent s.pos
  dsimp only
  have hmove {word : String} {n : Nat} (hn : n = word.length) (hne : word ≠ "")
      (hmatch : matchesAt ctx.text word (skipWhile ctx.text isIndent s.pos) = true) :
      (moveTo (skipWhile ctx.text isIndent s.pos + n)).Grows ctx s fun _ _ => True := by
    have hsize := add_length_le_of_matchesAt hmatch hne
    exact (moveTo_grows (by omega) fun _ => by omega).mono fun _ _ _ _ => trivial
  refine .ite (hmove rfl (by decide)) fun _ => .ite (hmove rfl (by decide)) fun _ =>
    .ite (fun _ => ?_) fun _ => .pure trivial
  exact (report_grows rfl rfl).mono fun _ _ _ _ => trivial

theorem stringLiteral_grows {styleWarnings : Bool}
    (hexpr : ∀ s, interpolate.Grows ctx s fun e _ => (Node.expr e).WellFormed)
    (hstring : stringAt ctx.text s.pos = true) :
    (stringLiteral interpolate styleWarnings).Grows ctx s fun literal s' =>
      (Node.string literal).WellFormed ∧ Advanced ctx.text s s' := by
  refine inMode_grows (.look position_looks (.look theText_looks ?_))
  have hle := le_skipWhile ctx.text (· == '#') s.pos
  have hquote := add_length_le_of_matchesAt hstring (by decide)
  have hlen : "\"".length = 1 := rfl
  refine (moveTo_grows (by simp only; omega) fun _ => by simp only; omega).bind
    fun _ s₁ _ hmove => .look (startsWith_looks _) ?_
  refine (advance_grows _).bind fun _ s₂ h₂ hadv => .look (spanFrom_looks _) ?_
  have hmoved : Advanced ctx.text s s₂ := by
    rw [hadv, hmove]
    refine ⟨by omega, ?_⟩
    simp only
    split <;> omega
  refine .option (P := fun _ _ => True) () (fun _ => openingLine_grows) (fun _ => trivial)
    fun _ s₃ h₃ _ => .look position_looks ?_
  refine .mono (.repeating (fun body _ => StringBody.WellFormed body) (by simp [StringBody.WellFormed])
    fun body s₄ _ hbody => stringStep_grows hexpr hbody) fun literal s₅ h₅ hliteral => ?_
  have hmoved₅ : Advanced ctx.text s s₅ := (hmoved.grown h₃).grown h₅
  exact ⟨hliteral, hmoved₅⟩

end Parser

end PklSyntax
