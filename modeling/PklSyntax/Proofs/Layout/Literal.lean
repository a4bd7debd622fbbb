import PklSyntax.Literal.String
import PklSyntax.Proofs.Layout.Token

/-!
# How literals lie in the text

Literals are read in tight mode, in which the last token always ends at the cursor, so that what has
been read so far is told by offsets alone.

In the middle of a number either the last character that was read can stand in a name, or the next
one can; a number may not run on into a name, so at its end the former holds, and the number is not
empty. The segments of a string make up a row up to the text that belongs to none of them yet.

## Main definitions

* `numberAt`: a number begins at an offset.
* `InNumber`: what is known in the middle of a number.
* `Parser.InString`: what is known in the body of a string.

## Main statements

* `Parser.number_yields`, `Parser.stringLiteral_yields`: where literals lie.
-/

namespace PklSyntax

variable {text : Array Char}

/-! ### Numbers -/

/-- A number begins at the offset. -/
def numberAt (text : Array Char) (i : Nat) : Bool :=
  isDigitLike (charAt text i) || (charAt text i == '.' && isDigitLike (charAt text (i + 1))) ||
    wordAt text "NaN" i || wordAt text "Infinity" i

theorem continuesName_of_isHexDigit {c : Char} (h : isHexDigit c = true) :
    continuesName c = true := by
  have hword : c.toNat < 128 ∧ (c.isAlpha = true ∨ c.isDigit = true) := by
    have : ('A' : Char).val.toNat = 65 := rfl
    have : ('F' : Char).val.toNat = 70 := rfl
    have : ('a' : Char).val.toNat = 97 := rfl
    have : ('f' : Char).val.toNat = 102 := rfl
    simp only [isHexDigit, isDigit_iff, isAlpha_iff, Bool.or_eq_true, Bool.and_eq_true,
      decide_eq_true_eq, Char.le_def, UInt32.le_iff_toNat_le, Char.toNat] at h ⊢
    omega
  have hpart : isWordPart c = true := by
    rcases hword with ⟨hlt, halpha | hdigit⟩
    · simp [isWordPart, isLetter, hlt, halpha]
    · simp [isWordPart, isNumeral, hlt, hdigit]
  simp [continuesName, hpart]

theorem continuesName_of_isDigit {base : IntBase} {c : Char} (h : base.isDigit c = true) :
    continuesName c = true := by
  refine continuesName_of_isHexDigit ?_
  have : ('9' : Char).val.toNat = 57 := rfl
  have : ('0' : Char).val.toNat = 48 := rfl
  have : ('7' : Char).val.toNat = 55 := rfl
  have : ('1' : Char).val.toNat = 49 := rfl
  cases base with
  | hexadecimal => exact h
  | decimal => simp [isHexDigit, show c.isDigit = true from h]
  | octal =>
    simp only [IntBase.isDigit, isHexDigit, Char.isDigit, Bool.or_eq_true, Bool.and_eq_true,
      decide_eq_true_eq, Char.le_def, UInt32.le_iff_toNat_le] at h ⊢
    omega
  | binary =>
    simp only [IntBase.isDigit, Bool.or_eq_true, beq_iff_eq] at h
    rcases h with rfl | rfl <;> decide

/-- In the middle of a number that began at `start`: either the last character that was read can
stand in a name, or the next one can. -/
def InNumber (text : Array Char) (start : Nat) (s : State) (c : Nat) : Prop :=
  start < s.pos ∧ c = s.pos ∧ continuesName (charAt text (s.pos - 1)) = true ∨
    start ≤ s.pos ∧ continuesName (charAt text s.pos) = true

theorem InNumber.tokenEnd {start : Nat} {s : State} {c : Nat} (h : InNumber text start s c)
    (hend : continuesName (charAt text s.pos) = false) :
    start < s.pos ∧ c = s.pos ∧ TokenEnd text s.pos := by
  rcases h with ⟨hlt, hc, hlast⟩ | ⟨-, hnext⟩
  · exact ⟨hlt, hc, ⟨by omega, by rw [endsToken, hlast, Bool.true_or], fun _ => hend⟩⟩
  · simp [hend] at hnext

namespace Parser

variable {α : Type} {ctx : Context} {s : State} {c : Nat}

theorem atNumber_looks : Looks atNumber fun ctx s => numberAt ctx.text s.pos := by
  intro ctx s
  show atNumber ctx s = .ok (numberAt ctx.text s.pos) s
  rw [atNumber, peek_looks.bind_apply, numberAt]
  cases isDigitLike (charAt ctx.text s.pos) with
  | true => rfl
  | false =>
    show (do
      if (← peek) == '.' && isDigitLike (← peekAt 1) then return true
      else if ← atWord "NaN" then return true
      else atWord "Infinity" : Parser Bool) ctx s = _
    rw [peek_looks.bind_apply, (peekAt_looks 1).bind_apply]
    cases charAt ctx.text s.pos == '.' && isDigitLike (charAt ctx.text (s.pos + 1)) with
    | true => rfl
    | false =>
      show (do if ← atWord "NaN" then return true else atWord "Infinity" : Parser Bool) ctx s = _
      rw [(atWord_looks "NaN").bind_apply]
      cases wordAt ctx.text "NaN" s.pos with
      | true => rfl
      | false => exact atWord_looks "Infinity" ctx s

/-- Reading digits where a digit in the wide sense stands. -/
theorem digits_yields {base : IntBase} (start : Nat) (hmode : s.mode = .tight)
    (hle : start ≤ s.pos) (hchar : continuesName (charAt ctx.text s.pos) = true) :
    (digits base).Yields ctx s c fun _ s' c' => InNumber ctx.text start s' c' := by
  refine .of_stands fun hs => .look position_looks (.look theText_looks ?_)
  have hsize := hs.pos_le_size
  have hskip := le_skipWhile ctx.text (fun c => base.isDigit c || c == '_') s.pos
  have hskip' := skipWhile_le_size ctx.text (fun c => base.isDigit c || c == '_') hsize
  obtain ⟨hrun, -⟩ := @skipWhile_spec ctx.text s.pos fun c => base.isDigit c || c == '_'
  refine (moveTo_tight hmode hskip hskip').bind fun _ s₁ c₁ _ hmove =>
    .look (sliceFrom_looks _) ?_
  obtain ⟨rfl, hc⟩ := hmove
  split
  · exact failWith_yields rfl
  · refine .pure ?_
    rcases hc with rfl | ⟨heq, rfl⟩
    · rcases Nat.lt_or_eq_of_le hskip with hlt | heq
      · have hlast := (hrun _ (Nat.le_sub_one_of_lt hlt) (by omega)).2
        refine .inl ⟨Nat.lt_of_le_of_lt hle hlt, rfl, ?_⟩
        simp only [Bool.or_eq_true, beq_iff_eq] at hlast
        rcases hlast with hdigit | hunderscore
        · exact continuesName_of_isDigit hdigit
        · show continuesName (charAt _ _) = true
          rw [hunderscore]
          decide
      · exact .inr ⟨hskip.trans' hle, by simp only [← heq, hchar]⟩
    · exact .inr ⟨hskip.trans' hle, by simp only [heq, hchar]⟩

/-- A number does not run on into a name. -/
theorem endOfNumber_yields {start : Nat} :
    (endOfNumber start).Yields ctx s c fun _ s' c' =>
      s' = s ∧ c' = c ∧ continuesName (charAt ctx.text s.pos) = false := by
  refine .look peek_looks ?_
  split
  · exact .idle wordEnd_looks.idle fun _ => .idle (slice_looks _ _).idle fun _ =>
      failWith_yields rfl
  · rename_i hchar
    exact .pure ⟨rfl, rfl, by simpa using hchar⟩

/-- A number is a leaf. -/
theorem placed_number {literal : NumberLiteral} {start stop : Nat}
    (hspan : literal.span = .ofNat start stop) (hlt : start < stop) (hend : TokenEnd text stop) :
    Placed text start (.number literal) stop := by
  have hchildren : (Node.number literal).children = [] := by cases literal <;> rfl
  refine .of_row start start stop hspan ?_ (Int.le_refl _) (Int.le_refl _) (by omega) hend
  rw [hchildren]
  exact .nil (by omega)

theorem basedNumber_yields {start : Nat} {base : IntBase} (hmode : s.mode = .tight)
    (hstart : start = s.pos) (hsize : s.pos + 2 ≤ ctx.text.size) :
    (basedNumber start base).Yields ctx s c fun literal _ c' =>
      Placed ctx.text start (.number literal) c' := by
  subst hstart
  refine .look (peekAt_looks 1) (.bind (advance_yields (poised_of_tight hmode) (by omega) hsize)
    fun _ s₁ c₁ _ hadv => .look peek_looks ?_)
  obtain ⟨rfl, rfl⟩ := hadv
  dsimp only
  split
  · exact .look (spanFrom_looks _) (failWith_bind_yields rfl)
  rename_i hfirst
  have hchar : continuesName (charAt ctx.text (s.pos + 2)) = true := by
    simp only [Bool.and_eq_true, Bool.not_eq_true', bne_iff_ne, not_and_or, Bool.not_eq_false,
      not_not] at hfirst
    rcases hfirst with hdigit | hunderscore
    · exact continuesName_of_isDigit hdigit
    · rw [hunderscore]
      decide
  refine .bind (digits_yields s.pos hmode (Nat.le_add_right _ _) hchar)
    fun run s₂ c₂ _ hrun => endOfNumber_yields.bind fun _ s₃ c₃ _ hend =>
      .look (spanFrom_looks _) (.pure ?_)
  obtain ⟨rfl, rfl, hend⟩ := hend
  obtain ⟨hlt, rfl, htoken⟩ := hrun.tokenEnd hend
  exact placed_number rfl hlt htoken

theorem fraction_yields (start : Nat) (hmode : s.mode = .tight) (hle : start ≤ s.pos) :
    fraction.Yields ctx s c fun found s' c' =>
      if found = true then InNumber ctx.text start s' c'
      else s' = s ∧ c' = c ∧
        (charAt ctx.text s.pos == '.' && isDigitLike (charAt ctx.text (s.pos + 1))) = false := by
  refine .look peek_looks (.look (peekAt_looks 1) ?_)
  split
  · rename_i hdot
    simp only [Bool.and_eq_true, beq_iff_eq] at hdot
    have hlt := lt_size_of_charAt_ne (by rw [hdot.1]; decide)
    refine .bind (advance_yields (poised_of_tight hmode) (by omega) hlt) fun _ s₁ c₁ _ hadv => ?_
    obtain ⟨rfl, rfl⟩ := hadv
    exact .bind (digits_yields start hmode (Nat.le_succ_of_le hle)
      (continuesName_of_isDigitLike hdot.2)) fun _ s₂ c₂ _ hrun => .pure hrun
  · rename_i hdot
    exact .pure ⟨rfl, rfl, by simpa using hdot⟩

/-- An exponent begins at the offset, with a sign or without one. -/
def exponentAt (text : Array Char) (i : Nat) : Bool :=
  (charAt text i == 'e' || charAt text i == 'E') &&
    (isDigitLike (charAt text (i + 1)) ||
      (charAt text (i + 1) == '+' || charAt text (i + 1) == '-') &&
        isDigitLike (charAt text (i + 2)))

theorem atExponent_looks : Looks atExponent fun ctx s => exponentAt ctx.text s.pos := by
  intro ctx s
  show (if charAt ctx.text s.pos != 'e' && charAt ctx.text s.pos != 'E' then return false
    else if isDigitLike (charAt ctx.text (s.pos + 1)) then return true
    else if charAt ctx.text (s.pos + 1) == '+' || charAt ctx.text (s.pos + 1) == '-' then
      return isDigitLike (← peekAt 2)
    else return false : Parser Bool) ctx s = .ok (exponentAt ctx.text s.pos) s
  rw [exponentAt, bne, bne, ← Bool.not_or]
  cases charAt ctx.text s.pos == 'e' || charAt ctx.text s.pos == 'E' with
  | false => rfl
  | true =>
    cases isDigitLike (charAt ctx.text (s.pos + 1)) with
    | true => rfl
    | false =>
      cases charAt ctx.text (s.pos + 1) == '+' || charAt ctx.text (s.pos + 1) == '-' <;> rfl

theorem exponent_yields {start : Nat} (hmode : s.mode = .tight) (hle : start ≤ s.pos)
    (hin : InNumber ctx.text start s c) :
    exponent.Yields ctx s c fun _ s' c' => InNumber ctx.text start s' c' := by
  refine .look atExponent_looks ?_
  split
  · rename_i hexp
    simp only [exponentAt, Bool.and_eq_true, Bool.or_eq_true, beq_iff_eq] at hexp
    obtain ⟨hletter, hnext⟩ := hexp
    have hlt : s.pos < ctx.text.size := by
      refine lt_size_of_charAt_ne ?_
      rcases hletter with h | h <;> rw [h] <;> decide
    refine .bind (advance_yields (poised_of_tight hmode) (by omega) hlt) fun _ s₁ c₁ _ hadv => ?_
    obtain ⟨rfl, rfl⟩ := hadv
    refine .look peek_looks ?_
    dsimp only
    refine .option (P := fun _ s' c' => s'.mode = .tight ∧ start ≤ s'.pos ∧
      continuesName (charAt ctx.text s'.pos) = true) () (fun hsign => ?_) (fun hsign => ?_)
      fun _ s₂ c₂ _ h => (digits_yields start h.1 h.2.1 h.2.2).bind
        fun _ s₃ c₃ _ hrun => .pure hrun
    · simp only [Bool.or_eq_true, beq_iff_eq] at hsign
      have hlt' : s.pos + 1 < ctx.text.size := by
        refine lt_size_of_charAt_ne ?_
        rcases hsign with h | h <;> rw [h] <;> decide
      refine .mono (advance_yields (poised_of_tight hmode) (by omega) hlt')
        fun _ s₂ c₂ _ hadv => ?_
      obtain ⟨rfl, rfl⟩ := hadv
      refine ⟨hmode, by simp only; omega, continuesName_of_isDigitLike ?_⟩
      rcases hnext with hdigit | ⟨-, hdigit⟩
      · rcases hsign with h | h <;> rw [h] at hdigit <;> exact absurd hdigit (by decide)
      · exact hdigit
    · refine ⟨hmode, Nat.le_succ_of_le hle, continuesName_of_isDigitLike ?_⟩
      simp only [Bool.or_eq_false_iff, beq_eq_false_iff_ne] at hsign
      rcases hnext with hdigit | ⟨hsign', -⟩
      · exact hdigit
      · rcases hsign' with h | h
        · exact absurd h hsign.1
        · exact absurd h hsign.2
  · exact .pure hin

theorem decimalNumber_yields {start : Nat} {styleWarnings : Bool} (hmode : s.mode = .tight)
    (hstart : start = s.pos)
    (hnum : isDigitLike (charAt ctx.text s.pos) = true ∨
      charAt ctx.text s.pos = '.' ∧ isDigitLike (charAt ctx.text (s.pos + 1)) = true) :
    (decimalNumber start styleWarnings).Yields ctx s c fun literal _ c' =>
      Placed ctx.text start (.number literal) c' := by
  subst hstart
  refine .look peek_looks ?_
  dsimp only
  -- Behind the integer part, which is missing when a point comes first.
  refine .branch (P := fun _ s' c' => InNumber ctx.text s.pos s' c' ∨
    s' = s ∧ charAt ctx.text s.pos = '.' ∧ isDigitLike (charAt ctx.text (s.pos + 1)) = true)
    (fun hdot => .pure ?_) (fun hdot => ?_) fun integer s₁ c₁ h₁ hinteger => ?_
  · rw [beq_iff_eq] at hdot
    rcases hnum with hdigit | hpoint
    · rw [hdot] at hdigit
      exact absurd hdigit (by decide)
    · exact .inr ⟨rfl, hpoint⟩
  · rw [beq_eq_false_iff_ne] at hdot
    rcases hnum with hdigit | hpoint
    · exact (digits_yields s.pos hmode (Nat.le_refl _) (continuesName_of_isDigitLike hdigit)).mono
        fun _ s' c' _ h => .inl h
    · exact absurd hpoint.1 hdot
  have hle₁ := h₁.pos_le
  have hmode₁ := h₁.mode_eq.trans hmode
  refine (fraction_yields s.pos hmode₁ hle₁).bind fun found s₂ c₂ h₂ hfraction => ?_
  have hin : InNumber ctx.text s.pos s₂ c₂ := by
    cases found with
    | true => exact hfraction
    | false =>
      obtain ⟨rfl, rfl, hnot⟩ := hfraction
      rcases hinteger with hin | ⟨rfl, hdot, hdigit⟩
      · exact hin
      · rw [hdot, hdigit] at hnot
        simp at hnot
  have hle₂ := h₂.pos_le
  refine (exponent_yields (h₂.mode_eq.trans hmode₁) (by omega) hin).bind
    fun hasExponent s₃ c₃ _ hin₃ => endOfNumber_yields.bind fun _ s₄ c₄ _ hend =>
      .look (spanFrom_looks _) ?_
  obtain ⟨rfl, rfl, hend⟩ := hend
  obtain ⟨hlt, rfl, htoken⟩ := hin₃.tokenEnd hend
  split
  · exact .pure (placed_number rfl hlt htoken)
  · refine .look (sliceFrom_looks _) ?_
    refine .option (P := fun _ _ c' => c' = s₄.pos) () (fun _ => ?_) (fun _ => rfl)
      fun _ s₅ c₅ _ hc => .pure ?_
    · exact (report_yields _ _).mono fun _ _ _ _ h => h.2
    · subst hc
      exact placed_number rfl hlt htoken

theorem floatWord_yields {start : Nat} {word : String} {last : Char} (hmode : s.mode = .tight)
    (hstart : start = s.pos) (hword : wordAt ctx.text word s.pos = true) (hne : word ≠ "")
    (hlast : word.toList[word.length - 1]? = some last) (hname : continuesName last = true) :
    (floatWord start word).Yields ctx s c fun literal _ c' =>
      Placed ctx.text start (.number literal) c' := by
  subst hstart
  refine (advance_matched (poised_of_tight hmode) (matchesAt_of_wordAt hword) hne).bind
    fun _ s₁ c₁ _ hadv => .look (spanFrom_looks _) (.pure ?_)
  obtain ⟨rfl, rfl⟩ := hadv
  have hlen : 0 < word.length := Nat.pos_of_ne_zero fun h => hne (String.length_eq_zero_iff.1 h)
  exact placed_number rfl (by omega) (tokenEnd_of_wordAt hword hlast hname)

theorem opensToken_of_numberAt {i : Nat} (h : numberAt text i = true) :
    opensToken (charAt text i) = true := by
  simp only [numberAt, Bool.or_eq_true, Bool.and_eq_true, beq_iff_eq] at h
  rcases h with ((hdigit | ⟨hdot, -⟩) | hword) | hword
  · exact opensToken_of_continuesName (continuesName_of_isDigitLike hdigit)
  · rw [hdot]
    decide
  · rw [show i = i + 0 from rfl, charAt_of_matchesAt (matchesAt_of_wordAt hword)
      (show "NaN".toList[0]? = some 'N' from rfl)]
    decide
  · rw [show i = i + 0 from rfl, charAt_of_matchesAt (matchesAt_of_wordAt hword)
      (show "Infinity".toList[0]? = some 'I' from rfl)]
    decide

theorem number_yields {styleWarnings : Bool} (hnum : numberAt ctx.text s.pos = true) :
    (number styleWarnings).Yields ctx s c fun literal _ c' =>
      Placed ctx.text s.pos (.number literal) c' := by
  refine .of_stands fun hs => inMode_yields
    (fun _ => hs.poised_of_opens (opensToken_of_numberAt hnum))
    (.look position_looks (.look (atWord_looks _) ?_))
  split
  · exact floatWord_yields rfl rfl ‹_› (by decide) rfl (by decide)
  rename_i hnan
  refine .look (atWord_looks _) ?_
  split
  · exact floatWord_yields rfl rfl ‹_› (by decide) rfl (by decide)
  rename_i hinfinity
  refine .look peek_looks (.look (peekAt_looks 1) ?_)
  have hdigit : isDigitLike (charAt ctx.text s.pos) = true ∨
      charAt ctx.text s.pos = '.' ∧ isDigitLike (charAt ctx.text (s.pos + 1)) = true := by
    simp only [numberAt, Bool.or_eq_true, Bool.and_eq_true, beq_iff_eq] at hnum
    rcases hnum with (hnum | hword) | hword
    · exact hnum
    · exact absurd hword hnan
    · exact absurd hword hinfinity
  split
  · rename_i base hzero hletter
    have hlt : s.pos + 1 < ctx.text.size := by
      refine lt_size_of_charAt_ne fun hnul => ?_
      rw [hnul] at hletter
      simp [IntBase.ofLetter?] at hletter
    exact basedNumber_yields rfl rfl hlt
  · exact decimalNumber_yields rfl rfl hdigit

end Parser

/-! ### Strings -/

/-- A string begins at the offset. -/
def stringAt (text : Array Char) (i : Nat) : Bool :=
  matchesAt text "\"" (skipWhile text (· == '#') i)

/-- As many `#` as around the string stand at the offset; without any, what stands there does not
matter. -/
def poundsFit (text : Array Char) (quotes : Quotes) (i : Nat) : Bool :=
  quotes.pounds == 0 || skipWhile text (· == '#') i - i == quotes.pounds

/-- Where the closing quotes begin that stand first on the line at the offset, behind blanks. -/
def closingAt? (text : Array Char) (quotes : Quotes) (pos : Nat) : Option Nat :=
  if quotes.multiline && 0 < pos && charAt text (pos - 1) == '\n' then
    if matchesAt text "\"\"\"" (skipWhile text isIndent pos) &&
        poundsFit text quotes (skipWhile text isIndent pos + 3) then
      some (skipWhile text isIndent pos)
    else none
  else none

/-- Where the last quote of a string and the `#` behind it end. -/
theorem poundsFit.tokenEnd {quotes : Quotes} {i : Nat} (hquote : charAt text i = '"')
    (h : poundsFit text quotes (i + 1) = true) :
    i + 1 + quotes.pounds ≤ text.size ∧ TokenEnd text (i + 1 + quotes.pounds) := by
  have hlt := lt_size_of_charAt_ne (by rw [hquote]; decide)
  simp only [poundsFit, Bool.or_eq_true, beq_iff_eq] at h
  by_cases hzero : quotes.pounds = 0
  · rw [hzero]
    exact ⟨hlt, tokenEnd_of_sign hquote (by decide) (by decide)⟩
  · have hskip : skipWhile text (· == '#') (i + 1) = i + 1 + quotes.pounds := by omega
    have hsize := skipWhile_le_size text (· == '#') (show i + 1 ≤ text.size from hlt)
    have hlast := ((@skipWhile_spec text (i + 1) (· == '#')).1 (i + quotes.pounds) (by omega)
      (by omega)).2
    rw [hskip] at hsize
    refine ⟨hsize, ?_⟩
    rw [show i + 1 + quotes.pounds = i + quotes.pounds + 1 by omega]
    exact tokenEnd_of_sign (by simpa using hlast) (by decide) (by decide)

theorem closingAt?_eq_some {quotes : Quotes} {pos probe : Nat}
    (h : closingAt? text quotes pos = some probe) :
    pos ≤ probe ∧ charAt text (probe + 2) = '"' ∧ poundsFit text quotes (probe + 3) = true := by
  rw [closingAt?] at h
  split at h
  · split at h
    · rename_i hclose
      rw [Bool.and_eq_true] at hclose
      obtain rfl := Option.some.inj h
      exact ⟨le_skipWhile _ _ _, charAt_of_matchesAt hclose.1 rfl, hclose.2⟩
    · simp at h
  · simp at h

namespace Parser

variable {ctx : Context} {s : State} {c : Nat} {quotes : Quotes} {contentStart : Nat}
  {interpolate : Parser Expr}

theorem atString_looks : Looks atString fun ctx s => stringAt ctx.text s.pos := fun _ _ => rfl

theorem poundsAt_looks (quotes : Quotes) (i : Nat) :
    Looks (poundsAt quotes i) fun ctx _ => poundsFit ctx.text quotes i := fun _ _ => rfl

theorem closingLine?_looks (quotes : Quotes) :
    Looks (closingLine? quotes) fun ctx s => closingAt? ctx.text quotes s.pos := by
  intro ctx s
  show (if quotes.multiline && 0 < s.pos && charAt ctx.text (s.pos - 1) == '\n' then do
      if matchesAt ctx.text "\"\"\"" (skipWhile ctx.text isIndent s.pos) &&
          (← poundsAt quotes (skipWhile ctx.text isIndent s.pos + 3)) then
        return some (skipWhile ctx.text isIndent s.pos)
      else return none
    else return none : Parser (Option Nat)) ctx s = .ok (closingAt? ctx.text quotes s.pos) s
  rw [closingAt?]
  cases quotes.multiline && 0 < s.pos && charAt ctx.text (s.pos - 1) == '\n' with
  | false => rfl
  | true =>
    show (poundsAt quotes (skipWhile ctx.text isIndent s.pos + 3) >>= fun fit =>
      if matchesAt ctx.text "\"\"\"" (skipWhile ctx.text isIndent s.pos) && fit then
        return some (skipWhile ctx.text isIndent s.pos)
      else return none : Parser (Option Nat)) ctx s = _
    rw [(poundsAt_looks _ _).bind_apply, if_pos rfl]
    cases matchesAt ctx.text "\"\"\"" (skipWhile ctx.text isIndent s.pos) &&
      poundsFit ctx.text quotes (skipWhile ctx.text isIndent s.pos + 3) <;> rfl

/-- In the body of a string: the segments make up a row up to where the text begins that belongs to
none of them. -/
structure InString (contentStart : Nat) (body : StringBody) (s : State) (c : Nat) : Prop where
  row : Row contentStart (body.segments.toList.map Node.segment) body.textStart
  le : body.textStart ≤ s.pos
  pos_eq : s.pos = c

theorem flush_yields {body : StringBody} (hin : InString contentStart body s c) :
    (flush body).Yields ctx s c fun body' s' c' =>
      InString contentStart body' s' c' ∧ body'.textStart = s.pos ∧ s' = s ∧ c' = c := by
  refine .look position_looks ?_
  split
  · rename_i hlt
    refine .look (sliceFrom_looks _) (.pure ⟨⟨?_, Nat.le_refl _, hin.pos_eq⟩, rfl, rfl, rfl⟩)
    rw [Array.toList_push, List.map_append]
    refine hin.row.append (.cons (Int.le_refl _) (Node.sound_leaf rfl ?_) (.nil (Int.le_refl _)))
    show (body.textStart : Int) < s.pos
    omega
  · have hle := hin.le
    exact .pure ⟨⟨hin.row.mono (Int.le_refl _) (by simp only; omega), Nat.le_refl _, hin.pos_eq⟩,
      rfl, rfl, rfl⟩

/-- In tight mode, with the last token at the cursor, the parser keeps to that. -/
theorem moveTo_caught {pos : Nat} (hmode : s.mode = .tight) (hpos : s.pos = c)
    (hle : s.pos ≤ pos) (hsize : pos ≤ ctx.text.size) :
    (moveTo pos).Yields ctx s c fun _ s' c' => s' = { s with pos } ∧ c' = s'.pos := by
  refine (moveTo_tight hmode hle hsize).mono fun _ s' c' _ h => ⟨h.1, ?_⟩
  rw [h.1]
  rcases h.2 with heq | ⟨heq, hc⟩
  · exact heq
  · simp only
    omega

theorem unicodeEscape_yields {start : Nat} (hmode : s.mode = .tight) (hpos : s.pos = c) :
    (unicodeEscape quotes start).Yields ctx s c fun _ s' c' => c' = s'.pos := by
  refine .look peek_looks ?_
  split
  · exact .look position_looks (failWith_bind_yields rfl)
  refine (advance_tight hmode hpos).bind fun _ s₁ c₁ h₁ hadv => .look position_looks
    (.look theText_looks ?_)
  have hmode₁ := h₁.mode_eq.trans hmode
  refine (moveTo_caught hmode₁ hadv.2.symm (le_skipWhile _ _ _)
    (skipWhile_le_size _ _ h₁.stands.pos_le_size)).bind fun _ s₂ c₂ h₂ hmove =>
      .look (sliceFrom_looks _) (.look peek_looks ?_)
  split
  · exact .look position_looks (failWith_bind_yields rfl)
  refine (advance_tight (h₂.mode_eq.trans hmode₁) hmove.2.symm).bind fun _ s₃ c₃ _ hadv => ?_
  dsimp only
  split
  · exact .pure hadv.2
  · exact .look (spanFrom_looks _) (failWith_yields rfl)

theorem interpolation_yields
    (hexpr : ∀ s c, interpolate.Yields ctx s c fun e _ c' => Placed ctx.text s.pos (.expr e) c') :
    (interpolation interpolate).Yields ctx s c fun e s' c' =>
      Row s.pos [.expr e] c' ∧ c' = s'.pos := by
  refine inMode_yields nofun (skip_yields.bind fun _ s₁ c₁ h₁ _ => (hexpr s₁ c₁).bind
    fun e s₂ c₂ h₂ he => skip_yields.bind fun _ s₃ c₃ h₃ hskip => .look peek_looks ?_)
  have hle₁ : s.pos ≤ s₁.pos := h₁.pos_le
  have hle₂ := h₂.stands.le_pos
  have hle₃ := h₃.pos_le
  split
  · exact .look position_looks (failWith_bind_yields rfl)
  rename_i hclose
  have hchar : charAt ctx.text s₃.pos = ')' := by simpa using hclose
  have hlt := lt_size_of_charAt_ne (by rw [hchar]; decide)
  refine (advance_yields (hskip.eq ▸ hskip.poised) (by omega) hlt).bind fun _ s₄ c₄ _ hadv =>
    .pure ?_
  obtain ⟨rfl, rfl⟩ := hadv
  exact ⟨he.row.mono (by omega) (by omega), rfl⟩

/-- An escape, from its backslash on. -/
theorem escapeSequence_yields (hmode : s.mode = .tight) (hpos : s.pos = c)
    (hchar : charAt ctx.text s.pos = '\\')
    (hexpr : ∀ s c, interpolate.Yields ctx s c fun e _ c' => Placed ctx.text s.pos (.expr e) c') :
    (escapeSequence quotes interpolate).Yields ctx s c fun segment s' c' =>
      Row s.pos [.segment segment] c' ∧ c' = s'.pos ∧ s.pos < s'.pos := by
  have hlt := lt_size_of_charAt_ne (by rw [hchar]; decide)
  refine .look position_looks ((advance_tight hmode hpos).bind fun _ s₁ c₁ h₁ hadv =>
    .look peek_looks ?_)
  have hmode₁ := h₁.mode_eq.trans hmode
  have hlt₁ : s.pos < s₁.pos := by
    rw [hadv.1]
    simp only
    omega
  -- A segment without nodes in it, read up to the cursor.
  have hleaf : ∀ {t : State} {value : Char}, s₁.pos ≤ t.pos →
      Row s.pos [.segment (.escape value (.ofNat s.pos t.pos))] t.pos := fun hle =>
    .cons (Int.le_refl _) (Node.sound_leaf rfl (by simp only [Node.span, Segment.span, Span.ofNat]; omega))
      (.nil (Int.le_refl _))
  split
  · refine (advance_tight hmode₁ hadv.2.symm).bind fun _ s₂ c₂ h₂ hadv₂ =>
      .look (spanFrom_looks _) (.pure ?_)
    have hle := h₂.pos_le
    obtain ⟨-, rfl⟩ := hadv₂
    exact ⟨hleaf hle, rfl, by omega⟩
  · split
    · refine (advance_tight hmode₁ hadv.2.symm).bind fun _ s₂ c₂ h₂ hadv₂ => ?_
      refine (unicodeEscape_yields (h₂.mode_eq.trans hmode₁) hadv₂.2.symm).bind
        fun value s₃ c₃ h₃ hc => .look (spanFrom_looks _) (.pure ?_)
      have hle₂ := h₂.pos_le
      have hle₃ := h₃.pos_le
      subst hc
      exact ⟨hleaf (by omega), rfl, by omega⟩
    · split
      · refine (advance_tight hmode₁ hadv.2.symm).bind fun _ s₂ c₂ h₂ hadv₂ => ?_
        refine (interpolation_yields hexpr).bind
          fun e s₃ c₃ h₃ he => .look (spanFrom_looks _) (.pure ?_)
        have hle₂ := h₂.pos_le
        have hle₃ := h₃.pos_le
        obtain ⟨hrow, rfl⟩ := he
        refine ⟨.cons (Int.le_refl _) (Node.sound_of_row hrow ?_ (Int.le_refl _) ?_)
          (.nil (Int.le_refl _)), rfl, by omega⟩
        · show (s.pos : Int) ≤ s₂.pos
          omega
        · show (s.pos : Int) < s₃.pos
          omega
      · exact .look position_looks (.look (slice_looks _ _) (failWith_yields rfl))

/-- What a finished string is, of which the body has been read. -/
theorem finishString_yields {body : StringBody} {contentStop start : Nat} {indent : Option String}
    (hstart : quotes.opening.start = start) (hle : start ≤ contentStart)
    (hrow : Row contentStart (body.segments.toList.map Node.segment) body.textStart)
    (hlt : body.textStart < s.pos) (hpos : s.pos = c) (hend : TokenEnd ctx.text s.pos) :
    (finishString quotes contentStart contentStop body.segments indent).Yields ctx s c
      fun literal _ c' => Placed ctx.text start (.string literal) c' := by
  subst hpos
  refine .look position_looks (.pure (.of_row start contentStart body.textStart ?_ ?_ (by omega) (by omega) ?_ hend))
  · show Span.mk _ _ = _
    rw [hstart]
  · simpa [Node.children, Node.fields, StringLiteral.fields] using hrow
  · have := hrow.le
    omega

theorem stringStep_yields {body : StringBody} (start : Nat)
    (hexpr : ∀ s c, interpolate.Yields ctx s c fun e _ c' => Placed ctx.text s.pos (.expr e) c')
    (hstart : quotes.opening.start = start) (hle : start ≤ contentStart) (hmode : s.mode = .tight)
    (hcontent : contentStart ≤ s.pos) (hin : InString contentStart body s c) :
    (stringStep quotes contentStart interpolate body).Yields ctx s c fun round s' c' =>
      round.Meets (fun body' => s.pos < s'.pos ∧ InString contentStart body' s' c')
        fun literal => Placed ctx.text start (.string literal) c' := by
  refine .look (closingLine?_looks quotes) ?_
  split
  · rename_i probe hprobe
    obtain ⟨hle', hquote, hfit⟩ := closingAt?_eq_some hprobe
    obtain ⟨hsize, hend⟩ := poundsFit.tokenEnd hquote hfit
    refine .look position_looks ((flush_yields hin).bind fun body' s₁ c₁ _ hflush =>
      .look (slice_looks _ _) ?_)
    obtain ⟨hin', htext, rfl, rfl⟩ := hflush
    refine (moveTo_caught hmode hin'.pos_eq (by omega) hsize).bind fun _ s₂ c₂ _ hmove => ?_
    obtain ⟨rfl, rfl⟩ := hmove
    exact (finishString_yields hstart (by omega) hin'.row (by simp only; omega) rfl hend).bind
      fun _ _ _ _ h => .pure h
  · refine .look position_looks (.look peek_looks (.look atEnd_looks ?_))
    split
    · exact failWith_yields rfl
    rename_i hmore
    refine .look (poundsAt_looks quotes _) ?_
    split
    · rename_i hclose
      simp only [Bool.and_eq_true, beq_iff_eq] at hclose
      obtain ⟨hsize, hend⟩ := poundsFit.tokenEnd hclose.1.1 hclose.2
      refine (flush_yields hin).bind fun body' s₁ c₁ _ hflush => ?_
      obtain ⟨hin', htext, rfl, rfl⟩ := hflush
      refine (advance_tight hmode hin'.pos_eq).bind fun _ s₂ c₂ _ hadv => ?_
      obtain ⟨rfl, rfl⟩ := hadv
      rw [← Nat.add_assoc, Nat.min_eq_right hsize]
      exact (finishString_yields hstart (by omega) hin'.row (by simp only; omega) rfl hend).bind
        fun _ _ _ _ h => .pure h
    · refine .look (poundsAt_looks quotes _) ?_
      split
      · rename_i hescape
        simp only [Bool.and_eq_true, beq_iff_eq] at hescape
        refine (flush_yields hin).bind fun body' s₁ c₁ _ hflush => ?_
        obtain ⟨hin', htext, rfl, rfl⟩ := hflush
        refine (escapeSequence_yields hmode hin'.pos_eq hescape.1 hexpr).bind
          fun segment s₂ c₂ _ hsegment => .look position_looks (.pure ?_)
        obtain ⟨hrow, rfl, hlt⟩ := hsegment
        refine ⟨hlt, ⟨?_, Nat.le_refl _, rfl⟩⟩
        rw [Array.toList_push, List.map_append]
        exact hin'.row.append (hrow.mono (by omega) (Int.le_refl _))
      · refine (advance_tight hmode hin.pos_eq).bind fun _ s₂ c₂ _ hadv => .pure ?_
        obtain ⟨rfl, rfl⟩ := hadv
        simp only [Bool.or_eq_true, decide_eq_true_eq, not_or] at hmore
        have hlt : s.pos < ctx.text.size := by omega
        have hle := hin.le
        exact ⟨by simp only; omega, ⟨hin.row, by simp only; omega, rfl⟩⟩

theorem openingLine_yields {opening : Span} {styleWarnings : Bool} (hmode : s.mode = .tight)
    (hpos : s.pos = c) :
    (openingLine opening styleWarnings).Yields ctx s c fun _ s' c' => s'.pos = c' := by
  refine .of_stands fun hs => .look theText_looks (.look position_looks ?_)
  have hle := le_skipWhile ctx.text isIndent s.pos
  dsimp only
  split
  · rename_i hbreak
    exact (moveTo_caught hmode hpos (by omega) (add_length_le_of_matchesAt hbreak (by decide))).mono
      fun _ _ _ _ h => h.2.symm
  · split
    · rename_i hbreak
      exact (moveTo_caught hmode hpos (by omega)
        (add_length_le_of_matchesAt hbreak (by decide))).mono fun _ _ _ _ h => h.2.symm
    · split
      · refine (report_yields _ _).mono fun _ s' c' _ h => ?_
        rw [h.1, h.2, ← hpos]
      · exact .pure hpos

theorem opensToken_of_stringAt {i : Nat} (h : stringAt text i = true) :
    opensToken (charAt text i) = true := by
  rcases Nat.lt_or_eq_of_le (le_skipWhile text (· == '#') i) with hlt | heq
  · have hpound := ((@skipWhile_spec text i (· == '#')).1 i (Nat.le_refl _) hlt).2
    rw [beq_iff_eq] at hpound
    rw [hpound]
    decide
  · rw [stringAt, ← heq] at h
    rw [show i = i + 0 from rfl, charAt_of_matchesAt h (show "\"".toList[0]? = some '"' from rfl)]
    decide

theorem stringLiteral_yields {styleWarnings : Bool}
    (hexpr : ∀ s c, interpolate.Yields ctx s c fun e _ c' => Placed ctx.text s.pos (.expr e) c')
    (hstring : stringAt ctx.text s.pos = true) :
    (stringLiteral interpolate styleWarnings).Yields ctx s c fun literal _ c' =>
      Placed ctx.text s.pos (.string literal) c' := by
  refine .of_stands fun hs₀ => inMode_yields
    (fun _ => hs₀.poised_of_opens (opensToken_of_stringAt hstring))
    (.of_stands fun hs => .look position_looks (.look theText_looks ?_))
  have hle := le_skipWhile ctx.text (· == '#') s.pos
  have hsize := skipWhile_le_size ctx.text (· == '#') hs.pos_le_size
  have hquote := add_length_le_of_matchesAt hstring (by decide)
  have hlen : "\"".length = 1 := rfl
  refine .bind (moveTo_tight rfl hle hsize) fun _ s₁ c₁ h₁ hmove =>
    .look (startsWith_looks _) ?_
  obtain ⟨rfl, hc₁⟩ := hmove
  have hlen' : "\"\"\"".length = 3 := rfl
  refine .bind (P := fun _ s' c' => s'.pos = c' ∧ s.pos < s'.pos) (advance_yields
    (poised_of_tight rfl) (by split <;> omega) ?_ |>.mono fun _ s' c' _ hadv => ?_)
    fun _ s₂ c₂ h₂ hadv => .look (spanFrom_looks _) ?_
  · split
    · rename_i htriple
      exact add_length_le_of_matchesAt htriple (by decide)
    · exact hquote
  · obtain ⟨rfl, rfl⟩ := hadv
    exact ⟨rfl, by simp only; split <;> omega⟩
  obtain ⟨hpos₂, hlt₂⟩ := hadv
  have hmode₂ : s₂.mode = .tight := h₂.mode_eq
  refine .option (P := fun _ s' c' => s'.pos = c') () (fun _ => openingLine_yields hmode₂ hpos₂)
    (fun _ => hpos₂) fun _ s₃ c₃ h₃ hpos₃ => .look position_looks ?_
  have hle₃ := h₃.pos_le
  refine .repeating (fun body s' c' => InString s₃.pos body s' c')
    ⟨.nil (Int.le_refl _), Nat.le_refl _, hpos₃⟩ fun body s₄ c₄ h₄ hin => ?_
  exact stringStep_yields s.pos hexpr rfl (by omega)
    (h₄.mode_eq.trans (h₃.mode_eq.trans hmode₂)) h₄.pos_le hin

end Parser

end PklSyntax
