import PklSyntax.Grammar.Nesting
import PklSyntax.Proofs.Layout.Literal
import PklSyntax.Proofs.Printing.Cursor

/-!
# Strings as they are written

A character of a string is written as it is, or with a backslash, as many `#` as there are around
the string, and a letter or a code point in hexadecimal digits. What is written between the quotes
says nothing by itself: each quote, backslash and `#` is read with the `#` behind it, and what
follows the string must not add one. Whatever way is chosen for each character, and whatever text
follows, the string is read to its end and its text is the characters.

## Main definitions

* `CharText`: a way to write a character, `CharText.Denotes`: the character that it stands for.
* `StringForm`: a string within a line, or one over several lines with blanks before its end.
* `StringForm.write`: the characters of a string.

## Main statements

* `Decoding.escape`, `Decoding.raw`, `Decoding.close`: one step through a string.
* `stringLiteral_write`: strings are read as what was written.
-/

namespace PklSyntax

open PklSyntax.Parser

/-! ### Writing strings -/

/-- A way to write a character of a string: as it is, with the letter of an escape, or with the
hexadecimal digits of its code point. -/
inductive CharText where
  | raw (c : Char)
  | short (letter : Char)
  | unicode (digits : List Char)

/-- The letters of escapes, with the characters that they stand for. -/
def shortEscapes : List (Char × Char) :=
  [('t', '\t'), ('n', '\n'), ('r', '\r'), ('"', '"'), ('\\', '\\')]

namespace CharText

/-- The characters that are written in a string with so many `#` on either side. -/
def write (pounds : Nat) : CharText → List Char
  | raw c => [c]
  | short letter => '\\' :: (List.replicate pounds '#' ++ [letter])
  | unicode digits => '\\' :: (List.replicate pounds '#' ++ 'u' :: '\x7b' :: (digits ++ ['\x7d']))

/-- What is written stands for the character. Line feeds are written as they are only in a string
over several lines, quotes and backslashes never. -/
inductive Denotes (multiline : Bool) : CharText → Char → Prop
  | raw {c : Char} (hquote : c ≠ '"') (hbackslash : c ≠ '\\') (hline : multiline = false → c ≠ '\n') :
      Denotes multiline (raw c) c
  | short {letter c : Char}
      (h : (letter, c) ∈ shortEscapes) : Denotes multiline (short letter) c
  | unicode {digits : List Char} {c : Char} (hdigits : ∀ d ∈ digits, isHexDigit d = true)
      (hpos : 1 ≤ digits.length) (hle : digits.length ≤ 6) (hvalue : digitsValue 16 digits = c.toNat) :
      Denotes multiline (unicode digits) c

end CharText

/-- A string within a line, or one over several lines with blanks before its closing quotes. -/
inductive StringForm where
  | basic
  | multiline (indent : List Char) (hindent : ∀ c ∈ indent, c = ' ' ∨ c = '\t')

namespace StringForm

/-- The string stands over several lines. -/
def isMultiline : StringForm → Bool
  | basic => false
  | multiline .. => true

/-- The blanks before the closing quotes of a string over several lines. -/
def indent? : StringForm → Option String
  | basic => none
  | multiline indent _ => some (String.ofList indent)

/-- What stands in front of the characters of a string, behind its `#`. -/
def opening : StringForm → List Char
  | basic => ['"']
  | multiline .. => ['"', '"', '"', '\n']

/-- What stands behind the characters of a string, in front of its `#`. -/
def closing : StringForm → List Char
  | basic => ['"']
  | multiline indent _ => '\n' :: (indent ++ ['"', '"', '"'])

/-- The text of a string with the characters: a line feed stands before its closing quotes when they
are on a line of their own. -/
def value : StringForm → List Char → List Char
  | basic, chars => chars
  | multiline .., chars => chars ++ ['\n']

/-- A string with so many `#` on either side whose characters are written in the given ways. -/
def write (form : StringForm) (pounds : Nat) (texts : List CharText) : List Char :=
  List.replicate pounds '#' ++ (form.opening ++ (texts.flatMap (CharText.write pounds) ++
    (form.closing ++ List.replicate pounds '#')))

end StringForm

/-! ### What has been read of a string -/

namespace Segment

/-- The characters of a segment, none when it is interpolated. -/
def chars : Segment → List Char
  | .text t _ => t.toList
  | .escape c _ => [c]
  | .interpolation .. => []

/-- The segment is not interpolated. -/
def isConstant : Segment → Bool
  | .interpolation .. => false
  | _ => true

end Segment

theorem StringLiteral.isConstant_eq (literal : StringLiteral) :
    literal.isConstant = literal.segments.all Segment.isConstant := rfl

theorem StringLiteral.toList_constantValue (literal : StringLiteral) :
    literal.constantValue.toList = literal.segments.flatMap Segment.chars := by
  rw [constantValue, String.toList_join, List.flatMap_map]
  congr 1
  funext segment
  cases segment <;> simp [Segment.chars]

/-- The segments that have been read and the text up to the offset make up the characters. -/
structure Decoding (text : Array Char) (body : StringBody) (pos : Nat) (chars : List Char) :
    Prop where
  constant : ∀ segment ∈ body.segments.toList, segment.isConstant = true
  le : body.textStart ≤ pos
  chars_eq : body.segments.toList.flatMap Segment.chars ++
    (text.toList.drop body.textStart).take (pos - body.textStart) = chars

section Steps

variable {ctx : Context} {s : State} {quotes : Quotes} {contentStart : Nat}
  {interpolate : Parser Expr} {body : StringBody} {value rest : List Char} {c : Char}

/-- The cursor moves over characters that are left. -/
theorem advance_over {n : Nat} (chars : List Char)
    (h : ctx.text.toList.drop s.pos = chars ++ rest) (hn : n = chars.length) (hpos : 0 < n) :
    advance n ctx s = .ok () { s with pos := s.pos + n } := by
  have hle := add_length_le_size chars h (List.length_pos_iff.1 (hn ▸ hpos))
  show EStateM.Result.ok () { s with pos := min ctx.text.size (s.pos + n) } = _
  rw [hn, Nat.min_eq_right hle]

/-- As many `#` stand there as around the string, and no more. -/
theorem poundsFit_of_drop {text : Array Char} {i : Nat}
    (h : text.toList.drop i = List.replicate quotes.pounds '#' ++ rest)
    (hrest : 0 < quotes.pounds → rest.head? ≠ some '#') : poundsFit text quotes i = true := by
  rw [poundsFit, Bool.or_eq_true, beq_iff_eq, beq_iff_eq]
  rcases Nat.eq_zero_or_pos quotes.pounds with hzero | hpos
  · exact .inl hzero
  · have hrun : rest.takeWhile (· == '#') = [] := by
      cases rest with
      | nil => rfl
      | cons c rest => exact List.takeWhile_cons_of_neg (by simpa using hrest hpos)
    right
    rw [skipWhile_of_drop h, List.takeWhile_append_of_pos (by simp), hrun, List.append_nil,
      List.length_replicate, Nat.add_sub_cancel_left]

/-- The letters of escapes stand for their characters. -/
theorem shortEscape?_eq {letter : Char} (h : (letter, c) ∈ shortEscapes) :
    shortEscape? letter = some c ∧ letter ≠ '#' :=
  (by decide : ∀ p ∈ shortEscapes, shortEscape? p.1 = some p.2 ∧ p.1 ≠ '#') _ h

/-- A character is the one with its code point. -/
theorem scalar?_toNat (c : Char) : scalar? c.toNat = some c := by
  rw [scalar?, dif_pos (show c.toNat.isValidChar from c.valid)]
  rfl

/-- The introduction of an escape, and what comes behind it. -/
theorem escapeIntroduction
    (h : ctx.text.toList.drop s.pos = '\\' :: (List.replicate quotes.pounds '#' ++ rest)) :
    advance (1 + quotes.pounds) ctx s = .ok () { s with pos := s.pos + (1 + quotes.pounds) } ∧
      ctx.text.toList.drop (s.pos + (1 + quotes.pounds)) = rest := by
  have hlen : ('\\' :: List.replicate quotes.pounds '#').length = 1 + quotes.pounds := by
    rw [List.length_cons, List.length_replicate, Nat.add_comm]
  have h : ctx.text.toList.drop s.pos = ('\\' :: List.replicate quotes.pounds '#') ++ rest := h
  exact ⟨advance_over _ h hlen.symm (by omega), hlen ▸ drop_add _ h⟩

/-- An escape with a letter. -/
theorem escapeSequence_short {letter : Char}
    (hletter : (letter, c) ∈ shortEscapes)
    (h : ctx.text.toList.drop s.pos =
      '\\' :: (List.replicate quotes.pounds '#' ++ letter :: rest)) :
    (escapeSequence quotes interpolate).Reads ctx s fun segment s' =>
      segment.isConstant = true ∧ segment.chars = [c] ∧
        s' = { s with pos := s.pos + ((CharText.short letter).write quotes.pounds).length } := by
  obtain ⟨hadvance, hrest⟩ := escapeIntroduction h
  have hchar : charAt ctx.text (s.pos + (1 + quotes.pounds)) = letter := charAt_of_drop hrest 0
  have hstop : s.pos + (1 + quotes.pounds) + 1 =
      s.pos + ((CharText.short letter).write quotes.pounds).length := by
    simp only [CharText.write, List.length_cons, List.length_append, List.length_replicate,
      List.length_nil]
    omega
  refine .look position_looks (.of_run hadvance (.look peek_looks ?_))
  dsimp only
  rw [hchar, (shortEscape?_eq hletter).1]
  refine .of_run (advance_over [letter] hrest rfl Nat.one_pos)
    (.look (spanFrom_looks _) (.pure ⟨rfl, rfl, ?_⟩))
  rw [← hstop]

/-- The digits of an escape between their braces. -/
theorem unicodeEscape_reads {start : Nat} {digits : List Char}
    (hdigits : ∀ d ∈ digits, isHexDigit d = true) (hpos : 1 ≤ digits.length)
    (hle : digits.length ≤ 6) (hvalue : digitsValue 16 digits = c.toNat)
    (h : ctx.text.toList.drop s.pos = '\x7b' :: (digits ++ '\x7d' :: rest)) :
    (unicodeEscape quotes start).Reads ctx s fun value s' =>
      value = c ∧ s' = { s with pos := s.pos + 1 + digits.length + 1 } := by
  have hfirst := drop_one h
  have hlast := drop_add digits hfirst
  have hopen : charAt ctx.text s.pos = '\x7b' := charAt_of_drop h 0
  have hclose : charAt ctx.text (s.pos + 1 + digits.length) = '\x7d' := charAt_of_drop hlast 0
  have hstop : skipWhile ctx.text isHexDigit (s.pos + 1) = s.pos + 1 + digits.length := by
    rw [skipWhile_of_drop hfirst, List.takeWhile_append_of_pos hdigits,
      List.takeWhile_cons_of_neg (by decide : ¬ isHexDigit '\x7d' = true), List.append_nil]
  have hslice : sliceOf ctx.text (s.pos + 1) (s.pos + 1 + digits.length) = String.ofList digits :=
    sliceOf_of_drop hfirst
  have hdigits : digits.isEmpty = false := by
    rw [List.isEmpty_eq_false_iff, ← List.length_pos_iff]
    exact hpos
  refine .look peek_looks (.ite_false (by rw [hopen]; rfl) (.of_run (advance_over ['\x7b'] h rfl
    Nat.one_pos) (.look position_looks (.look theText_looks ?_))))
  rw [hstop]
  refine .of_run rfl (.look (sliceFrom_looks _) (.look peek_looks ?_))
  dsimp only
  rw [hslice, hclose, String.toList_ofList, hdigits, hvalue, scalar?_toNat]
  exact .ite_false (by simpa using hle) (.of_run (advance_over ['\x7d'] hlast rfl Nat.one_pos)
    (.pure ⟨rfl, rfl⟩))

/-- An escape with a code point. -/
theorem escapeSequence_unicode {digits : List Char} (hdigits : ∀ d ∈ digits, isHexDigit d = true)
    (hpos : 1 ≤ digits.length) (hle : digits.length ≤ 6) (hvalue : digitsValue 16 digits = c.toNat)
    (h : ctx.text.toList.drop s.pos = '\\' :: (List.replicate quotes.pounds '#' ++
      'u' :: '\x7b' :: (digits ++ '\x7d' :: rest))) :
    (escapeSequence quotes interpolate).Reads ctx s fun segment s' =>
      segment.isConstant = true ∧ segment.chars = [c] ∧
        s' = { s with pos := s.pos + ((CharText.unicode digits).write quotes.pounds).length } := by
  obtain ⟨hadvance, hrest⟩ := escapeIntroduction h
  have hchar : charAt ctx.text (s.pos + (1 + quotes.pounds)) = 'u' := charAt_of_drop hrest 0
  have hstop : s.pos + (1 + quotes.pounds) + 1 + 1 + digits.length + 1 =
      s.pos + ((CharText.unicode digits).write quotes.pounds).length := by
    simp only [CharText.write, List.length_cons, List.length_append, List.length_replicate,
      List.length_nil]
    omega
  refine .look position_looks (.of_run hadvance (.look peek_looks ?_))
  dsimp only
  rw [hchar, show shortEscape? 'u' = none by decide]
  refine .ite_true rfl (.of_run (advance_over ['u'] hrest rfl Nat.one_pos)
    ((unicodeEscape_reads hdigits hpos hle hvalue (drop_one hrest)).bind ?_))
  rintro _ _ ⟨rfl, rfl⟩
  refine .look (spanFrom_looks _) (.pure ⟨rfl, rfl, ?_⟩)
  rw [← hstop]

namespace Decoding

/-- At the beginning of a string. -/
theorem nil (text : Array Char) (start : Nat) : Decoding text ⟨#[], start⟩ start [] :=
  ⟨List.forall_mem_nil _, Nat.le_refl _, by simp⟩

/-- One more character is text. -/
theorem next (h : Decoding ctx.text body s.pos value) (hrest : ctx.text.toList.drop s.pos = c :: rest) :
    Decoding ctx.text body (s.pos + 1) (value ++ [c]) := by
  have hc : (ctx.text.toList.drop body.textStart)[s.pos - body.textStart]? = some c := by
    rw [List.getElem?_drop, Nat.add_sub_cancel' h.le, ← List.head?_drop, hrest, List.head?_cons]
  refine ⟨h.constant, Nat.le_succ_of_le h.le, ?_⟩
  rw [Nat.succ_sub h.le, List.take_add_one, hc, ← List.append_assoc, h.chars_eq]
  rfl

/-- The text up to the cursor becomes a segment. -/
theorem flush (h : Decoding ctx.text body s.pos value) :
    (Parser.flush body).Reads ctx s fun body' s' =>
      s' = s ∧ body'.textStart = s.pos ∧ Decoding ctx.text body' s.pos value := by
  refine .look position_looks ?_
  split
  · refine .look (sliceFrom_looks _) (.pure ⟨rfl, rfl, ?_, Nat.le_refl _, ?_⟩)
    · rw [Array.toList_push]
      exact List.forall_mem_append.2 ⟨h.constant, List.forall_mem_singleton.2 rfl⟩
    · rw [← h.chars_eq]
      simp [Segment.chars, sliceOf, List.extract_eq_take_drop]
  · have hpos : s.pos - body.textStart = 0 := by omega
    refine .pure ⟨rfl, rfl, h.constant, Nat.le_refl _, ?_⟩
    rw [← h.chars_eq, hpos]
    simp

/-- A character that is written as it is. -/
theorem raw (h : Decoding ctx.text body s.pos value) (hrest : ctx.text.toList.drop s.pos = c :: rest)
    (hopen : closingAt? ctx.text quotes s.pos = none) (hquote : c ≠ '"') (hbackslash : c ≠ '\\')
    (hline : quotes.multiline = false → c ≠ '\n') :
    (stringStep quotes contentStart interpolate body).Reads ctx s fun round s' =>
      round = .next body ∧ s' = { s with pos := s.pos + 1 } ∧
        Decoding ctx.text body s'.pos (value ++ [c]) := by
  have hchar : charAt ctx.text s.pos = c := charAt_of_drop hrest 0
  have hlt : s.pos < ctx.text.size := add_length_le_size [c] hrest nofun
  refine .look (closingLine?_looks quotes) ?_
  rw [hopen]
  refine .look position_looks (.look peek_looks (.look atEnd_looks (.ite_false ?_
    (.look (poundsAt_looks _ _) (.ite_false ?_ (.look (poundsAt_looks _ _) (.ite_false ?_
      (.of_run (advance_over [c] hrest rfl Nat.one_pos)
        (.pure ⟨rfl, rfl, h.next hrest⟩)))))))))
  · rw [hchar, decide_eq_false (Nat.not_le.2 hlt), Bool.false_or]
    cases hmultiline : quotes.multiline with
    | true => rfl
    | false => exact beq_false_of_ne (hline hmultiline)
  · rw [hchar, beq_false_of_ne hquote, Bool.false_and, Bool.false_and]
  · rw [hchar, beq_false_of_ne hbackslash, Bool.false_and]

/-- An escape, from its backslash on. -/
theorem escape (h : Decoding ctx.text body s.pos value) {written : List Char}
    (hrest : ctx.text.toList.drop s.pos = '\\' :: (List.replicate quotes.pounds '#' ++ rest))
    (hpound : rest.head? ≠ some '#') (hopen : closingAt? ctx.text quotes s.pos = none)
    (hescape : (escapeSequence quotes interpolate).Reads ctx s fun segment s' =>
      segment.isConstant = true ∧ segment.chars = [c] ∧
        s' = { s with pos := s.pos + written.length }) :
    (stringStep quotes contentStart interpolate body).Reads ctx s fun round s' =>
      ∃ body', round = .next body' ∧ s' = { s with pos := s.pos + written.length } ∧
        Decoding ctx.text body' s'.pos (value ++ [c]) := by
  have hchar : charAt ctx.text s.pos = '\\' := charAt_of_drop hrest 0
  have hlt : s.pos < ctx.text.size := add_length_le_size ['\\'] hrest nofun
  have hfit : poundsFit ctx.text quotes (s.pos + 1) = true :=
    poundsFit_of_drop (drop_one hrest) fun _ => hpound
  refine .look (closingLine?_looks quotes) ?_
  rw [hopen]
  refine .look position_looks (.look peek_looks (.look atEnd_looks (.ite_false ?_
    (.look (poundsAt_looks _ _) (.ite_false ?_ (.look (poundsAt_looks _ _) (.ite_true ?_
      (h.flush.bind ?_))))))))
  · rw [hchar, decide_eq_false (Nat.not_le.2 hlt), Bool.false_or]
    exact Bool.and_false _
  · rw [hchar]
    rfl
  · rw [hchar, hfit]
    rfl
  rintro body' _ ⟨rfl, hstart, hflushed⟩
  refine hescape.bind ?_
  rintro segment _ ⟨hconstant, hsegment, rfl⟩
  refine .look position_looks (.pure ⟨_, rfl, rfl, ?_, Nat.le_refl _, ?_⟩)
  · rw [Array.toList_push]
    exact List.forall_mem_append.2 ⟨hflushed.constant, List.forall_mem_singleton.2 hconstant⟩
  · have hchars := hflushed.chars_eq
    rw [hstart, Nat.sub_self, List.take_zero, List.append_nil] at hchars
    simp [hsegment, hchars]

end Decoding

/-! ### The end of a string -/

/-- What has been read is the string with the characters. -/
structure StringForm.Decodes (form : StringForm) (pounds : Nat) (chars : List Char)
    (literal : StringLiteral) : Prop where
  multiline_eq : literal.multiline = form.isMultiline
  pounds_eq : literal.pounds = pounds
  isConstant : literal.isConstant = true
  value_eq : literal.constantValue = String.ofList (form.value chars)
  indent_eq : literal.indent = form.indent?

/-- The string that is made of what has been read. -/
theorem Decoding.finish (form : StringForm) {chars : List Char} {contentStop : Nat}
    (h : Decoding ctx.text body s.pos (form.value chars)) (hstart : body.textStart = s.pos)
    (hmultiline : quotes.multiline = form.isMultiline) (s' : State) :
    (finishString quotes contentStart contentStop body.segments form.indent?).Reads ctx s'
      fun literal s'' => form.Decodes quotes.pounds chars literal ∧ s'' = s' := by
  refine .look position_looks (.pure ⟨⟨hmultiline, rfl, ?_, ?_, rfl⟩, rfl⟩)
  · rw [StringLiteral.isConstant_eq, List.all_eq_true]
    exact h.constant
  · have hchars := h.chars_eq
    rw [hstart, Nat.sub_self, List.take_zero, List.append_nil] at hchars
    rw [← String.toList_inj, StringLiteral.toList_constantValue, String.toList_ofList, ← hchars]

/-- The end of a string within a line. -/
theorem Decoding.closeBasic {chars : List Char} (h : Decoding ctx.text body s.pos chars)
    (hmultiline : quotes.multiline = false)
    (hrest : ctx.text.toList.drop s.pos = '"' :: (List.replicate quotes.pounds '#' ++ rest))
    (hpound : 0 < quotes.pounds → rest.head? ≠ some '#') :
    (stringStep quotes contentStart interpolate body).Reads ctx s fun round s' =>
      ∃ literal, round = .done literal ∧ StringForm.basic.Decodes quotes.pounds chars literal ∧
        s' = { s with pos := s.pos + (1 + quotes.pounds) } := by
  have hchar : charAt ctx.text s.pos = '"' := charAt_of_drop hrest 0
  have hlt : s.pos < ctx.text.size := add_length_le_size ['"'] hrest nofun
  have hfit : poundsFit ctx.text quotes (s.pos + 1) = true :=
    poundsFit_of_drop (drop_one hrest) hpound
  have hopen : closingAt? ctx.text quotes s.pos = none := by
    rw [closingAt?, hmultiline]
    rfl
  have hlen : ('"' :: List.replicate quotes.pounds '#').length = 1 + quotes.pounds := by
    rw [List.length_cons, List.length_replicate, Nat.add_comm]
  refine .look (closingLine?_looks quotes) ?_
  rw [hopen]
  refine .look position_looks (.look peek_looks (.look atEnd_looks (.ite_false ?_
    (.look (poundsAt_looks _ _) (.ite_true ?_ (h.flush.bind ?_))))))
  · rw [hchar, decide_eq_false (Nat.not_le.2 hlt), Bool.false_or]
    exact Bool.and_false _
  · rw [hchar, hmultiline, hfit]
    rfl
  rintro body' _ ⟨rfl, hstart, hflushed⟩
  have hrest : ctx.text.toList.drop _ = ('"' :: List.replicate quotes.pounds '#') ++ rest := hrest
  refine .of_run (advance_over _ hrest hlen.symm (by omega)) ((hflushed.finish .basic hstart
    hmultiline _).bind ?_)
  rintro literal _ ⟨hliteral, rfl⟩
  exact .pure ⟨literal, rfl, hliteral, rfl⟩

/-- Closing quotes that stand first on a line, behind blanks. -/
theorem closingAt?_eq {text : Array Char} {i : Nat} {indent : List Char}
    (hmultiline : quotes.multiline = true) (hindent : ∀ c ∈ indent, c = ' ' ∨ c = '\t')
    (hrest : text.toList.drop i = '\n' :: (indent ++ '"' :: '"' :: '"' ::
      (List.replicate quotes.pounds '#' ++ rest)))
    (hpound : 0 < quotes.pounds → rest.head? ≠ some '#') :
    closingAt? text quotes (i + 1) = some (i + 1 + indent.length) := by
  have hline := drop_one hrest
  have hquotes := drop_add indent hline
  have hprobe : skipWhile text isIndent (i + 1) = i + 1 + indent.length := by
    rw [skipWhile_of_drop hline, List.takeWhile_append_of_pos (by simpa [isIndent] using hindent),
      List.takeWhile_cons_of_neg (by decide), List.append_nil]
  have hbefore : charAt text (i + 1 - 1) = '\n' := charAt_of_drop hrest 0
  have hmatches : matchesAt text "\"\"\"" (i + 1 + indent.length) = true := by
    rw [matchesAt_of_drop hquotes]
    rfl
  have hfit : poundsFit text quotes (i + 1 + indent.length + 3) = true :=
    poundsFit_of_drop (drop_add ['"', '"', '"'] hquotes) hpound
  rw [closingAt?, hmultiline, hbefore, hprobe, hmatches, hfit]
  simp

/-- The end of a string over several lines, behind its last line feed. -/
theorem Decoding.closeLine {chars indent : List Char}
    (h : Decoding ctx.text body (s.pos + 1) (chars ++ ['\n'])) (hmultiline : quotes.multiline = true)
    (hindent : ∀ c ∈ indent, c = ' ' ∨ c = '\t')
    (hrest : ctx.text.toList.drop s.pos = '\n' :: (indent ++ '"' :: '"' :: '"' ::
      (List.replicate quotes.pounds '#' ++ rest)))
    (hpound : 0 < quotes.pounds → rest.head? ≠ some '#') :
    (stringStep quotes contentStart interpolate body).Reads ctx { s with pos := s.pos + 1 }
      fun round s' => ∃ literal, round = .done literal ∧
        (StringForm.multiline indent hindent).Decodes quotes.pounds chars literal ∧
          s' = { s with pos := s.pos + 1 + indent.length + 3 + quotes.pounds } := by
  refine .look (closingLine?_looks quotes) ?_
  dsimp only
  rw [closingAt?_eq hmultiline hindent hrest hpound]
  refine .look position_looks ((Decoding.flush (s := { s with pos := s.pos + 1 }) h).bind ?_)
  rintro body' _ ⟨rfl, hstart, hflushed⟩
  have hslice : sliceOf ctx.text (s.pos + 1) (s.pos + 1 + indent.length) = String.ofList indent :=
    sliceOf_of_drop (drop_one hrest)
  refine .look (slice_looks _ _) (.of_run rfl ?_)
  dsimp only
  rw [hslice]
  refine (Decoding.finish (.multiline indent hindent) (s := { s with pos := s.pos + 1 }) hflushed hstart
    hmultiline _).bind ?_
  rintro literal _ ⟨hliteral, rfl⟩
  exact .pure ⟨literal, rfl, hliteral, rfl⟩

/-! ### Whole strings -/

/-- Where characters of a string are written, no closing quotes stand behind blanks. -/
theorem head?_dropWhile_ne (pounds : Nat) {multiline : Bool} {texts : List CharText}
    {chars : List Char} (rest : List Char) (h : List.Forall₂ (CharText.Denotes multiline) texts chars) :
    ((texts.flatMap (CharText.write pounds) ++ '\n' :: rest).dropWhile isIndent).head? ≠
      some '"' := by
  induction h with
  | nil => exact (by decide : some '\n' ≠ some '"')
  | @cons text c texts chars htext _ ih =>
    rw [List.flatMap_cons, List.append_assoc]
    cases htext with
    | raw hquote =>
      rw [CharText.write, List.singleton_append, List.dropWhile_cons]
      split
      · exact ih
      · simpa using hquote
    | short => exact (by decide : some '\\' ≠ some '"')
    | unicode => exact (by decide : some '\\' ≠ some '"')

theorem closingAt?_eq_none {form : StringForm} {text : Array Char} {i : Nat}
    {texts : List CharText} {chars : List Char} (hmultiline : quotes.multiline = form.isMultiline)
    (htexts : List.Forall₂ (CharText.Denotes form.isMultiline) texts chars)
    (hrest : text.toList.drop i =
      texts.flatMap (CharText.write quotes.pounds) ++ (form.closing ++ rest)) :
    closingAt? text quotes i = none := by
  rw [closingAt?, hmultiline]
  cases form with
  | basic => rfl
  | multiline indent hindent =>
    have hno : matchesAt text "\"\"\"" (skipWhile text isIndent i) = false := by
      have hquote := head?_dropWhile_ne quotes.pounds (indent ++ '"' :: '"' :: '"' :: rest) htexts
      have hdrop := drop_skipWhile hrest isIndent
      rw [matchesAt_of_drop hdrop, Bool.eq_false_iff]
      intro hprefix
      obtain ⟨more, hmore⟩ := List.isPrefixOf_iff_prefix.1 hprefix
      refine hquote ?_
      have hclosing : (StringForm.multiline indent hindent).closing ++ rest =
          '\n' :: (indent ++ '"' :: '"' :: '"' :: rest) := by
        simp [StringForm.closing]
      rw [← hclosing, ← hmore]
      rfl
    rw [hno]
    simp

theorem CharText.write_ne_nil (pounds : Nat) (text : CharText) : text.write pounds ≠ [] := by
  cases text <;> exact List.cons_ne_nil _ _

/-- One step through a string is over one of its characters. -/
theorem Decoding.char {form : StringForm} {text : CharText} {texts : List CharText}
    {chars : List Char} (hmultiline : quotes.multiline = form.isMultiline)
    (htexts : List.Forall₂ (CharText.Denotes form.isMultiline) (text :: texts) (c :: chars))
    (h : Decoding ctx.text body s.pos value)
    (hrest : ctx.text.toList.drop s.pos =
      (text :: texts).flatMap (CharText.write quotes.pounds) ++ (form.closing ++ rest)) :
    (stringStep quotes contentStart interpolate body).Reads ctx s fun round s' =>
      ∃ body', round = .next body' ∧
        s' = { s with pos := s.pos + (text.write quotes.pounds).length } ∧
          Decoding ctx.text body' s'.pos (value ++ [c]) := by
  have hopen := closingAt?_eq_none hmultiline htexts hrest
  obtain ⟨htext, -⟩ := List.forall₂_cons.1 htexts
  rw [List.flatMap_cons, List.append_assoc] at hrest
  cases htext with
  | raw hquote hbackslash hline =>
    refine (h.raw hrest hopen hquote hbackslash fun hfalse => hline ?_).mono ?_
    · rw [← hmultiline, hfalse]
    · rintro _ _ ⟨rfl, rfl, hnext⟩
      exact ⟨body, rfl, rfl, hnext⟩
  | @short letter c hletter =>
    have hrest : ctx.text.toList.drop s.pos = '\\' :: (List.replicate quotes.pounds '#' ++
        letter :: (texts.flatMap (CharText.write quotes.pounds) ++ (form.closing ++ rest))) := by
      rw [hrest, CharText.write]
      simp
    exact h.escape hrest (by simpa using (shortEscape?_eq hletter).2) hopen
      (escapeSequence_short hletter hrest)
  | @unicode digits c hdigits hpos hle hvalue =>
    have hrest : ctx.text.toList.drop s.pos = '\\' :: (List.replicate quotes.pounds '#' ++
        'u' :: '\x7b' :: (digits ++ '\x7d' ::
          (texts.flatMap (CharText.write quotes.pounds) ++ (form.closing ++ rest)))) := by
      rw [hrest, CharText.write]
      simp
    exact h.escape hrest (by simp) hopen (escapeSequence_unicode hdigits hpos hle hvalue hrest)

/-- The rest of a string is read to its end. -/
theorem Decoding.toEnd {form : StringForm} {texts : List CharText} {chars : List Char}
    (hmultiline : quotes.multiline = form.isMultiline)
    (htexts : List.Forall₂ (CharText.Denotes form.isMultiline) texts chars)
    (h : Decoding ctx.text body s.pos value)
    (hrest : ctx.text.toList.drop s.pos = texts.flatMap (CharText.write quotes.pounds) ++
      (form.closing ++ (List.replicate quotes.pounds '#' ++ rest)))
    (hpound : 0 < quotes.pounds → rest.head? ≠ some '#') :
    Loops (stringStep quotes contentStart interpolate) ctx (fun literal s' =>
      form.Decodes quotes.pounds (value ++ chars) literal ∧
        s' = { s with pos := s.pos + ((texts.flatMap (CharText.write quotes.pounds)).length +
          (form.closing.length + quotes.pounds)) }) body s := by
  induction htexts generalizing body value s with
  | nil =>
    rw [List.append_nil]
    cases form with
    | basic =>
      refine .done ((h.closeBasic hmultiline hrest hpound).mono ?_)
      rintro _ _ ⟨literal, rfl, hliteral, rfl⟩
      exact ⟨literal, rfl, hliteral, by simp [StringForm.closing]⟩
    | multiline indent hindent =>
      have hopen := closingAt?_eq_none hmultiline .nil hrest
      have hrest : ctx.text.toList.drop s.pos = '\n' :: (indent ++ '"' :: '"' :: '"' ::
          (List.replicate quotes.pounds '#' ++ rest)) := by
        simpa [StringForm.closing] using hrest
      refine .next ((h.raw hrest hopen (by decide) (by decide)
        fun hfalse => absurd (hmultiline.symm.trans hfalse) nofun).mono ?_)
      rintro _ _ ⟨rfl, rfl, hnext⟩
      refine ⟨body, rfl, Nat.lt_succ_self _, add_length_le_size ['\n'] hrest nofun, .done
        ((Decoding.closeLine hnext hmultiline hindent hrest hpound).mono ?_)⟩
      rintro _ _ ⟨literal, rfl, hliteral, rfl⟩
      refine ⟨literal, rfl, hliteral, ?_⟩
      simp [StringForm.closing]
      omega
  | @cons text c texts chars htext htexts ih =>
    have hwritten := List.length_pos_iff.2 (text.write_ne_nil quotes.pounds)
    refine .next ((h.char hmultiline (.cons htext htexts) hrest).mono ?_)
    rintro _ _ ⟨body', rfl, rfl, hnext⟩
    rw [List.flatMap_cons, List.append_assoc] at hrest
    refine ⟨body', rfl, Nat.lt_add_of_pos_right hwritten,
      add_length_le_size _ hrest (text.write_ne_nil _), (ih hnext (drop_add _ hrest)).mono ?_⟩
    rintro literal _ ⟨hliteral, rfl⟩
    refine ⟨by simpa using hliteral, ?_⟩
    simp [Nat.add_assoc]

/-- A string is read from behind its opening on. -/
theorem stringBody_reads {form : StringForm} {texts : List CharText} {chars : List Char}
    (hmultiline : quotes.multiline = form.isMultiline)
    (htexts : List.Forall₂ (CharText.Denotes form.isMultiline) texts chars)
    (hrest : ctx.text.toList.drop s.pos = texts.flatMap (CharText.write quotes.pounds) ++
      (form.closing ++ (List.replicate quotes.pounds '#' ++ rest)))
    (hpound : 0 < quotes.pounds → rest.head? ≠ some '#') :
    (repeating (stringStep quotes s.pos interpolate) ⟨#[], s.pos⟩).Reads ctx s fun literal s' =>
      form.Decodes quotes.pounds chars literal ∧
        s' = { s with pos := s.pos + ((texts.flatMap (CharText.write quotes.pounds)).length +
          (form.closing.length + quotes.pounds)) } :=
  (Decoding.toEnd hmultiline htexts (.nil _ _) hrest hpound).reads

/-- The line break behind opening triple quotes. -/
theorem openingLine_reads {opening : Span} {styleWarnings : Bool}
    (hrest : ctx.text.toList.drop s.pos = '\n' :: rest) :
    (openingLine opening styleWarnings).Reads ctx s fun _ s' =>
      s' = { s with pos := s.pos + 1 } := by
  have hprobe : skipWhile ctx.text isIndent s.pos = s.pos := by
    rw [skipWhile_of_drop hrest, List.takeWhile_cons_of_neg (by decide)]
    rfl
  refine .look theText_looks (.look position_looks ?_)
  dsimp only
  rw [hprobe, matchesAt_of_drop hrest, matchesAt_of_drop hrest]
  exact .ite_false rfl (.ite_true rfl ⟨(), _, rfl, rfl⟩)

/-- Triple quotes stand at the beginning of a string over several lines, and of no other. -/
theorem isPrefixOf_opening {form : StringForm} {pounds : Nat} {texts : List CharText}
    {chars : List Char} (htexts : List.Forall₂ (CharText.Denotes form.isMultiline) texts chars)
    (hquote : form = .basic → pounds = 0 → texts = [] → rest.head? ≠ some '"') :
    "\"\"\"".toList.isPrefixOf (form.opening ++ (texts.flatMap (CharText.write pounds) ++
      (form.closing ++ (List.replicate pounds '#' ++ rest)))) = form.isMultiline := by
  have htriple : "\"\"\"".toList = ['"', '"', '"'] := by decide
  rw [htriple]
  cases form with
  | multiline => rfl
  | basic =>
    rw [StringForm.isMultiline, Bool.eq_false_iff]
    intro hprefix
    obtain ⟨more, hmore⟩ := List.isPrefixOf_iff_prefix.1 hprefix
    have hmore : '"' :: '"' :: more = texts.flatMap (CharText.write pounds) ++
        ('"' :: (List.replicate pounds '#' ++ rest)) := List.cons.inj hmore |>.2
    cases htexts with
    | nil =>
      have hmore : '"' :: more = List.replicate pounds '#' ++ rest := List.cons.inj hmore |>.2
      cases pounds with
      | zero => exact hquote rfl rfl rfl (by rw [← show '"' :: more = rest from hmore]; rfl)
      | succ n => exact absurd (List.cons.inj hmore).1 (by decide)
    | cons htext _ =>
      cases htext with
      | raw hne => exact hne (List.cons.inj hmore).1.symm
      | short => exact absurd (List.cons.inj hmore).1 (by decide)
      | unicode => exact absurd (List.cons.inj hmore).1 (by decide)

end Steps

/-- A string is read as it was written: whatever way has been chosen for each of its characters and
whatever text follows it, the string is read to its end and no further, nothing is recorded, and
its text is the characters that were to be written. What follows must not be taken for a part of the
closing quotes. -/
theorem stringLiteral_write (ctx : Context) (s : State) (form : StringForm) (pounds : Nat)
    {texts : List CharText} {chars rest : List Char}
    (htexts : List.Forall₂ (CharText.Denotes form.isMultiline) texts chars)
    (hrest : ctx.text.toList.drop s.pos = form.write pounds texts ++ rest)
    (hpound : 0 < pounds → rest.head? ≠ some '#')
    (hquote : form = .basic → pounds = 0 → texts = [] → rest.head? ≠ some '"')
    (interpolate : Parser Expr) (styleWarnings : Bool) :
    ∃ literal, stringLiteral interpolate styleWarnings ctx s =
        .ok literal { s with pos := s.pos + (form.write pounds texts).length } ∧
      form.Decodes pounds chars literal := by
  have hread : (stringLiteral interpolate styleWarnings).Reads ctx s fun literal s' =>
      form.Decodes pounds chars literal ∧
        s' = { s with pos := s.pos + (form.write pounds texts).length } := by
    rw [StringForm.write, List.append_assoc, List.append_assoc, List.append_assoc,
      List.append_assoc] at hrest
    have hopening := drop_add _ hrest
    rw [List.length_replicate] at hopening
    have hfirst : ∃ more, form.opening = '"' :: more := by cases form <;> exact ⟨_, rfl⟩
    have hpounds : skipWhile ctx.text (· == '#') s.pos = s.pos + pounds := by
      obtain ⟨more, hmore⟩ := hfirst
      rw [skipWhile_of_drop hrest, List.takeWhile_append_of_pos (by simp), hmore, List.cons_append,
        List.takeWhile_cons_of_neg (by decide), List.append_nil, List.length_replicate]
    have htriple : matchesAt ctx.text "\"\"\"" (s.pos + pounds) = form.isMultiline := by
      rw [matchesAt_of_drop hopening, isPrefixOf_opening htexts hquote]
    refine .inMode (.look position_looks (.look theText_looks ?_))
    dsimp only
    rw [hpounds]
    refine .of_run rfl (.look (startsWith_looks _) ?_)
    dsimp only
    rw [htriple]
    -- The string from behind its opening on.
    have hbody (opening : Span) (s₁ : State) (hs₁ : s₁ =
        { s with mode := .tight, pos := s.pos + pounds + form.opening.length }) :
        (repeating (stringStep ⟨form.isMultiline, s.pos + pounds - s.pos, opening⟩ s₁.pos
          interpolate) ⟨#[], s₁.pos⟩).Reads ctx s₁ fun literal s' =>
            form.Decodes pounds chars literal ∧ { s' with mode := s.mode } =
              { s with pos := s.pos + (form.write pounds texts).length } := by
      have hquotes : (Quotes.mk form.isMultiline pounds opening).multiline = form.isMultiline := rfl
      have hpos : s₁.pos = s.pos + pounds + form.opening.length := by rw [hs₁]
      have hdrop := drop_add form.opening hopening
      rw [← hpos] at hdrop
      rw [Nat.add_sub_cancel_left]
      refine (stringBody_reads hquotes htexts hdrop hpound).mono ?_
      rintro literal _ ⟨hliteral, rfl⟩
      refine ⟨hliteral, ?_⟩
      rw [hs₁]
      simp only [StringForm.write, List.length_append, List.length_replicate, Nat.add_assoc]
    cases form with
    | basic =>
      exact .of_run (advance_over ['"'] hopening rfl Nat.one_pos)
        (.look (spanFrom_looks _) (.look position_looks (hbody _ _ rfl)))
    | multiline indent hindent =>
      refine .of_run (advance_over ['"', '"', '"'] hopening rfl (Nat.succ_pos 2))
        (.look (spanFrom_looks _) ((openingLine_reads (drop_add ['"', '"', '"'] hopening)).bind ?_))
      rintro _ _ rfl
      exact .look position_looks (hbody _ _ rfl)
  obtain ⟨literal, s', hrun, hliteral, rfl⟩ := hread
  exact ⟨literal, hrun, hliteral⟩

/-- A letter and a `#` as they are, a line feed and a letter as escapes. -/
def exampleTexts : List CharText :=
  [.raw 'a', .raw '#', .short 'n', .unicode ['0', '0', '4', '1']]

theorem exampleTexts_denote :
    List.Forall₂ (CharText.Denotes false) exampleTexts ['a', '#', '\n', 'A'] :=
  .cons (.raw (by decide) (by decide) fun _ => by decide)
    (.cons (.raw (by decide) (by decide) fun _ => by decide) (.cons (.short (by decide))
      (.cons (.unicode (List.all_eq_true.1 (by decide)) (by decide) (by decide) (by decide)) .nil)))

example : String.ofList (StringForm.basic.write 1 exampleTexts) =
    "#\"a#\\#n\\#u\x7b0041\x7d\"#" := by decide +kernel

theorem stringLiteral_write_pounds :
    List.Forall₂ (CharText.Denotes false) exampleTexts ['a', '#', '\n', 'A'] ∧
      ∃ literal, stringLiteral Grammar.full.expr true
          ⟨(StringForm.basic.write 1 exampleTexts ++ [' ', '#']).toArray, {}⟩ {} =
          .ok literal { pos := (StringForm.basic.write 1 exampleTexts).length } ∧
        StringForm.basic.Decodes 1 ['a', '#', '\n', 'A'] literal := by
  obtain ⟨literal, hrun, hliteral⟩ := stringLiteral_write
    ⟨(StringForm.basic.write 1 exampleTexts ++ [' ', '#']).toArray, {}⟩ {} .basic 1
    exampleTexts_denote rfl (fun _ => by decide) nofun Grammar.full.expr true
  exact ⟨exampleTexts_denote, literal, by simpa using hrun, hliteral⟩

end PklSyntax
