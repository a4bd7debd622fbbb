import PklSyntax.Proofs.Growth.Object

/-!
# Strings are divided into segments

What the content of a string is, is said first, apart from any way to read it. The content lies
between the opening and the closing quotes and is divided into segments. A segment of text contains
nothing that would have ended the string or begun an escape: a quote or a backslash does neither
when more or fewer `#` stand behind it than around the string, and in a string over several lines
only quotes that are first on a line, behind blanks, end it.

The body of a string is read step by step. Before each step the finished segments follow one another
up to an offset, the last of them is not text, and from that offset up to the cursor there is
content that belongs to none of them. A step over a character adds to that content; a step over an
escape, and the last step, make a segment of it first.

An interpolation is read by a parser of which no more is known than that it does not move the cursor
back.

## Main definitions

* `ExactPounds`: as many `#` stand at an offset as around the string, and no more.
* `ClosesLine`: blanks and closing quotes stand at an offset.
* `IsContent`: an offset at which a string neither ends nor has an escape.
* `Tiles`: segments that follow one another without gap or overlap.
* `StringLiteral.Partitioned`: the parts of a string as they lie in the text.
* `Scanned`, `Flushed`: what is known of a body before a step, and when its text is a segment.

## Main statements

* `not_closesLine_of_closingAt?`, `closingAt?_spec`: where closing quotes are found.
* `Tiles.concat`: a further segment.
* `Parser.stringStep_scans`: what one step through a string keeps.
* `stringLiteral_partitioned`: the strings of all grammars.
-/

namespace PklSyntax

/-! ### Quotes and what stands behind them -/

/-- So many `#` stand at the offset, and no more; without any around the string, what stands there
does not matter. -/
def ExactPounds (text : Array Char) (pounds i : Nat) : Prop :=
  pounds = 0 ∨ (∀ k < pounds, charAt text (i + k) = '#') ∧ charAt text (i + pounds) ≠ '#'

/-- Blanks, three quotes and the `#` that belong to them stand at the offset. -/
def ClosesLine (text : Array Char) (pounds i : Nat) : Prop :=
  ∃ quote, i ≤ quote ∧ (∀ k, i ≤ k → k < quote → isIndent (charAt text k) = true) ∧
    matchesAt text "\"\"\"" quote = true ∧ ExactPounds text pounds (quote + 3)

/-- At the offset a string neither ends nor has an escape. -/
structure IsContent (text : Array Char) (multiline : Bool) (pounds i : Nat) : Prop where
  no_escape : ¬ (charAt text i = '\\' ∧ ExactPounds text pounds (i + 1))
  no_line_break : multiline = false → charAt text i ≠ '\n'
  no_quote : multiline = false → ¬ (charAt text i = '"' ∧ ExactPounds text pounds (i + 1))
  no_closing_line : multiline = true → 0 < i → charAt text (i - 1) = '\n' →
    ¬ ClosesLine text pounds i

section Pounds

variable {text : Array Char} {i k : Nat}

/-- Where a run of characters ends. -/
theorem skipWhile_eq {p : Char → Bool} (hnul : p '\x00' = false) (hle : i ≤ k)
    (hrun : ∀ j, i ≤ j → j < k → p (charAt text j) = true) (hstop : p (charAt text k) = false) :
    skipWhile text p i = k := by
  obtain ⟨hspec, hend⟩ := @skipWhile_spec text i p
  rcases Nat.lt_trichotomy (skipWhile text p i) k with hlt | heq | hgt
  · have hchar := hrun _ (le_skipWhile text p i) hlt
    have hsize : skipWhile text p i < text.size := by
      refine lt_size_of_charAt_ne fun h => ?_
      rw [h, hnul] at hchar
      cases hchar
    rw [hend hsize] at hchar
    cases hchar
  · exact heq
  · rw [(hspec k hle hgt).2] at hstop
    cases hstop

theorem poundsFit_iff {quotes : Quotes} :
    poundsFit text quotes i = true ↔ ExactPounds text quotes.pounds i := by
  rw [poundsFit, Bool.or_eq_true, beq_iff_eq, beq_iff_eq, ExactPounds]
  refine or_congr_right ⟨fun h => ?_, fun h => ?_⟩
  · have hle := le_skipWhile text (· == '#') i
    obtain ⟨hspec, hend⟩ := @skipWhile_spec text i (· == '#')
    have hskip : skipWhile text (· == '#') i = i + quotes.pounds := by omega
    rw [hskip] at hspec hend
    refine ⟨fun k hk => by simpa using (hspec (i + k) (by omega) (by omega)).2, ?_⟩
    rcases Nat.lt_or_ge (i + quotes.pounds) text.size with hlt | hge
    · simpa using hend hlt
    · rw [charAt_of_size_le hge]
      decide
  · obtain ⟨hrun, hstop⟩ := h
    rw [skipWhile_eq (k := i + quotes.pounds) (by decide) (Nat.le_add_right _ _) (fun j hj hlt => ?_)
      (by simpa using hstop), Nat.add_sub_cancel_left]
    obtain ⟨d, rfl⟩ := Nat.exists_eq_add_of_le hj
    simpa using hrun d (by omega)

/-- Where no closing quotes are found, none stand. -/
theorem not_closesLine_of_closingAt? {quotes : Quotes} (h : closingAt? text quotes i = none)
    (hmultiline : quotes.multiline = true) (hpos : 0 < i) (hline : charAt text (i - 1) = '\n') :
    ¬ ClosesLine text quotes.pounds i := by
  rintro ⟨quote, hle, hindent, hquotes, hpounds⟩
  have hfirst : charAt text quote = '"' :=
    charAt_of_matchesAt (n := 0) hquotes rfl
  have hskip : skipWhile text isIndent i = quote :=
    skipWhile_eq (by decide) hle hindent (by rw [hfirst]; decide)
  rw [closingAt?, hskip, if_pos (by simp [hmultiline, hpos, hline]),
    if_pos (by rw [hquotes, poundsFit_iff.2 hpounds]; rfl)] at h
  cases h

/-- What stands where closing quotes are found. -/
theorem closingAt?_spec {quotes : Quotes} {quote : Nat}
    (h : closingAt? text quotes i = some quote) :
    quotes.multiline = true ∧ i ≤ quote ∧
      (∀ k, i ≤ k → k < quote → isIndent (charAt text k) = true) ∧
      matchesAt text "\"\"\"" quote = true ∧ ExactPounds text quotes.pounds (quote + 3) := by
  rw [closingAt?] at h
  split at h
  · rename_i hline
    split at h
    · rename_i hclose
      rw [Bool.and_eq_true, poundsFit_iff] at hclose
      obtain rfl := Option.some.inj h
      simp only [Bool.and_eq_true] at hline
      exact ⟨hline.1.1, le_skipWhile _ _ _,
        fun k hk hlt => ((@skipWhile_spec text i isIndent).1 k hk hlt).2, hclose⟩
    · cases h
  · cases h

end Pounds

/-! ### Segments -/

/-- The segment is text as it stands. -/
def Segment.isText : Segment → Bool
  | .text .. => true
  | _ => false

/-- The segments follow one another from an offset up to another, without gap or overlap. -/
inductive Tiles : Nat → List Segment → Nat → Prop
  | nil (i : Nat) : Tiles i [] i
  | cons {i mid stop : Nat} {segment : Segment} {rest : List Segment}
      (hspan : segment.span = .ofNat i mid) (hlt : i < mid) (hrest : Tiles mid rest stop) :
      Tiles i (segment :: rest) stop

/-- The segment, if it is text, is what stands at its place, and all of it is content. -/
def Segment.Verbatim (text : Array Char) (multiline : Bool) (pounds : Nat) : Segment → Prop
  | .text t span => ∃ start stop, span = .ofNat start stop ∧ start < stop ∧ stop ≤ text.size ∧
      t = sliceOf text start stop ∧ ∀ i, start ≤ i → i < stop → IsContent text multiline pounds i
  | _ => True

theorem Segment.verbatim_of_not_isText {text : Array Char} {multiline : Bool} {pounds : Nat}
    (segment : Segment) (h : segment.isText = false) : segment.Verbatim text multiline pounds := by
  cases segment with
  | text => cases h
  | escape => trivial
  | interpolation => trivial

/-- The string ends with its closing quotes, which stand behind its content; over several lines the
blanks between them are its indent. -/
inductive StringLiteral.Closed (text : Array Char) (literal : StringLiteral) (stop : Nat) : Prop
  | basic (hmultiline : literal.multiline = false) (hindent : literal.indent = none)
      (hquote : charAt text stop = '"') (hpounds : ExactPounds text literal.pounds (stop + 1))
      (hspan : literal.span.stop = (stop + 1 + literal.pounds : Nat))
  | multiline {quote : Nat} (hmultiline : literal.multiline = true)
      (hindent : literal.indent = some (sliceOf text stop quote)) (hle : stop ≤ quote)
      (hblank : ∀ k, stop ≤ k → k < quote → isIndent (charAt text k) = true)
      (hquotes : matchesAt text "\"\"\"" quote = true)
      (hpounds : ExactPounds text literal.pounds (quote + 3))
      (hspan : literal.span.stop = (quote + 3 + literal.pounds : Nat))

/-- The string as it lies in the text: its segments make up its content, no two of text are next to
each other, each of them is what stands at its place and has nothing in it that would have ended the
string or begun an escape, and the closing quotes stand behind. -/
structure StringLiteral.Partitioned (text : Array Char) (literal : StringLiteral) : Prop where
  exists_content : ∃ start stop, literal.contentSpan = .ofNat start stop ∧
    Tiles start literal.segments stop ∧ literal.Closed text stop
  apart : literal.segments.IsChain fun a b => ¬ (a.isText = true ∧ b.isText = true)
  verbatim : ∀ segment ∈ literal.segments, segment.Verbatim text literal.multiline literal.pounds

theorem Tiles.concat {start mid stop : Nat} {segments : List Segment} {segment : Segment}
    (h : Tiles start segments mid) (hspan : segment.span = .ofNat mid stop) (hlt : mid < stop) :
    Tiles start (segments ++ [segment]) stop := by
  induction h with
  | nil i => exact .cons hspan hlt (.nil stop)
  | cons hfirst hlt' _ ih => exact .cons hfirst hlt' (ih hspan hlt)

/-! ### Reading a string -/

/-- The segments that are finished lie in the text as they are to. -/
structure Flushed (text : Array Char) (quotes : Quotes) (start : Nat) (segments : List Segment)
    (stop : Nat) : Prop where
  tiles : Tiles start segments stop
  apart : segments.IsChain fun a b => ¬ (a.isText = true ∧ b.isText = true)
  verbatim : ∀ segment ∈ segments, segment.Verbatim text quotes.multiline quotes.pounds

/-- The body up to the cursor: finished segments of which the last is not text, and content behind
them. -/
structure Scanned (text : Array Char) (quotes : Quotes) (start : Nat) (body : StringBody)
    (pos : Nat) : Prop extends Flushed text quotes start body.segments.toList body.textStart where
  last : ∀ segment ∈ body.segments.toList.getLast?, segment.isText = false
  le : body.textStart ≤ pos
  content : ∀ i, body.textStart ≤ i → i < pos → IsContent text quotes.multiline quotes.pounds i

section Bodies

variable {text : Array Char} {quotes : Quotes} {start mid stop : Nat} {segments : List Segment}
  {segment : Segment} {body : StringBody}

/-- A further segment. -/
theorem Flushed.concat (h : Flushed text quotes start segments mid)
    (hspan : segment.span = .ofNat mid stop) (hlt : mid < stop)
    (hapart : ∀ last ∈ segments.getLast?, ¬ (last.isText = true ∧ segment.isText = true))
    (hverbatim : segment.Verbatim text quotes.multiline quotes.pounds) :
    Flushed text quotes start (segments ++ [segment]) stop where
  tiles := h.tiles.concat hspan hlt
  apart := List.isChain_append.2 ⟨h.apart, List.isChain_singleton _, fun last hlast next hnext => by
    cases hnext
    exact hapart last hlast⟩
  verbatim := by
    intro other hother
    rcases List.mem_append.1 hother with hmem | hmem
    · exact h.verbatim other hmem
    · rw [List.mem_singleton.1 hmem]
      exact hverbatim

/-- Behind a segment that is not text, no content has been read yet. -/
theorem Flushed.scanned {next : Array Segment} (h : Flushed text quotes start next.toList stop)
    (hlast : ∀ last ∈ next.toList.getLast?, last.isText = false) :
    Scanned text quotes start ⟨next, stop⟩ stop :=
  ⟨h, hlast, Nat.le_refl _, fun i hle hlt => by
    have : stop ≤ i := hle
    omega⟩

/-- One more character of content. -/
theorem Scanned.next {pos : Nat} (h : Scanned text quotes start body pos)
    (hcontent : IsContent text quotes.multiline quotes.pounds pos) :
    Scanned text quotes start body (pos + 1) where
  toFlushed := h.toFlushed
  last := h.last
  le := Nat.le_succ_of_le h.le
  content := fun i hle hlt => by
    rcases Nat.lt_or_eq_of_le (Nat.le_of_lt_succ hlt) with hlt | rfl
    · exact h.content i hle hlt
    · exact hcontent

end Bodies

namespace Parser

variable {ctx : Context} {s s' : State} {quotes : Quotes} {contentStart : Nat}
  {interpolate : Parser Expr} {body : StringBody}

/-- The content that has been read becomes a segment. -/
theorem flush_scans (h : Scanned ctx.text quotes contentStart body s.pos)
    (hsize : s.pos ≤ ctx.text.size) :
    (flush body).Grows ctx s fun body' s' => s' = s ∧
      Flushed ctx.text quotes contentStart body'.segments.toList s.pos := by
  refine .look position_looks ?_
  split
  · rename_i hlt
    refine .look (sliceFrom_looks _) (.pure ⟨rfl, ?_⟩)
    rw [Array.toList_push]
    refine h.concat rfl hlt (fun last hlast hboth => ?_)
      ⟨_, _, rfl, hlt, hsize, rfl, h.content⟩
    rw [h.last last hlast] at hboth
    cases hboth.1
  · rename_i hle
    have hpos : body.textStart = s.pos := Nat.le_antisymm h.le (Nat.not_lt.1 hle)
    exact .pure ⟨rfl, hpos ▸ h.toFlushed⟩

/-- An escape is a segment from its backslash up to the cursor, and no text. -/
theorem escapeSequence_scans (hlt : s.pos < ctx.text.size)
    (hexpr : ∀ s, interpolate.Grows ctx s fun e _ => (Node.expr e).WellFormed) :
    (escapeSequence quotes interpolate).Grows ctx s fun segment s' =>
      segment.isText = false ∧ segment.span = .ofNat s.pos s'.pos ∧ s.pos < s'.pos := by
  refine .look position_looks ((advance_grows _).bind fun _ s₁ h₁ hadv => .look peek_looks ?_)
  have hmoved : Advanced ctx.text s s₁ := by
    rw [hadv]
    exact ⟨hlt, by simp only; omega⟩
  split
  · exact (advance_grows 1).bind fun _ s₂ h₂ _ => .look (spanFrom_looks _)
      (.pure ⟨rfl, rfl, (hmoved.grown h₂).2⟩)
  refine .ite (fun _ => ?_) fun _ => .ite (fun _ => ?_) fun _ => ?_
  · exact (advance_grows 1).bind fun _ s₂ h₂ _ => unicodeEscape_grows.bind fun value s₃ h₃ _ =>
      .look (spanFrom_looks _) (.pure ⟨rfl, rfl, ((hmoved.grown h₂).grown h₃).2⟩)
  · exact (advance_grows 1).bind fun _ s₂ h₂ _ => (interpolation_grows hexpr).bind fun e s₃ h₃ _ =>
      .look (spanFrom_looks _) (.pure ⟨rfl, rfl, ((hmoved.grown h₂).grown h₃).2⟩)
  · exact .look position_looks (.look (slice_looks _ _) (failWith_grows rfl))

/-- A string that ends at the cursor, behind its closing quotes. -/
theorem finishString_scans {segments : Array Segment} {stop : Nat} {indent : Option String}
    (h : Flushed ctx.text quotes contentStart segments.toList stop)
    (hclosed : ∀ literal : StringLiteral, literal.multiline = quotes.multiline →
      literal.pounds = quotes.pounds → literal.indent = indent → literal.span.stop = s.pos →
        literal.Closed ctx.text stop) :
    (finishString quotes contentStart stop segments indent).Grows ctx s fun literal _ =>
      literal.Partitioned ctx.text :=
  .look position_looks (.pure
    ⟨⟨contentStart, stop, rfl, h.tiles, hclosed _ rfl rfl rfl rfl⟩, h.apart, h.verbatim⟩)

/-- One step through a string: it ends, or its body has been read up to the cursor again. -/
theorem stringStep_scans
    (hexpr : ∀ s, interpolate.Grows ctx s fun e _ => (Node.expr e).WellFormed)
    (h : Scanned ctx.text quotes contentStart body s.pos) :
    (stringStep quotes contentStart interpolate body).Grows ctx s fun round s' =>
      round.Meets (fun body' => Scanned ctx.text quotes contentStart body' s'.pos)
        fun literal => literal.Partitioned ctx.text := by
  refine .look (closingLine?_looks quotes) ?_
  split
  · rename_i probe hprobe
    obtain ⟨hmultiline, hle, hblank, hquotes, hpounds⟩ := closingAt?_spec hprobe
    have hsize : probe + 3 + quotes.pounds ≤ ctx.text.size :=
      (poundsFit.tokenEnd (charAt_of_matchesAt (n := 2) hquotes rfl) (poundsFit_iff.2 hpounds)).1
    refine .look position_looks ((flush_scans h (by omega)).bind fun body' s₁ _ hflush =>
      .look (slice_looks _ _) ?_)
    obtain ⟨rfl, hflushed⟩ := hflush
    refine (moveTo_grows (by omega) fun _ => hsize).bind fun _ s₂ _ hmove =>
      (finishString_scans hflushed fun literal hmultiline' hpounds' hindent hspan => ?_).bind
        fun _ _ _ hliteral => .pure hliteral
    refine .multiline (hmultiline'.trans hmultiline) hindent hle hblank hquotes
      (hpounds' ▸ hpounds) ?_
    rw [hspan, hmove, hpounds']
  rename_i hline
  refine .look position_looks (.look peek_looks (.look atEnd_looks
    (.ite (fun _ => failWith_grows rfl) fun hmore => .look (poundsAt_looks quotes _)
      (.ite (fun hclose => ?_) fun hclose => .look (poundsAt_looks quotes _)
        (.ite (fun hescape => ?_) fun hescape => ?_)))))
  · simp only [Bool.and_eq_true, beq_iff_eq, Bool.not_eq_true'] at hclose
    obtain ⟨⟨hquote, hmultiline⟩, hfit⟩ := hclose
    have hsize := (poundsFit.tokenEnd hquote hfit).1
    refine (flush_scans h (by omega)).bind fun body' s₁ _ hflush => ?_
    obtain ⟨rfl, hflushed⟩ := hflush
    refine (advance_grows _).bind fun _ s₂ _ hadvance =>
      (finishString_scans hflushed fun literal hmultiline' hpounds' hindent hspan => ?_).bind
        fun _ _ _ hliteral => .pure hliteral
    refine .basic (hmultiline'.trans hmultiline) hindent hquote
      (hpounds' ▸ poundsFit_iff.1 hfit) ?_
    rw [hspan, hadvance, hpounds', ← Nat.add_assoc, Nat.min_eq_right hsize]
  · simp only [Bool.or_eq_false_iff, decide_eq_false_iff_not, Nat.not_le] at hmore
    refine (flush_scans h (Nat.le_of_lt hmore.1)).bind fun body' s₁ _ hflush => ?_
    obtain ⟨rfl, hflushed⟩ := hflush
    refine (escapeSequence_scans hmore.1 hexpr).bind fun segment s₂ _ hsegment =>
      .look position_looks (.pure ?_)
    obtain ⟨htext, hspan, hlt⟩ := hsegment
    have hconcat := hflushed.concat hspan hlt (fun last _ hboth => by simp [htext] at hboth)
      (segment.verbatim_of_not_isText htext)
    rw [← Array.toList_push] at hconcat
    refine hconcat.scanned fun last hlast => ?_
    rw [Array.toList_push, List.getLast?_concat] at hlast
    cases hlast
    exact htext
  · simp only [Bool.or_eq_false_iff, decide_eq_false_iff_not, Nat.not_le] at hmore
    refine (advance_grows 1).bind fun _ s₁ _ hadvance => .pure ?_
    have hpos : s₁.pos = s.pos + 1 := by
      rw [hadvance]
      exact Nat.min_eq_right hmore.1
    rw [hpos]
    refine h.next ⟨fun hbackslash => ?_, fun hmultiline hbreak => ?_, fun hmultiline hquote => ?_,
      fun hmultiline hpos hbreak => not_closesLine_of_closingAt? hline hmultiline hpos hbreak⟩
    · simp [hbackslash.1, poundsFit_iff.2 hbackslash.2] at hescape
    · simp [hmultiline, hbreak] at hmore
    · simp [hquote.1, hmultiline, poundsFit_iff.2 hquote.2] at hclose

/-- The string at the cursor, when interpolations are read by a parser that gives well-formed
expressions and does not move the cursor back. -/
theorem stringLiteral_scans {styleWarnings : Bool}
    (hexpr : ∀ s, interpolate.Grows ctx s fun e _ => (Node.expr e).WellFormed)
    (hstring : stringAt ctx.text s.pos = true) :
    (stringLiteral interpolate styleWarnings).Grows ctx s fun literal _ =>
      literal.Partitioned ctx.text := by
  refine inMode_grows (.look position_looks (.look theText_looks ?_))
  have hle := le_skipWhile ctx.text (· == '#') s.pos
  have hquote := add_length_le_of_matchesAt hstring (by decide)
  have hlen : "\"".length = 1 := rfl
  refine (moveTo_grows (by simp only; omega) fun _ => by simp only; omega).bind
    fun _ s₁ _ hmove => .look (startsWith_looks _) ?_
  refine (advance_grows _).bind fun _ s₂ _ _ => .look (spanFrom_looks _) ?_
  refine .option (P := fun _ _ => True) () (fun _ => openingLine_grows) (fun _ => trivial)
    fun _ s₃ _ _ => .look position_looks ?_
  refine .repeating (fun body s₄ => Scanned ctx.text _ s₃.pos body s₄.pos) ?_
    fun body s₄ _ hbody => stringStep_scans hexpr hbody
  exact Flushed.scanned ⟨.nil _, .nil, nofun⟩ nofun

end Parser

/-- The segments of a string that is read make up its content from end to end. No two of text are
next to each other, each of them is what stands at its place, and nothing in them would have ended
the string or begun an escape. The closing quotes stand behind, with as many `#` as in front of the
string, and no more. -/
theorem stringLiteral_partitioned {depth : Nat} {ctx : Context} {s s' : State}
    {styleWarnings : Bool} {literal : StringLiteral} (hstring : Parser.atString ctx s = .ok true s)
    (hrun : Parser.stringLiteral (Grammar.nested depth).expr styleWarnings ctx s =
      .ok literal s') : literal.Partitioned ctx.text := by
  rw [Parser.atString_looks ctx s] at hstring
  have hstring : stringAt ctx.text s.pos = true := (EStateM.Result.ok.inj hstring).1
  have hexpr (t : State) := ((Grammar.grows_nested ctx depth).expr t).mono
    fun _ _ _ h => h.1
  exact ((Parser.stringLiteral_scans hexpr hstring).of_ok hrun).2

/-- Between single `#`, a quote with two of them behind it is content: in front of the escape there
is one segment of text, and another one behind it. -/
theorem stringLiteral_partitioned_pounds :
    let ctx : Context := ⟨"#\"a\"##\\#tb\"#".toList.toArray, {}⟩
    ∃ literal s', Parser.atString ctx {} = .ok true {} ∧
      Parser.stringLiteral (Grammar.nested 0).expr true ctx {} = .ok literal s' ∧
      literal.segments.map Segment.isText = [true, false, true] ∧
      literal.Partitioned ctx.text := by
  intro ctx
  have hstring : stringAt ctx.text 0 = true := by decide +kernel
  have hat : Parser.atString ctx {} = .ok true {} := by
    rw [Parser.atString_looks ctx {}]
    show EStateM.Result.ok (stringAt ctx.text 0) _ = _
    rw [hstring]
  obtain ⟨literal, s', hrun, hsegments⟩ := Parser.exists_of_passes
    (Parser.stringLiteral (Grammar.nested 0).expr true) ctx {}
    (fun literal _ => literal.segments.map Segment.isText == [true, false, true])
    (by decide +kernel)
  exact ⟨literal, s', hat, hrun, beq_iff_eq.1 hsegments, stringLiteral_partitioned hat hrun⟩

end PklSyntax
