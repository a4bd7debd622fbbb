import PklSyntax.Proofs.Rendering.Gutter

/-!
# The source shown for a label

A snippet shows a line of the text with a mark below it. Two readings of "line" meet there: the
number of the line and the columns of the mark count source lines, the line that is shown is a
display line. In a text whose display lines end at line feeds only the two agree, and a label
within a line is shown right: the line is the whole source line around the label, and the mark
stands under the characters of the label. Any other character that ends a display line, such as a
form feed, sets the two apart for the rest of the text.

## Main definitions

* `SourceText.Around`: a text cut in front of one of its source lines and behind it.

## Main statements

* `SourceText.exists_around`: the source line around a span without a line feed.
* `SourceText.Around.position`, `SourceText.Around.displayLine`: the position of an offset in the
  line, and the display line with its number.
* `Diagnostic.renderLines_show`: what is rendered for a label within a line.
-/

namespace PklSyntax

variable {before line after : List Char}

/-! ### Display lines -/

/-- Only line feeds end a display line among the characters. -/
def OnlyLineFeeds (chars : List Char) : Prop := ∀ c ∈ chars, isLineBreak c = true → c = '\n'

theorem OnlyLineFeeds.right {front rest : List Char} (h : OnlyLineFeeds (front ++ rest)) :
    OnlyLineFeeds rest :=
  fun c hc => h c (List.mem_append_right _ hc)

theorem OnlyLineFeeds.tail {c : Char} {chars : List Char} (h : OnlyLineFeeds (c :: chars)) :
    OnlyLineFeeds chars :=
  fun d hd => h d (List.mem_cons_of_mem c hd)

theorem displayLinesFrom_cons {c : Char} {chars : List Char} (h : isLineBreak c = true → c = '\n')
    (shown : List Char) :
    displayLinesFrom shown (c :: chars) =
      if c = '\n' then String.ofList shown.reverse :: displayLinesFrom [] chars
      else displayLinesFrom (c :: shown) chars := by
  have hreturn : c ≠ '\r' := by
    rintro rfl
    exact absurd (h (by decide)) (by decide)
  rw [displayLinesFrom]
  · by_cases hc : c = '\n'
    · rw [if_pos hc, if_pos (by rw [hc]; decide)]
    · rw [if_neg hc, if_neg fun hbreak => hc (h hbreak)]
  · exact fun _ hr => absurd hr hreturn

/-- The lines that end in front of a line are shown apart from it. -/
theorem exists_displayLines_append (shown rest : List Char)
    (honly : OnlyLineFeeds (before ++ rest))
    (hend : before.getLast? = some '\n' ∨ before = [] ∧ shown = []) :
    ∃ above : List String, above.length = before.count '\n' ∧
      displayLinesFrom shown (before ++ rest) = above ++ displayLinesFrom [] rest := by
  induction before generalizing shown with
  | nil =>
    rcases hend with hend | ⟨-, rfl⟩
    · simp at hend
    · exact ⟨[], rfl, rfl⟩
  | cons c before ih =>
    have hlast : before.getLast? = some '\n' ∨ before = [] ∧ c = '\n' := by
      rcases hend with hend | ⟨hend, -⟩
      · cases before with
        | nil => exact .inr ⟨rfl, by simpa using hend⟩
        | cons d before => exact .inl (by simpa using hend)
      · simp at hend
    have honly' : OnlyLineFeeds (before ++ rest) := honly.tail
    rw [List.cons_append, displayLinesFrom_cons (honly c (by simp))]
    by_cases hc : c = '\n'
    · rw [if_pos hc]
      obtain ⟨above, hlength, heq⟩ := ih [] honly' (hlast.imp_right fun h => ⟨h.1, rfl⟩)
      exact ⟨String.ofList shown.reverse :: above, by rw [hc]; simp [hlength], by rw [heq]; rfl⟩
    · rw [if_neg hc]
      obtain ⟨above, hlength, heq⟩ :=
        ih (c :: shown) honly' (hlast.imp_right fun h => absurd h.2 hc)
      exact ⟨above, by rw [hlength, List.count_cons_of_ne hc], heq⟩

theorem displayLinesFrom_line (shown rest : List Char)
    (honly : OnlyLineFeeds (line ++ rest)) (hline : '\n' ∉ line) :
    displayLinesFrom shown (line ++ rest) = displayLinesFrom (line.reverse ++ shown) rest := by
  induction line generalizing shown with
  | nil => rfl
  | cons c line ih =>
    rw [List.mem_cons, not_or] at hline
    rw [List.cons_append, displayLinesFrom_cons (honly c (by simp)), if_neg (Ne.symm hline.1),
      ih (c :: shown) honly.tail hline.2, List.reverse_cons, List.append_assoc]
    rfl

/-! ### The line around a span -/

/-- The text is cut in front of a source line and behind it. -/
structure SourceText.Around (source : SourceText) (before line after : List Char) : Prop where
  chars_eq : source.chars.toList = before ++ (line ++ after)
  opens : before = [] ∨ before.getLast? = some '\n'
  closes : after = [] ∨ after.head? = some '\n'
  whole : '\n' ∉ line

namespace SourceText

variable {source : SourceText}

/-- The source line around a span that holds no line feed. -/
theorem exists_around {span : Span} (hstart : 0 ≤ span.start) (hle : span.start ≤ span.stop)
    (hstop : span.stop ≤ source.chars.size) (hline : '\n' ∉ source.slice span) :
    ∃ before left right after : List Char,
      source.Around before (left ++ source.slice span ++ right) after ∧
        span.start = before.length + left.length := by
  obtain ⟨i, hi⟩ := Int.eq_ofNat_of_zero_le hstart
  obtain ⟨j, hj⟩ := Int.eq_ofNat_of_zero_le (Int.le_trans hstart hle)
  have hij : i ≤ j ∧ j ≤ source.chars.size := by omega
  have hslice : source.slice span = (source.chars.toList.take j).drop i := by
    rw [slice, hi, hj, Array.toList_extract, List.extract_eq_take_drop]
    simp only [Int.toNat_natCast, List.drop_take]
  have htext : source.chars.toList =
      source.chars.toList.take i ++ (source.slice span ++ source.chars.toList.drop j) := by
    have hfront : source.chars.toList.take i = (source.chars.toList.take j).take i := by
      rw [List.take_take, Nat.min_eq_left hij.1]
    rw [hslice, hfront, ← List.append_assoc, List.take_append_drop, List.take_append_drop]
  -- The line begins behind the last line feed in front of the span, and ends at the next one.
  let isInLine : Char → Bool := (· != '\n')
  refine ⟨aboveLastLine (source.chars.toList.take i), lastLine (source.chars.toList.take i),
    (source.chars.toList.drop j).takeWhile isInLine,
    (source.chars.toList.drop j).dropWhile isInLine, ⟨?_, aboveLastLine_ends _, ?_, ?_⟩, ?_⟩
  · conv_lhs => rw [htext]
    rw [List.append_assoc, List.append_assoc, List.takeWhile_append_dropWhile,
      ← List.append_assoc (aboveLastLine _), aboveLastLine_append_lastLine]
  · rw [or_iff_not_imp_left]
    intro hne
    have hhead := List.head_dropWhile_not isInLine hne
    rw [List.head?_eq_some_head hne]
    simpa [isInLine] using hhead
  · have hright : '\n' ∉ (source.chars.toList.drop j).takeWhile isInLine :=
      fun hmem => by simpa [isInLine] using List.mem_takeWhile_imp hmem
    simp only [List.mem_append, not_or]
    exact ⟨⟨lineFeed_notMem_lastLine _, hline⟩, hright⟩
  · have hlength := congrArg List.length
      (aboveLastLine_append_lastLine (source.chars.toList.take i))
    rw [List.length_append, List.length_take_of_le (by rw [Array.length_toList]; omega)] at hlength
    omega

namespace Around

variable (h : source.Around before line after)

include h in
theorem length_le : before.length + line.length ≤ source.chars.size := by
  have := congrArg List.length h.chars_eq
  rw [Array.length_toList, List.length_append, List.length_append] at this
  omega

include h in
/-- An offset in the line lies behind as many line feeds as there are in front of the line. -/
theorem position {k : Nat} (hk : k ≤ line.length) {offset : Int}
    (hoffset : offset = before.length + k) :
    source.position offset = ⟨before.count '\n' + 1, k + 1⟩ := by
  have hle := h.length_le
  have hbefore : source.chars.toList.take before.length = before := by
    rw [h.chars_eq, List.take_left]
  have hstart : IsLineStart source.chars.toList (before.count '\n' + 1) before.length := by
    refine ⟨?_, by rw [hbefore], ?_⟩
    · rw [h.chars_eq, List.length_append]
      exact Nat.le_add_right _ _
    · rw [hbefore, List.length_eq_zero_iff]
      exact h.opens
  have hline : '\n' ∉ (source.chars.toList.drop before.length).take k := by
    rw [h.chars_eq, List.drop_left, List.take_append_of_le_length hk]
    exact fun hmem => h.whole (List.mem_of_mem_take hmem)
  rw [hoffset]
  exact SourceText.position_of_isLineStart hstart (by omega) hline

include h in
/-- Where only line feeds end display lines, the display line with the number of the source line
is the source line. -/
theorem displayLine (honly : OnlyLineFeeds source.chars.toList) (hne : line ≠ []) :
    source.displayLine (before.count '\n' + 1 : Nat) = String.ofList line := by
  rw [h.chars_eq] at honly
  obtain ⟨above, hlength, heq⟩ := exists_displayLines_append [] (line ++ after) honly
    (h.opens.symm.imp_right fun hnil => ⟨hnil, rfl⟩)
  have hfirst : ∃ below, displayLinesFrom [] (line ++ after) = String.ofList line :: below := by
    rw [displayLinesFrom_line [] after honly.right h.whole, List.append_nil]
    rcases h.closes with rfl | hclose
    · exact ⟨[], by simp [displayLinesFrom, hne]⟩
    · obtain ⟨rest, rfl⟩ := List.head?_eq_some_iff.1 hclose
      exact ⟨displayLinesFrom [] rest, by
        rw [displayLinesFrom_cons fun _ => rfl, if_pos rfl, List.reverse_reverse]⟩
  obtain ⟨below, hbelow⟩ := hfirst
  rw [SourceText.displayLine, if_pos (by omega), source.lines_eq, h.chars_eq, displayLines, heq,
    hbelow]
  simp [hlength]

end Around

end SourceText

/-! ### Snippets -/

section Label

variable {source : SourceText} {label : Label} {left right : List Char}

/-- The last character under a label within a line. -/
theorem Label.lastPosition_eq (hne : source.slice label.span ≠ [])
    (haround : source.Around before (left ++ source.slice label.span ++ right) after)
    (hstart : label.span.start = before.length + left.length)
    (hstop : label.span.stop = label.span.start + (source.slice label.span).length) :
    label.lastPosition source =
      ⟨before.count '\n' + 1, left.length + ((source.slice label.span).length - 1) + 1⟩ := by
  have hpos := List.length_pos_iff.2 hne
  refine haround.position (by simp only [List.length_append]; omega) ?_
  rw [Span.lastOffset]
  omega

/-- The snippet of a label within a line: the line, and below it the mark under the label. -/
theorem Label.snippet_eq (severity : Severity) (width : Nat)
    (honly : OnlyLineFeeds source.chars.toList) (hne : source.slice label.span ≠ [])
    (haround : source.Around before (left ++ source.slice label.span ++ right) after)
    (hstart : label.span.start = before.length + left.length)
    (hstop : label.span.stop = label.span.start + (source.slice label.span).length) :
    label.snippet false source severity width =
      [alignRight width (before.count '\n' + 1) ++ " | " ++
          String.ofList (left ++ source.slice label.span ++ right),
        repeatChar ' ' (width + 1) ++ "| " ++ repeatChar ' ' left.length ++
          repeatChar (if label.isPrimary then '^' else '-') (source.slice label.span).length ++
          if label.message.isEmpty then "" else " " ++ label.message] := by
  have hpos := List.length_pos_iff.2 hne
  have hfirst : source.position label.span.start = ⟨before.count '\n' + 1, left.length + 1⟩ :=
    haround.position (by simp only [List.length_append]; omega) hstart
  have hlast := Label.lastPosition_eq hne haround hstart hstop
  have hline := haround.displayLine honly (by simp [hne])
  have hmark : max 1 (left.length + ((source.slice label.span).length - 1) + 1 + 1 -
      (left.length + 1)) = (source.slice label.span).length := by omega
  simp only [snippet, hfirst, hlast, if_pos, numberedLine, hline, underline, hmark, gutterBar,
    Style.paint, Bool.false_eq_true, if_false, String.empty_append, String.append_empty,
    Nat.add_sub_cancel, String.append_assoc]
  simp only [← @String.append_assoc " |", ← @String.append_assoc "|"]
  rfl

end Label

namespace Diagnostic

variable {source : SourceText} {d : Diagnostic} {label : Label}

/-- The snippet of every label is rendered. -/
theorem snippet_infix_renderLines (color : Bool) (h : label ∈ d.labels) :
    label.snippet color source d.severity (gutterWidth source d.labels) <:+:
      d.renderLines color source := by
  have hlines : label.snippet color source d.severity (gutterWidth source d.labels) <:+:
      d.labelLines color source (gutterWidth source d.labels) := by
    have hmem := mem_orderedLabels.2 h
    rw [labelLines]
    cases hlabels : d.orderedLabels with
    | nil => simp [hlabels] at hmem
    | cons first rest =>
      rw [hlabels] at hmem
      obtain ⟨front, back, heq⟩ := List.append_of_mem hmem
      refine .trans ?_ ((List.suffix_cons _ _).trans (List.suffix_cons _ _)).isInfix
      rw [heq, List.flatMap_append, List.flatMap_cons, ← List.append_assoc]
      exact List.infix_append _ _ _
  refine hlines.trans ?_
  simp only [renderLines, List.append_assoc]
  exact (List.prefix_append _ _).isInfix.trans (List.suffix_cons _ _).isInfix

/-- Where only line feeds end display lines, a label within a line is shown with the whole source
line around it, and its mark stands under the characters of its span. -/
theorem renderLines_show (hlabel : label ∈ d.labels)
    (honly : OnlyLineFeeds source.chars.toList) (hstart : 0 ≤ label.span.start)
    (hlt : label.span.start < label.span.stop) (hstop : label.span.stop ≤ source.chars.size)
    (hline : '\n' ∉ source.slice label.span) :
    ∃ (before left right after : List Char) (gutter margin : String),
      source.Around before (left ++ source.slice label.span ++ right) after ∧
        label.span.start = before.length + left.length ∧
        gutter = alignRight (gutterWidth source d.labels) (before.count '\n' + 1) ++ " | " ∧
        gutter.length = margin.length ∧
        [gutter ++ String.ofList (left ++ source.slice label.span ++ right),
          margin ++ repeatChar ' ' left.length ++
            repeatChar (if label.isPrimary then '^' else '-') (source.slice label.span).length ++
            if label.message.isEmpty then "" else " " ++ label.message] <:+:
          d.renderLines false source := by
  obtain ⟨before, left, right, after, haround, hbefore⟩ :=
    SourceText.exists_around hstart (Int.le_of_lt hlt) hstop hline
  have hlength : (source.slice label.span).length =
      label.span.stop.toNat - label.span.start.toNat := by
    rw [SourceText.slice, Array.length_toList, Array.size_extract]
    omega
  have hne : source.slice label.span ≠ [] := by
    rw [← List.length_pos_iff]
    omega
  have hend : label.span.stop = label.span.start + (source.slice label.span).length := by omega
  have hsnippet := Label.snippet_eq d.severity (gutterWidth source d.labels) honly hne haround
    hbefore hend
  have hnumber := length_lastLine_le source hlabel
  rw [Label.lastPosition_eq hne haround hbefore hend] at hnumber
  refine ⟨before, left, right, after, _, repeatChar ' ' (gutterWidth source d.labels + 1) ++ "| ",
    haround, hbefore, rfl, ?_, hsnippet ▸ snippet_infix_renderLines false hlabel⟩
  rw [String.length_append, String.length_append, length_alignRight hnumber, length_repeatChar]
  rfl

/-- A form feed ends a display line and no source line: the line that is shown below one is not the
line of the label. -/
example : (Label.mk ⟨6, 7⟩ "" .primary).snippet false (.ofString "\x0c\nx = )" "") .error 1 =
    ["2 | ", "  |     ^"] := by
  decide

end Diagnostic

end PklSyntax
