import PklSyntax.Diagnostic.Render
import PklSyntax.Proofs.Source.Position

/-!
# The gutter

The line numbers of a rendered diagnostic stand right-aligned in a field that is as wide as the
number of the last line that a label reaches. A label does not end on a line above the one on which
it begins, wherever its span lies, so every number fits in the field. Hence the bars of the snippets
and the marks of the notes stand below one another, in the same column of every line but the
headline and the locator.

## Main definitions

* `Diagnostic.shownLines`, `Diagnostic.noteLines`: the lines with a bar, and those with another
  mark.

## Main statements

* `Diagnostic.length_firstLine_le`, `Diagnostic.length_lastLine_le`: line numbers fit in the gutter.
* `Label.bar_of_mem_snippet`: where the bar stands in the lines that show a label.
* `Diagnostic.head?_orderedLabels`: the label that is shown first is the one that places the
  diagnostic.
* `Diagnostic.renderLines_gutter`: all of this for the rendered lines.
-/

namespace PklSyntax

/-! ### Numbers -/

theorem length_toString_mono {m n : Nat} (h : m ≤ n) :
    (toString m).length ≤ (toString n).length :=
  (Nat.length_repr_le_iff Nat.length_repr_pos).2
    (Nat.lt_of_le_of_lt h ((Nat.length_repr_le_iff Nat.length_repr_pos).1 (Nat.le_refl _)))

theorem length_repeatChar (c : Char) (n : Nat) : (repeatChar c n).length = n := by
  rw [repeatChar, String.length_ofList, List.length_replicate]

theorem length_alignRight {width n : Nat} (h : (toString n).length ≤ width) :
    (alignRight width n).length = width := by
  simp only [alignRight, String.length_append, length_repeatChar]
  omega

/-- The character at a place behind the front of a text. -/
theorem getElem?_append_of_length {front mark : String} {n k : Nat} {c : Char}
    (hlength : front.length = n) (hmark : mark.toList[k]? = some c) :
    (front ++ mark).toList[n + k]? = some c := by
  rw [String.toList_append, ← hlength, ← String.length_toList,
    List.getElem?_append_right (Nat.le_add_right _ _), Nat.add_sub_cancel_left, hmark]

/-- What stands behind a character does not matter for its place. -/
theorem getElem?_append_of_front {front : String} {n : Nat} {c : Char}
    (h : front.toList[n]? = some c) (rest : String) : (front ++ rest).toList[n]? = some c := by
  obtain ⟨hlt, -⟩ := List.getElem?_eq_some_iff.1 h
  rw [String.toList_append, List.getElem?_append_left hlt, h]

theorem SourceText.line_mono {source : SourceText} {offset offset' : Int}
    (h : offset ≤ offset') : (source.position offset).line ≤ (source.position offset').line := by
  have hclamp : source.clamp offset ≤ source.clamp offset' := by
    rw [clamp, clamp]
    omega
  rw [position_eq, position_eq]
  exact Nat.succ_le_succ ((List.take_sublist_take_left hclamp).count_le _)

/-! ### Lines with a mark behind the gutter -/

theorem gutterBar_bar (width : Nat) : (gutterBar false width).toList[width + 1]? = some '|' := by
  refine getElem?_append_of_front (getElem?_append_of_length (n := width + 1) (k := 0) ?_ rfl) _
  rw [String.length_append, length_repeatChar]
  rfl

theorem numberedLine_bar (source : SourceText) {width line : Nat}
    (h : (toString line).length ≤ width) :
    (numberedLine false source width line).toList[width + 1]? = some '|' := by
  have hbar : (Style.blue.paint false ++ alignRight width line ++ " |").toList[width + 1]? =
      some '|' := by
    refine getElem?_append_of_length (n := width) (k := 1) ?_ rfl
    rw [String.length_append, length_alignRight h]
    exact Nat.zero_add width
  simpa only [numberedLine, String.append_assoc] using
    getElem?_append_of_front hbar (Style.plain.paint false ++ " " ++ source.displayLine line)

namespace Label

variable {source : SourceText} {label : Label} {severity : Severity} {width : Nat}

theorem firstLine_le_lastLine (source : SourceText) (label : Label) :
    (source.position label.span.start).line ≤ (label.lastPosition source).line :=
  SourceText.line_mono (Int.le_max_left _ _)

/-- Where the bar stands in the lines that show a label, when the numbers fit in the gutter. -/
theorem bar_of_mem_snippet (h : (toString (label.lastPosition source).line).length ≤ width)
    {line : String} (hline : line ∈ label.snippet false source severity width) :
    line.toList[width + 1]? = some '|' := by
  have hopening := numberedLine_bar source
    (Nat.le_trans (length_toString_mono (firstLine_le_lastLine source label)) h)
  have hbar (rest : String) : (gutterBar false width ++ rest).toList[width + 1]? = some '|' :=
    getElem?_append_of_front (gutterBar_bar width) rest
  simp only [snippet] at hline
  split at hline
  · -- The line and the mark below it.
    rcases List.mem_pair.1 hline with rfl | rfl
    · exact hopening
    · simp only [String.append_assoc]
      exact hbar _
  · -- The first line and the last one, and the message if there is one.
    rcases List.mem_cons.1 hline with rfl | hline
    · exact hopening
    · rcases List.mem_cons.1 hline with rfl | hline
      · exact numberedLine_bar source h
      · split at hline
        · cases hline
        · rw [List.mem_singleton.1 hline]
          simp only [String.append_assoc]
          exact hbar _

end Label

namespace Diagnostic

variable {source : SourceText} {d : Diagnostic} {label : Label}

theorem footnote_mark (width : Nat) (kind text : String) :
    (footnote false width kind text).toList[width + 1]? = some '=' := by
  have hmark : (repeatChar ' ' (width + 1) ++ Style.blue.paint false ++ "=").toList[width + 1]? =
      some '=' := by
    refine getElem?_append_of_length (n := width + 1) (k := 0) ?_ rfl
    rw [String.length_append, length_repeatChar]
    rfl
  simpa only [footnote, String.append_assoc] using
    getElem?_append_of_front hmark (Style.plain.paint false ++ " " ++ kind ++ ": " ++ text)

theorem mem_orderedLabels : label ∈ d.orderedLabels ↔ label ∈ d.labels := by
  rw [orderedLabels, List.mem_append, List.mem_filter, List.mem_filter]
  cases label.isPrimary <;> simp

theorem le_foldl_max {n a : Nat} {l : List Nat} (h : n ≤ a ∨ n ∈ l) : n ≤ l.foldl max a := by
  induction l generalizing a with
  | nil => simpa using h
  | cons b l ih =>
    refine ih ?_
    rcases h with h | h
    · exact .inl (Nat.le_trans h (Nat.le_max_left _ _))
    · rcases List.mem_cons.1 h with rfl | h
      · exact .inl (Nat.le_max_right _ _)
      · exact .inr h

/-- The number of the line in which a label ends fits in the gutter. -/
theorem length_lastLine_le (source : SourceText) (h : label ∈ d.labels) :
    (toString (label.lastPosition source).line).length ≤ gutterWidth source d.labels := by
  have hle : (label.lastPosition source).line ≤
      (d.labels.map fun label => (label.lastPosition source).line).foldl max 0 :=
    le_foldl_max (.inr (List.mem_map.2 ⟨label, h, rfl⟩))
  rw [gutterWidth, List.isEmpty_eq_false_iff.2 (List.ne_nil_of_mem h)]
  exact length_toString_mono hle

/-- So does the number of the line in which it begins. -/
theorem length_firstLine_le (source : SourceText) (h : label ∈ d.labels) :
    (toString (source.position label.span.start).line).length ≤ gutterWidth source d.labels :=
  Nat.le_trans (length_toString_mono (Label.firstLine_le_lastLine source label))
    (length_lastLine_le source h)

/-- The label that is shown first is the one that places the diagnostic, if there is such. -/
theorem head?_orderedLabels {span : Span} (h : d.span? = some span) :
    ∃ label rest, d.orderedLabels = label :: rest ∧ label.span = span := by
  obtain ⟨label, hfind, hspan⟩ := Option.map_eq_some_iff.1 h
  rw [← List.head?_filter] at hfind
  obtain ⟨rest, hrest⟩ := List.head?_eq_some_iff.1 hfind
  exact ⟨label, rest ++ d.labels.filter (! Label.isPrimary ·), by rw [orderedLabels, hrest]; rfl,
    hspan⟩

/-! ### Rendered lines -/

/-- The lines behind the locator that separate it from the snippets and show the labels. -/
def shownLines (source : SourceText) (d : Diagnostic) : List String :=
  if d.labels.isEmpty then []
  else gutterBar false (gutterWidth source d.labels) ::
    d.orderedLabels.flatMap (Label.snippet false source d.severity (gutterWidth source d.labels))

/-- The lines with the notes and suggestions. -/
def noteLines (source : SourceText) (d : Diagnostic) : List String :=
  d.notes.map (footnote false (gutterWidth source d.labels) "note") ++
    d.suggestions.map fun suggestion =>
      footnote false (gutterWidth source d.labels) "try" suggestion.replacement

/-- Every line number fits in the gutter, and all lines but the headline and the locator have their
bar, or the mark of a note, in the column behind it, wherever the spans of the labels lie. The
locator names the position at which the diagnostic is placed. -/
theorem renderLines_gutter (source : SourceText) (d : Diagnostic) :
    let width := gutterWidth source d.labels
    (∀ label ∈ d.labels,
      (toString (source.position label.span.start).line).length ≤ width ∧
        (toString (label.lastPosition source).line).length ≤ width) ∧
    ∃ located : List String,
      d.renderLines false source =
        d.headline false :: (located ++ d.shownLines source ++ d.noteLines source) ∧
      (located.length = if d.labels.isEmpty then 0 else 1) ∧
      (∀ line ∈ d.shownLines source, line.toList[width + 1]? = some '|') ∧
      (∀ line ∈ d.noteLines source, line.toList[width + 1]? = some '=') ∧
      ∀ span, d.span? = some span →
        located = [repeatChar ' ' width ++ "--> " ++ source.filename ++ ":" ++
          toString (source.position span.start).line ++ ":" ++
          toString (source.position span.start).column] := by
  intro width
  have hshown : ∀ line ∈ d.shownLines source, line.toList[width + 1]? = some '|' := by
    intro line hline
    rw [shownLines] at hline
    split at hline
    · cases hline
    · rcases List.mem_cons.1 hline with rfl | hline
      · exact gutterBar_bar width
      · obtain ⟨label, hlabel, hmem⟩ := List.mem_flatMap.1 hline
        exact Label.bar_of_mem_snippet (length_lastLine_le source (mem_orderedLabels.1 hlabel)) hmem
  have hnotes : ∀ line ∈ d.noteLines source, line.toList[width + 1]? = some '=' := by
    intro line hline
    rcases List.mem_append.1 hline with hline | hline
    · obtain ⟨note, -, rfl⟩ := List.mem_map.1 hline
      exact footnote_mark width "note" note
    · obtain ⟨suggestion, -, rfl⟩ := List.mem_map.1 hline
      exact footnote_mark width "try" suggestion.replacement
  refine ⟨fun label hlabel =>
    ⟨length_firstLine_le source hlabel, length_lastLine_le source hlabel⟩, ?_⟩
  cases hordered : d.orderedLabels with
  | nil =>
    have hlabels : d.labels = [] := List.eq_nil_iff_forall_not_mem.2 fun label hlabel => by
      simpa [hordered] using mem_orderedLabels.2 hlabel
    refine ⟨[], ?_, by simp [hlabels], hshown, hnotes, fun span hspan => ?_⟩
    · simp [renderLines, labelLines, shownLines, noteLines, hordered, hlabels]
    · simp [span?, hlabels] at hspan
  | cons label rest =>
    have hlabels : d.labels.isEmpty = false := List.isEmpty_eq_false_iff.2
      (List.ne_nil_of_mem (mem_orderedLabels.1 (hordered ▸ List.mem_cons_self)))
    refine ⟨[locator false source width label], ?_, by simp [hlabels], hshown, hnotes,
      fun span hspan => ?_⟩
    · simp [renderLines, labelLines, shownLines, noteLines, hordered, hlabels, width]
    · obtain ⟨first, others, heq, rfl⟩ := head?_orderedLabels hspan
      obtain ⟨rfl, -⟩ := List.cons.inj (hordered.symm.trans heq)
      simp [locator, Style.paint, String.append_assoc]

/-- A label from the second line to beyond the tenth, and a note. -/
example : (Diagnostic.mk .error "E1" "m" [⟨⟨1, 99⟩, "", .primary⟩] [] ["n"] none).renderLines false
      (.ofString "\nb\n\n\n\n\n\n\n\nj" "f") =
    ["error[E1]: m", "  --> f:2:1", "   |", " 2 | b", "10 | j", "   = note: n"] := by
  decide +kernel

end Diagnostic

end PklSyntax
