import Mathlib.Data.List.Forall2
import PklSyntax.Proofs.Rendering.Gutter

/-!
# Colours

Colours only add control sequences to a rendered diagnostic. A text with sequences in it and the
same text without them go together when deleting the sequences turns the one into the other,
whatever stands behind: then the pieces of a line can be taken one by one, for no sequence is
brought to an end by the piece behind it. This supposes that the texts which are shown have no
escape characters of their own.

## Main definitions

* `NoEscape`: a text without escape characters.
* `Strips`: what a text becomes when the control sequences are deleted.
* `SourceText.Plain`, `Diagnostic.Plain`: nothing that is shown has an escape character.

## Main statements

* `Strips.append`, `Strips.intercalate`: the pieces of a text are stripped one by one.
* `strips_paint`: a control sequence is deleted, and nothing behind it.
* `Diagnostic.stripStyles_render`: with colours deleted, a diagnostic is rendered as without them.
-/

namespace PklSyntax

/-- There is no escape character in the text. -/
def NoEscape (text : String) : Prop := '\x1b' ∉ text.toList

instance (text : String) : Decidable (NoEscape text) :=
  inferInstanceAs (Decidable ('\x1b' ∉ text.toList))

/-- Deleting the control sequences turns the painted text into the plain one, and this whatever
stands behind the two. -/
def Strips (painted plain : String) : Prop :=
  ∀ rest : List Char, stripStyles (painted.toList ++ rest) = plain.toList ++ stripStyles rest

theorem stripStyles_cons {c : Char} (h : c ≠ '\x1b') (rest : List Char) :
    stripStyles (c :: rest) = c :: stripStyles rest := by
  rw [stripStyles]
  rintro rest' rfl -
  exact h rfl

theorem stripStyles_append {front : List Char} (h : '\x1b' ∉ front) (rest : List Char) :
    stripStyles (front ++ rest) = front ++ stripStyles rest := by
  induction front with
  | nil => rfl
  | cons c front ih =>
    rw [List.mem_cons, not_or] at h
    rw [List.cons_append, stripStyles_cons (Ne.symm h.1), ih h.2, List.cons_append]

theorem afterStyle?_append {parameters : List Char} (h : parameters.all isParameterChar = true)
    (rest : List Char) : afterStyle? (parameters ++ 'm' :: rest) = some rest := by
  rw [afterStyle?, List.dropWhile_append_of_pos (List.all_eq_true.mp h)]
  rfl

theorem Style.sequence_eq (style : Style) :
    ∃ parameters : List Char, parameters.all isParameterChar = true ∧
      style.sequence.toList = '\x1b' :: '[' :: (parameters ++ ['m']) := by
  cases style
  case plain => exact ⟨['0'], rfl, rfl⟩
  case bold => exact ⟨['1'], rfl, rfl⟩
  case red => exact ⟨['1', ';', '3', '1'], rfl, rfl⟩
  case yellow => exact ⟨['1', ';', '3', '3'], rfl, rfl⟩
  case cyan => exact ⟨['1', ';', '3', '6'], rfl, rfl⟩
  case blue => exact ⟨['1', ';', '3', '4'], rfl, rfl⟩

/-- A control sequence is deleted, and nothing behind it. -/
theorem strips_paint (style : Style) : Strips (style.paint true) (style.paint false) := by
  intro rest
  obtain ⟨parameters, hparameters, heq⟩ := style.sequence_eq
  have hafter := afterStyle?_append hparameters rest
  change stripStyles (style.sequence.toList ++ rest) = stripStyles rest
  rw [heq, List.cons_append, List.cons_append, List.append_assoc, List.singleton_append,
    stripStyles]
  split
  · rename_i tail htail
    exact congrArg stripStyles (Option.some.inj (htail.symm.trans hafter))
  · rename_i hnone
    rw [hafter] at hnone
    cases hnone

namespace Strips

variable {painted plain painted' plain' word : String}

theorem of_plain (h : NoEscape word) : Strips word word := stripStyles_append h

theorem append (h : Strips painted plain) (h' : Strips painted' plain') :
    Strips (painted ++ painted') (plain ++ plain') := by
  intro rest
  rw [String.toList_append, String.toList_append, List.append_assoc, h, h', List.append_assoc]

theorem text (h : Strips painted plain) (hword : NoEscape word) :
    Strips (painted ++ word) (plain ++ word) :=
  h.append (of_plain hword)

theorem paint (h : Strips painted plain) (style : Style) :
    Strips (painted ++ style.paint true) (plain ++ style.paint false) :=
  h.append (strips_paint style)

theorem stripStyles_eq (h : Strips painted plain) : stripStyles painted.toList = plain.toList := by
  have := h []
  rwa [List.append_nil, stripStyles, List.append_nil] at this

theorem intercalate {lines lines' : List String} (h : List.Forall₂ Strips lines lines') :
    Strips ("\n".intercalate lines) ("\n".intercalate lines') := by
  induction h with
  | nil => exact of_plain (by decide)
  | @cons line line' lines lines' hline hlines ih =>
    cases hlines with
    | nil => simpa using hline
    | cons hnext hrest =>
      rw [String.intercalate_cons_cons, String.intercalate_cons_cons]
      exact (hline.text (by decide)).append ih

end Strips

/-! ### Texts without escape characters -/

theorem noEscape_repeatChar {c : Char} (h : c ≠ '\x1b') (n : Nat) : NoEscape (repeatChar c n) := by
  intro hmem
  rw [repeatChar, String.toList_ofList] at hmem
  exact h (List.eq_of_mem_replicate hmem).symm

theorem noEscape_spaces (n : Nat) : NoEscape (repeatChar ' ' n) :=
  noEscape_repeatChar (by decide) n

theorem noEscape_toString (n : Nat) : NoEscape (toString n) := by
  intro hmem
  rw [Nat.toString_eq_repr, Nat.repr_eq_ofList_toDigits, String.toList_ofList] at hmem
  exact absurd (Nat.isDigit_of_mem_toDigits (by decide) (by decide) hmem) (by decide)

theorem NoEscape.append {a b : String} (ha : NoEscape a) (hb : NoEscape b) : NoEscape (a ++ b) := by
  rw [NoEscape, String.toList_append, List.mem_append, not_or]
  exact ⟨ha, hb⟩

theorem noEscape_alignRight (width n : Nat) : NoEscape (alignRight width n) :=
  (noEscape_spaces _).append (noEscape_toString n)

/-- The characters of the display lines are those of the text. -/
theorem mem_of_mem_displayLinesFrom {front chars : List Char} {line : String} {c : Char}
    (hline : line ∈ displayLinesFrom front chars) (hc : c ∈ line.toList) :
    c ∈ front ∨ c ∈ chars := by
  have hfront {l : List Char} (h : c ∈ (String.ofList l.reverse).toList) : c ∈ l := by
    rwa [String.toList_ofList, List.mem_reverse] at h
  fun_induction displayLinesFrom front chars with
  | case1 => cases hline
  | case2 front hne =>
    rw [List.mem_singleton.1 hline] at hc
    exact .inl (hfront hc)
  | case3 front rest ih =>
    rcases List.mem_cons.1 hline with rfl | hline
    · exact .inl (hfront hc)
    · have hrest := (ih hline).resolve_left (by simp)
      exact .inr (List.mem_cons_of_mem _ (List.mem_cons_of_mem _ hrest))
  | case4 front d rest hreturn hbreak ih =>
    rcases List.mem_cons.1 hline with rfl | hline
    · exact .inl (hfront hc)
    · exact .inr (List.mem_cons_of_mem _ ((ih hline).resolve_left (by simp)))
  | case5 front d rest hreturn hbreak ih =>
    rcases ih hline with hmem | hmem
    · rcases List.mem_cons.1 hmem with rfl | hmem
      · exact .inr List.mem_cons_self
      · exact .inl hmem
    · exact .inr (List.mem_cons_of_mem _ hmem)

/-- The text and its name have no escape characters. -/
structure SourceText.Plain (source : SourceText) : Prop where
  chars : '\x1b' ∉ source.chars.toList
  filename : NoEscape source.filename

theorem SourceText.Plain.displayLine {source : SourceText} (h : source.Plain) (n : Int) :
    NoEscape (source.displayLine n) := by
  intro hmem
  rw [SourceText.displayLine] at hmem
  split at hmem
  · rw [source.lines_eq, Array.getD_eq_getD_getElem?, List.getElem?_toArray] at hmem
    cases hline : (displayLines source.chars.toList)[n.toNat - 1]? with
    | none =>
      rw [hline] at hmem
      exact absurd hmem (by decide)
    | some line =>
      rw [hline] at hmem
      have := mem_of_mem_displayLinesFrom (List.mem_of_getElem? hline) hmem
      exact h.chars (this.resolve_left (by simp))
  · exact absurd hmem (by decide)

/-- Nothing that is shown of the diagnostic has an escape character. -/
structure Diagnostic.Plain (d : Diagnostic) : Prop where
  code : NoEscape d.code
  message : NoEscape d.message
  labels : ∀ label ∈ d.labels, NoEscape label.message
  notes : ∀ note ∈ d.notes, NoEscape note
  suggestions : ∀ suggestion ∈ d.suggestions, NoEscape suggestion.replacement

/-! ### Lines -/

variable {source : SourceText} {d : Diagnostic} {label : Label} {severity : Severity} {width : Nat}

theorem strips_gutterBar (width : Nat) : Strips (gutterBar true width) (gutterBar false width) :=
  Strips.of_plain (noEscape_spaces _)
    |>.paint .blue |>.text (by decide) |>.paint .plain

theorem strips_numberedLine (hsource : source.Plain) (line : Nat) :
    Strips (numberedLine true source width line) (numberedLine false source width line) :=
  strips_paint .blue |>.text (noEscape_alignRight width line) |>.text (by decide)
    |>.paint .plain |>.text (by decide) |>.text (hsource.displayLine line)

theorem Label.strips_snippet (hsource : source.Plain) (hmessage : NoEscape label.message) :
    List.Forall₂ Strips (label.snippet true source severity width)
      (label.snippet false source severity width) := by
  have hbar : Strips (gutterBar true width ++ " ") (gutterBar false width ++ " ") :=
    (strips_gutterBar width).text (by decide)
  have hunderline (first last : Nat) : NoEscape (label.underline first last) :=
    noEscape_repeatChar (by split <;> decide) _
  simp only [snippet]
  split
  · have htext : NoEscape (if label.message.isEmpty then "" else " " ++ label.message) := by
      split
      · decide
      · exact .append (by decide) hmessage
    refine .cons (strips_numberedLine hsource _) (.cons ?_ .nil)
    exact hbar |>.text (noEscape_spaces _) |>.paint _ |>.text (hunderline _ _)
      |>.text htext |>.paint .plain
  · refine .cons (strips_numberedLine hsource _) (.cons (strips_numberedLine hsource _) ?_)
    split
    · exact .nil
    · exact .cons (hbar |>.paint _ |>.text hmessage |>.paint .plain) .nil

namespace Diagnostic

theorem strips_headline (hd : d.Plain) : Strips (d.headline true) (d.headline false) := by
  have hname : NoEscape d.severity.name := by
    cases d.severity <;> decide
  exact strips_paint d.severity.style |>.text hname |>.text (by decide) |>.text hd.code
    |>.text (by decide) |>.paint .plain |>.paint .bold |>.text (by decide) |>.text hd.message
    |>.paint .plain

theorem strips_locator (hsource : source.Plain) :
    Strips (locator true source width label) (locator false source width label) :=
  Strips.of_plain (noEscape_spaces width) |>.paint .blue |>.text (by decide)
    |>.paint .plain |>.text (by decide) |>.text hsource.filename |>.text (by decide)
    |>.text (noEscape_toString _) |>.text (by decide) |>.text (noEscape_toString _)

theorem strips_footnote {kind text : String} (hkind : NoEscape kind) (htext : NoEscape text) :
    Strips (footnote true width kind text) (footnote false width kind text) :=
  Strips.of_plain (noEscape_spaces _) |>.paint .blue |>.text (by decide)
    |>.paint .plain |>.text (by decide) |>.text hkind |>.text (by decide) |>.text htext

theorem strips_labelLines (hsource : source.Plain) (hd : d.Plain) :
    List.Forall₂ Strips (d.labelLines true source width) (d.labelLines false source width) := by
  have hsnippets {labels : List Label} (h : ∀ label ∈ labels, label ∈ d.labels) :
      List.Forall₂ Strips (labels.flatMap (Label.snippet true source d.severity width))
        (labels.flatMap (Label.snippet false source d.severity width)) := by
    induction labels with
    | nil => exact .nil
    | cons label labels ih =>
      rw [List.forall_mem_cons] at h
      exact List.rel_append (Label.strips_snippet hsource (hd.labels label h.1)) (ih h.2)
  have hlabels : ∀ label ∈ d.orderedLabels, label ∈ d.labels := fun _ => mem_orderedLabels.1
  rw [labelLines, labelLines]
  cases hordered : d.orderedLabels with
  | nil => exact .nil
  | cons label rest =>
    rw [hordered] at hlabels
    exact .cons (strips_locator hsource) (.cons (strips_gutterBar width) (hsnippets hlabels))

theorem strips_renderLines (hsource : source.Plain) (hd : d.Plain) :
    List.Forall₂ Strips (d.renderLines true source) (d.renderLines false source) := by
  have hnotes {width : Nat} : List.Forall₂ Strips (d.notes.map (footnote true width "note"))
      (d.notes.map (footnote false width "note")) := by
    rw [List.forall₂_map_left_iff, List.forall₂_map_right_iff, List.forall₂_same]
    exact fun note hnote => strips_footnote (by decide) (hd.notes note hnote)
  have hsuggestions {width : Nat} : List.Forall₂ Strips
      (d.suggestions.map fun suggestion => footnote true width "try" suggestion.replacement)
      (d.suggestions.map fun suggestion => footnote false width "try" suggestion.replacement) := by
    rw [List.forall₂_map_left_iff, List.forall₂_map_right_iff, List.forall₂_same]
    exact fun suggestion hmem => strips_footnote (by decide) (hd.suggestions suggestion hmem)
  exact .cons (strips_headline hd)
    (List.rel_append (List.rel_append (strips_labelLines hsource hd) hnotes) hsuggestions)

/-- When nothing that is shown has an escape character, deleting the control sequences from a
diagnostic that is rendered with colours gives the diagnostic rendered without. -/
theorem stripStyles_render (hsource : source.Plain) (hd : d.Plain) :
    stripStyles (d.render true source).toList = (d.render false source).toList :=
  (Strips.intercalate (strips_renderLines hsource hd)).stripStyles_eq

/-- A text and a message in which letters follow what looks like the rest of a sequence. -/
theorem stripStyles_render_brackets :
    let source := SourceText.ofString "[0m = [1\n;31m" "[m"
    let d : Diagnostic := ⟨.error, "E1", "[31m",
      [⟨⟨0, 3⟩, "[0m", .primary⟩, ⟨⟨4, 99⟩, "m", .secondary⟩], [⟨"", "[m"⟩], ["0m"], none⟩
    source.Plain ∧ d.Plain ∧
      stripStyles (d.render true source).toList = (d.render false source).toList := by
  intro source d
  have hsource : source.Plain := ⟨by decide, by decide⟩
  have hd : d.Plain := ⟨by decide, by decide, by decide, by decide, by decide⟩
  exact ⟨hsource, hd, stripStyles_render hsource hd⟩

end Diagnostic

end PklSyntax
