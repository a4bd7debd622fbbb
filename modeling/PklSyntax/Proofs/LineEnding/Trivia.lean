import PklSyntax.Proofs.LineEnding.Text

/-!
# Other line endings: trivia and states

Trivia end at line feeds in two ways. A run of blanks takes the whole line ending in, and so it ends
at the new place of the offset at which it ended before. A comment to the end of the line takes in
the carriage return but not the line feed; the blanks behind it then begin at the line feed, and end
where they ended before. So the trivia in the two texts are the same item by item.

A line of documentation is read without carriage returns at its end, so that the texts of doc
comments are the same.

## Main definitions

* `Trivia.placed`: an item of trivia in the text with other line endings.
* `LineFeeds.moved`: the state of a parse there.

## Main statements

* `LineFeeds.triviaAt?_place`, `LineFeeds.triviaFrom_place`: the trivia at a place.
* `LineFeeds.skipTrivia_moved`, `LineFeeds.takeDoc_moved`, `LineFeeds.rewind_moved`.
-/

namespace PklSyntax

/-- The item in the text with other line endings. -/
def Trivia.placed (W : LineFeeds) : Trivia → Trivia
  | blanks stop => blanks (W.place stop)
  | lineComment stop => lineComment (W.lineStop stop)
  | docBlock doc stop => docBlock (doc.placed W.placement) (W.lineStop stop)
  | blockComment stop => blockComment (W.place stop)
  | unclosedComment start stop => unclosedComment (W.place start) (W.place stop)

namespace LineFeeds

variable {W : LineFeeds} {i j : Nat}

/-! ### Items of trivia -/

/-- The carriage return at the end of a line of documentation is left out. -/
theorem docLine_return (chars : List Char) : docLine (chars ++ ['\r']) = docLine chars := by
  simp [docLine]

/-- A line of documentation is the same, up to the end of its line. -/
theorem docLine_place (hij : i ≤ j) (hline : W.OnLine i j) :
    docLine (W.crlf.extract (W.place i) (W.lineStop j)).toList =
      docLine (W.text.extract i j).toList := by
  have hplace : (W.crlf.extract (W.place i) (W.place j)).toList = (W.text.extract i j).toList := by
    rw [toList_extract_place, withReturns_eq_self (not_mem_extract hline)]
  by_cases hbreak : charAt W.text j = '\n'
  · have hj : j < W.text.size := lt_size_of_charAt_ne (by rw [hbreak]; decide)
    have hle : W.place i < W.place j + 1 := Nat.lt_succ_of_le (place_le_place.2 hij)
    rw [lineStop_of_lineFeed hbreak, Array.extract_succ_right hle (place_lt_size.2 hj),
      Array.toList_push, hplace, ← charAt_of_lt (place_lt_size.2 hj), charAt_place, hbreak,
      lineEnd_lineFeed, docLine_return]
  · rw [lineStop_of_ne hbreak, hplace]

/-- The block of documentation at a place. -/
theorem docBlockFrom_place (h : matchesAt W.text "///" i = true) :
    docBlockFrom W.crlf (W.place i) =
      ((docBlockFrom W.text i).1, W.lineStop (docBlockFrom W.text i).2) := by
  have hline (i : Nat) (h : matchesAt W.text "///" i = true) :
      docLine (W.crlf.extract (W.place i + 3) (W.lineStop (skipWhile W.text isInLine i))).toList =
        docLine (W.text.extract (i + 3) (skipWhile W.text isInLine i)).toList := by
    have hmark : W.place (i + 3) = W.place i + 3 :=
      place_add_of_matchesAt (by decide) h (Nat.le_refl 3)
    have hle : i + 3 ≤ skipWhile W.text isInLine i := add_length_le_skipWhile h (by decide)
    rw [← hmark, docLine_place hle ((onLine_run rfl i).mono (Nat.le_add_right i 3))]
  have hnext {stop : Nat} (hbreak : charAt W.text stop = '\n') :
      skipWhile W.crlf isIndent (W.lineStop stop + 1) =
        W.place (skipWhile W.text isIndent (stop + 1)) := by
    rw [lineStop_of_lineFeed hbreak, Nat.add_assoc, ← place_succ_of_lineFeed hbreak,
      skipWhile_place rfl]
  fun_induction docBlockFrom W.text i with
  | case1 i stop line next hcond lines last hlast ih =>
    rw [Bool.and_eq_true, decide_eq_true_eq] at hcond
    obtain ⟨hstop, hdoc⟩ := hcond
    have hbreak : charAt W.text stop = '\n' := by
      simpa [isInLine] using (skipWhile_spec isInLine).2 hstop
    rw [docBlockFrom, skipWhile_place_line rfl rfl, hline i h, hnext hbreak, ih hdoc, hlast, if_pos]
    rw [Bool.and_eq_true, decide_eq_true_eq, matchesAt_place (by decide)]
    exact ⟨lineStop_lt_size.2 hstop, hdoc⟩
  | case2 i stop line next hcond =>
    rw [docBlockFrom, skipWhile_place_line rfl rfl, hline i h, if_neg]
    intro hcond'
    rw [Bool.and_eq_true, decide_eq_true_eq, lineStop_lt_size] at hcond'
    have hbreak : charAt W.text stop = '\n' := by
      simpa [isInLine] using (skipWhile_spec isInLine).2 hcond'.1
    rw [hnext hbreak, matchesAt_place (by decide)] at hcond'
    exact hcond (by rw [Bool.and_eq_true, decide_eq_true_eq]; exact hcond')

/-- The item of trivia at a place. -/
theorem triviaAt?_place (i : Nat) :
    triviaAt? W.crlf (W.place i) = (triviaAt? W.text i).map (Trivia.placed W) := by
  have hmark (h : matchesAt W.text "/*" i = true) (n : Nat) (hn : n ≤ 2) :
      W.place (i + n) = W.place i + n := place_add_of_matchesAt (by decide) h hn
  have hword (word : String) (hword : InLine word) :=
    @matchesAt_place W word hword i
  rw [triviaAt?, triviaAt?, charAt_place, lineEnd_class (p := isTriviaBlank) rfl, hword "///" (by decide),
    hword "//" (by decide), hword "/*" (by decide)]
  simp only [place_lt_size]
  split
  · split
    · rw [skipWhile_place (by decide)]
      rfl
    split
    next hdoc =>
      rw [docBlockFrom_place hdoc]
      simp only [Option.map_some, Trivia.placed, DocComment.placed, Span.ofNat, offset_natCast,
        docStop_natCast]
    split
    · rw [skipWhile_place_line rfl rfl]
      rfl
    split
    next hopen =>
      rw [← hmark hopen 2 (Nat.le_refl 2), findFrom?_place (by decide)]
      cases hclose : findFrom? W.text "*/" (i + 2) with
      | none => simp [Trivia.placed, place_size]
      | some close =>
        have hmatch := (findFrom?_eq_some hclose).2.1
        have hstop : W.place (close + 2) = W.place close + 2 :=
          place_add_of_matchesAt (by decide) hmatch (Nat.le_refl 2)
        simp [Trivia.placed, hstop]
    · rfl
  · rfl

/-- Behind a carriage return the blanks go on to the same place. -/
theorem triviaAt?_lineStop (i : Nat) :
    triviaAt? W.crlf (W.lineStop i) = triviaAt? W.crlf (W.place i) := by
  by_cases hbreak : charAt W.text i = '\n'
  · have hi : i < W.text.size := lt_size_of_charAt_ne (by rw [hbreak]; decide)
    have hlt := place_lt_size.2 hi
    have hlt' := lineStop_lt_size.2 hi
    have hreturn : charAt W.crlf (W.place i) = '\r' := by rw [charAt_place, hbreak, lineEnd_lineFeed]
    rw [lineStop_of_lineFeed hbreak] at hlt' ⊢
    rw [triviaAt?, triviaAt?, if_pos hlt', if_pos hlt, charAt_place_add_one hbreak, hreturn,
      if_pos (by decide), if_pos (by decide), skipWhile.eq_def W.crlf isTriviaBlank (W.place i),
      dif_pos hlt, if_pos]
    rw [← charAt_of_lt hlt, hreturn]
    decide
  · rw [lineStop_of_ne hbreak]

theorem stop_placed (item : Trivia) :
    (item.placed W).stop = W.place item.stop ∨ (item.placed W).stop = W.lineStop item.stop := by
  cases item with
  | lineComment | docBlock => exact .inr rfl
  | blanks | blockComment | unclosedComment => exact .inl rfl

/-- The trivia from a place on, or from the line feed on that stands there. -/
theorem triviaFrom_place (hj : j = W.place i ∨ j = W.lineStop i) :
    triviaFrom W.crlf j =
      ((triviaFrom W.text i).1.map (Trivia.placed W), W.place (triviaFrom W.text i).2) := by
  induction i using trivia_induction W.text generalizing j with
  | stop i h =>
    have hbreak : charAt W.text i ≠ '\n' := by
      intro hbreak
      have hi : i < W.text.size := lt_size_of_charAt_ne (by rw [hbreak]; decide)
      rw [triviaAt?, if_pos hi, hbreak, if_pos (by decide)] at h
      cases h
    obtain rfl : j = W.place i := hj.elim id fun h => h.trans (lineStop_of_ne hbreak)
    rw [triviaFrom_of_none h, triviaFrom_of_none (by rw [triviaAt?_place, h]; rfl)]
    rfl
  | item i item h ih =>
    have hat : triviaAt? W.crlf j = some (item.placed W) := by
      rcases hj with rfl | rfl
      · rw [triviaAt?_place, h]
        rfl
      · rw [triviaAt?_lineStop, triviaAt?_place, h]
        rfl
    rw [triviaFrom_of_some h, triviaFrom_of_some hat, ih (stop_placed item)]
    rfl

/-! ### States -/

variable (W) in
/-- The state of a parse in the text with other line endings. -/
def moved (s : State) : State where
  pos := W.place s.pos
  mode := s.mode
  diagnostics := s.diagnostics.map (Diagnostic.placed W.placement)
  docs := s.docs.map (DocComment.placed W.placement)
  attached := s.attached
  runStart := s.runStart
  triviaEnd := s.triviaEnd.map W.place

@[simp] theorem pos_moved (s : State) : (W.moved s).pos = W.place s.pos := rfl

theorem docs_placed (items : List Trivia) :
    (items.map (Trivia.placed W)).filterMap Trivia.doc? =
      (items.filterMap Trivia.doc?).map (DocComment.placed W.placement) := by
  rw [List.filterMap_map, List.map_filterMap]
  refine List.filterMap_congr fun item _ => ?_
  cases item <;> rfl

theorem called_placed (i : Nat) :
    ((triviaFrom W.text i).1.map (Trivia.placed W)).filterMap Trivia.diagnostic? =
      ((triviaFrom W.text i).1.filterMap Trivia.diagnostic?).map (Diagnostic.placed W.placement) := by
  induction i using trivia_induction W.text with
  | stop i h =>
    rw [triviaFrom_of_none h]
    rfl
  | item i item h ih =>
    have hitem : (item.placed W).diagnostic? =
        item.diagnostic?.map (Diagnostic.placed W.placement) := by
      cases item with
      | unclosedComment start stop =>
        obtain ⟨rfl, -, hopen⟩ := triviaAt?_unclosedComment h
        have hmark : W.place (start + 2) = W.place start + 2 :=
          place_add_of_matchesAt (by decide) hopen (Nat.le_refl 2)
        show some (Problem.unterminatedComment.diagnostic (.ofNat (W.place start) (W.place start + 2))) =
          some (Problem.unterminatedComment.diagnostic
            (W.placement.span (.ofNat start (start + 2))))
        rw [span_ofNat, hmark]
      | _ => rfl
    rw [triviaFrom_of_some h, List.map_cons, List.filterMap_cons, List.filterMap_cons, hitem, ih]
    cases item.diagnostic? <;> rfl

/-- Whether the cursor is where trivia ended is the same. -/
theorem triviaEnd_moved (s : State) :
    (W.moved s).triviaEnd = some (W.moved s).pos ↔ s.triviaEnd = some s.pos := by
  show s.triviaEnd.map W.place = some (W.place s.pos) ↔ _
  cases s.triviaEnd <;> simp

theorem map_appendList {α β : Type} (f : α → β) (as : Array α) (bs : List α) :
    (as ++ bs).map f = as.map f ++ bs.map f := by
  apply Array.toList_inj.1
  simp

/-- Skipping trivia leads to the same place. -/
theorem skipTrivia_moved (s : State) :
    (W.moved s).skipTrivia W.crlf = W.moved (s.skipTrivia W.text) := by
  have hitems := @triviaFrom_place W s.pos _ (.inl rfl)
  have hend := W.triviaEnd_moved s
  have hsize : (W.moved s).docs.size = s.docs.size := Array.size_map
  obtain ⟨pos, mode, diagnostics, docs, attached, runStart, triviaEnd⟩ := s
  cases mode with
  | tight => rfl
  | loose =>
    simp only [State.skipTrivia, moved] at hitems hend hsize ⊢
    simp only [hitems, docs_placed, called_placed, hend, hsize, map_appendList, Option.map_some]

/-- The same doc comment is taken. -/
theorem takeDoc_moved (s : State) :
    (W.moved s).takeDoc = (s.takeDoc.1.map (DocComment.placed W.placement), W.moved s.takeDoc.2) := by
  have hend := W.triviaEnd_moved s
  have hsize : (W.moved s).docs.size = s.docs.size := Array.size_map
  by_cases hcond : s.triviaEnd = some s.pos ∧ s.runStart < s.docs.size
  · rw [State.takeDoc, State.takeDoc, if_pos hcond, if_pos ⟨hend.2 hcond.1, hsize ▸ hcond.2⟩]
    dsimp only
    rw [hsize]
    by_cases hattached : s.attached.contains (s.docs.size - 1) = true
    · rw [if_pos hattached, if_pos (show (W.moved s).attached.contains _ = true from hattached)]
      rfl
    · rw [if_neg hattached, if_neg (show ¬(W.moved s).attached.contains _ = true from hattached)]
      simp [moved]
  · rw [State.takeDoc, State.takeDoc, if_neg hcond, if_neg]
    · rfl
    · exact fun h => hcond ⟨hend.1 h.1, hsize ▸ h.2⟩

/-- Going back leads to the same place. -/
theorem rewind_moved (s s₀ : State) :
    (W.moved s).rewind (W.moved s₀).checkpoint = W.moved (s.rewind s₀.checkpoint) := by
  simp [State.rewind, State.checkpoint, moved]

end LineFeeds

end PklSyntax
