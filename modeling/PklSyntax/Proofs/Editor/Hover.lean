import PklSyntax.Editor.Document
import PklSyntax.Proofs.Editor.NameWords
import PklSyntax.Proofs.Editor.Range
import PklSyntax.Proofs.Rendering.Snippet

/-!
# Hovering over names

An editor asks for the word at a location. It is looked for in a display line, while locations count
source lines; so the two kinds of lines have to agree, as they do where display lines end at line
feeds only, with a carriage return in front or without. Then a whole word of the text is found at
every location from its first character to behind its last one.

Whoever points at the name of a declaration is shown the documentation of that name: of the first
declaration or member of a class that bears it, which need not be the one that is pointed at. Names
between backticks are not looked up as a whole, and are left out.

## Main definitions

* `BreaksAtLineFeeds`: display lines end where source lines do.

## Main statements

* `wordInLine_of_word`: the word that is found in a line.
* `SourceText.wordAt_of_wholeWord`: the word that is found at a location of a name.
* `Module.find?_declaredItems`: what a name means.
* `hover_own_name`: what is shown at the name of a declaration or of a member of a class.
-/

namespace PklSyntax

/-! ### Words in a line -/

variable {left word right : List Char} {start : Nat}

theorem wordsFrom_cons_of_pos {c : Char} (hc : continuesName c = true) (rest : List Char) :
    wordsFrom start (c :: rest) =
      (start, String.ofList (c :: rest.takeWhile continuesName)) ::
        wordsFrom (start + (c :: rest.takeWhile continuesName).length)
          (rest.dropWhile continuesName) := by
  rw [wordsFrom, if_pos hc]

theorem wordsFrom_cons_of_neg {c : Char} (hc : ¬ continuesName c = true) (rest : List Char) :
    wordsFrom start (c :: rest) = wordsFrom (start + 1) rest := by
  rw [wordsFrom, if_neg hc]

/-- A word of a line stands in it, at its place. -/
theorem exists_of_mem_wordsFrom {line : List Char} {entry : Nat × String}
    (h : entry ∈ wordsFrom start line) :
    ∃ front rest, line = front ++ (entry.2.toList ++ rest) ∧ entry.1 = start + front.length ∧
      entry.2.toList ≠ [] ∧ ∀ c ∈ entry.2.toList, continuesName c = true := by
  fun_induction wordsFrom start line with
  | case1 => cases h
  | case2 start c rest hc word ih =>
    rcases List.mem_cons.1 h with rfl | h
    · refine ⟨[], rest.dropWhile continuesName, ?_, rfl, ?_, ?_⟩
      · simp [word]
      · simp [word]
      · simpa [word, hc] using fun c hmem => List.mem_takeWhile_imp hmem
    · obtain ⟨front, back, hline, hplace, hrest⟩ := ih h
      refine ⟨word ++ front, back, ?_, by simp [hplace, Nat.add_assoc], hrest⟩
      rw [List.append_assoc, ← hline]
      simp [word]
  | case3 start c rest hc ih =>
    obtain ⟨front, back, hline, hplace, hrest⟩ := ih h
    exact ⟨c :: front, back, by rw [hline]; rfl, by simp [hplace]; omega, hrest⟩

/-- A run of characters of names ends within a list whose last character is not one of them. -/
theorem span_continuesName_append {chars : List Char} (hne : chars ≠ [])
    (hlast : ∀ c ∈ chars.getLast?, continuesName c = false) :
    (chars ++ right).takeWhile continuesName = chars.takeWhile continuesName ∧
      (chars ++ right).dropWhile continuesName = chars.dropWhile continuesName ++ right := by
  have hsome : ¬ (chars.dropWhile continuesName).isEmpty = true := by
    rw [List.isEmpty_iff, List.dropWhile_eq_nil_iff]
    intro hall
    have hlast := hlast _ (List.getLast?_eq_some_getLast hne)
    rw [hall _ (List.getLast_mem hne)] at hlast
    cases hlast
  have hlength : ¬ (chars.takeWhile continuesName).length = chars.length := by
    intro hlength
    have hall := congrArg List.length
      (List.takeWhile_append_dropWhile (p := continuesName) (l := chars))
    rw [List.length_append] at hall
    exact hsome (List.isEmpty_iff.2 (List.eq_nil_of_length_eq_zero (by omega)))
  exact ⟨by rw [List.takeWhile_append, if_neg hlength], by rw [List.dropWhile_append, if_neg hsome]⟩

/-- Where no name goes on, the words of a line are those in front of the place and those behind
it. -/
theorem wordsFrom_append (hleft : ∀ c ∈ left.getLast?, continuesName c = false) :
    wordsFrom start (left ++ right) =
      wordsFrom start left ++ wordsFrom (start + left.length) right := by
  fun_induction wordsFrom start left with
  | case1 => rfl
  | case2 start c rest hc word ih =>
    have hne : rest ≠ [] := by
      rintro rfl
      rw [hleft c rfl] at hc
      cases hc
    rw [List.getLast?_cons_of_ne_nil hne] at hleft
    obtain ⟨htake, hdrop⟩ :
        (rest ++ right).takeWhile continuesName = rest.takeWhile continuesName ∧
          (rest ++ right).dropWhile continuesName = rest.dropWhile continuesName ++ right :=
      span_continuesName_append hne hleft
    have hlength : word.length + (rest.dropWhile continuesName).length = (c :: rest).length := by
      rw [← List.length_append]
      simp [word]
    have hlast : ∀ d ∈ (rest.dropWhile continuesName).getLast?, continuesName d = false := by
      intro d hd
      refine hleft d ?_
      rw [← List.takeWhile_append_dropWhile (p := continuesName) (l := rest)]
      exact List.mem_getLast?_append_of_mem_getLast? hd
    rw [List.cons_append, wordsFrom_cons_of_pos hc, htake, hdrop, ih hlast, List.cons_append,
      Nat.add_assoc, hlength]
  | case3 start c rest hc ih =>
    have hlast : ∀ d ∈ rest.getLast?, continuesName d = false := fun d hd =>
      hleft d (List.mem_getLast?_cons hd)
    rw [List.cons_append, wordsFrom_cons_of_neg hc, ih hlast, List.length_cons, Nat.add_assoc,
      Nat.add_comm 1]

/-- In a line that begins with a word, this is the first word. -/
theorem wordsFrom_word (hne : word ≠ []) (hword : ∀ c ∈ word, continuesName c = true)
    (hright : ∀ c ∈ right.head?, continuesName c = false) :
    ∃ others, wordsFrom start (word ++ right) = (start, String.ofList word) :: others := by
  cases word with
  | nil => exact absurd rfl hne
  | cons c rest =>
    have hnone : right.takeWhile continuesName = [] := by
      cases right with
      | nil => rfl
      | cons d _ => exact List.takeWhile_cons_of_neg (by simpa using hright d rfl)
    rw [List.forall_mem_cons] at hword
    rw [List.cons_append, wordsFrom_cons_of_pos hword.1, List.takeWhile_append_of_pos hword.2,
      hnone, List.append_nil]
    exact ⟨_, rfl⟩

/-- The words in front of a place at which no name goes on end in front of it. -/
theorem end_lt_of_mem_wordsFrom (hleft : ∀ c ∈ left.getLast?, continuesName c = false)
    {entry : Nat × String} (h : entry ∈ wordsFrom start left) :
    entry.1 + entry.2.length < start + left.length := by
  obtain ⟨front, rest, hline, hplace, hne, hall⟩ := exists_of_mem_wordsFrom h
  have hrest : rest ≠ [] := by
    rintro rfl
    have hlast : entry.2.toList.getLast hne ∈ left.getLast? := by
      rw [hline, List.append_nil]
      exact List.mem_getLast?_append_of_mem_getLast? (List.getLast?_eq_some_getLast hne)
    have hcontinues := hall _ (List.getLast_mem hne)
    rw [hleft _ hlast] at hcontinues
    cases hcontinues
  have hpos := List.length_pos_iff.2 hrest
  rw [hline, hplace, List.length_append, List.length_append, String.length_toList]
  omega

/-- The word that is found in a line from its first character to behind its last one. -/
theorem wordInLine_of_word {character : Int} (hne : word ≠ [])
    (hleft : ∀ c ∈ left.getLast?, continuesName c = false)
    (hword : ∀ c ∈ word, continuesName c = true)
    (hright : ∀ c ∈ right.head?, continuesName c = false) (hlo : left.length ≤ character)
    (hhi : character ≤ left.length + word.length) :
    wordInLine (left ++ (word ++ right)) character = some (String.ofList word) := by
  obtain ⟨others, hothers⟩ : ∃ others, wordsFrom left.length (word ++ right) =
      (left.length, String.ofList word) :: others := wordsFrom_word hne hword hright
  have hnone : ∀ entry ∈ wordsFrom 0 left,
      ¬((entry.1 : Int) ≤ character ∧ character ≤ (entry.1 + entry.2.length : Nat)) := by
    intro entry hmem
    have hlt := end_lt_of_mem_wordsFrom hleft hmem
    omega
  rw [wordInLine, wordsFrom_append hleft, Nat.zero_add, hothers, List.find?_append,
    List.find?_eq_none.2 ?_, Option.none_or, List.find?_cons_of_pos]
  · rfl
  · rw [decide_eq_true_eq, String.length_ofList]
    omega
  · intro entry hmem
    rw [decide_eq_true_eq]
    exact hnone entry hmem

/-! ### Lines -/

/-- Display lines end at line feeds only, with a carriage return in front or without. -/
def BreaksAtLineFeeds (chars : List Char) : Prop :=
  ∀ front c rest, chars = front ++ c :: rest → isLineBreak c = true →
    c = '\n' ∨ c = '\r' ∧ rest.head? = some '\n'

namespace BreaksAtLineFeeds

variable {before line after front rest : List Char}

theorem of_append (h : BreaksAtLineFeeds (front ++ rest)) : BreaksAtLineFeeds rest :=
  fun other c back heq => h (front ++ other) c back (by rw [heq, List.append_assoc])

theorem tail {c : Char} (h : BreaksAtLineFeeds (c :: rest)) : BreaksAtLineFeeds rest :=
  of_append (show BreaksAtLineFeeds ([c] ++ rest) from h)

/-- The lines that end in front of a line are shown apart from it. The induction is along the ends
of lines, of which a carriage return with its line feed is one. -/
theorem exists_lines_above (shown : List Char) (h : BreaksAtLineFeeds (before ++ rest))
    (hend : before.getLast? = some '\n' ∨ before = [] ∧ shown = []) :
    ∃ above : List String, above.length = before.count '\n' ∧
      displayLinesFrom shown (before ++ rest) = above ++ displayLinesFrom [] rest := by
  induction before using unifyLineEndings.induct generalizing shown with
  | case1 =>
    rcases hend with hend | ⟨-, rfl⟩
    · simp at hend
    · exact ⟨[], rfl, rfl⟩
  | case2 before ih =>
    have hlast : before.getLast? = some '\n' ∨ before = [] := by
      cases before with
      | nil => exact .inr rfl
      | cons c before => exact .inl (by simpa using hend)
    obtain ⟨above, hlength, heq⟩ := ih [] h.tail.tail (hlast.imp_right fun h => ⟨h, rfl⟩)
    refine ⟨String.ofList shown.reverse :: above, by simp [hlength], ?_⟩
    rw [List.cons_append, List.cons_append, displayLinesFrom, heq, List.cons_append]
  | case3 c before hreturn ih =>
    have hlast : before.getLast? = some '\n' ∨ before = [] ∧ c = '\n' := by
      cases before with
      | nil => exact .inr ⟨rfl, by simpa using hend⟩
      | cons d before => exact .inl (by simpa using hend)
    -- A carriage return would have its line feed behind it in front of the line.
    have hbreak : isLineBreak c = true → c = '\n' := by
      intro hbreak
      rcases h [] c (before ++ rest) rfl hbreak with hc | ⟨rfl, hfeed⟩
      · exact hc
      · rcases hlast with hlast | ⟨-, hc⟩
        · cases before with
          | nil => simp at hlast
          | cons d before =>
            obtain rfl : d = '\n' := by simpa using hfeed
            exact absurd rfl (hreturn before rfl)
        · exact absurd hc (by decide)
    rw [List.cons_append, displayLinesFrom_cons hbreak]
    by_cases hc : c = '\n'
    · obtain ⟨above, hlength, heq⟩ := ih [] h.tail (hlast.imp_right fun h => ⟨h.1, rfl⟩)
      exact ⟨String.ofList shown.reverse :: above, by rw [hc]; simp [hlength],
        by rw [if_pos hc, heq]; rfl⟩
    · obtain ⟨above, hlength, heq⟩ := ih (c :: shown) h.tail
        (hlast.imp_right fun h => absurd h.2 hc)
      exact ⟨above, by rw [hlength, List.count_cons_of_ne hc], by rw [if_neg hc, heq]⟩

/-- A line is shown as it is, but for the carriage return that may stand at its end. -/
theorem exists_shown_line (shown : List Char) (h : BreaksAtLineFeeds (line ++ after))
    (hline : '\n' ∉ line) (hafter : after = [] ∨ after.head? = some '\n')
    (hne : shown.reverse ++ line ≠ []) :
    ∃ kept below, (line = kept ∨ line = kept ++ ['\r']) ∧
      displayLinesFrom shown (line ++ after) = String.ofList (shown.reverse ++ kept) :: below := by
  induction line generalizing shown with
  | nil =>
    refine ⟨[], ?_⟩
    rcases hafter with rfl | hafter
    · exact ⟨[], .inl rfl, by simp_all [displayLinesFrom]⟩
    · obtain ⟨rest, rfl⟩ := List.head?_eq_some_iff.1 hafter
      exact ⟨displayLinesFrom [] rest, .inl rfl, by
        rw [List.nil_append, displayLinesFrom_cons fun _ => rfl, if_pos rfl, List.append_nil]⟩
  | cons c line ih =>
    rw [List.mem_cons, not_or] at hline
    by_cases hbreak : isLineBreak c = true
    · -- The carriage return at the end of the line.
      obtain hc | ⟨rfl, hfeed⟩ := h [] c (line ++ after) rfl hbreak
      · exact absurd hc.symm hline.1
      cases line with
      | cons d line =>
        obtain rfl : d = '\n' := by simpa using hfeed
        simp at hline
      | nil =>
        obtain ⟨rest, rfl⟩ := List.head?_eq_some_iff.1 hfeed
        exact ⟨[], displayLinesFrom [] rest, .inr rfl, by
          rw [List.append_nil]
          rfl⟩
    · obtain ⟨kept, below, hkept, heq⟩ := ih (c :: shown) h.tail hline.2 (by simp)
      refine ⟨c :: kept, below, ?_, ?_⟩
      · rcases hkept with rfl | rfl
        · exact .inl rfl
        · exact .inr rfl
      · rw [List.cons_append, displayLinesFrom_cons fun h => absurd h hbreak,
          if_neg (Ne.symm hline.1), heq]
        simp

end BreaksAtLineFeeds

theorem OnlyLineFeeds.breaksAtLineFeeds {chars : List Char} (h : OnlyLineFeeds chars) :
    BreaksAtLineFeeds chars :=
  fun front c rest heq hbreak => .inl (h c (by rw [heq]; simp) hbreak)

/-! ### Words of a text -/

/-- Where the last character of a word stands, a line does not end with a carriage return. -/
theorem exists_right_of_shown {word left right kept : List Char} (hne : word ≠ [])
    (hword : ∀ c ∈ word, continuesName c = true)
    (h : left ++ word ++ right = kept ∨ left ++ word ++ right = kept ++ ['\r']) :
    ∃ right', kept = left ++ (word ++ right') ∧ ∀ c ∈ right'.head?, c ∈ right.head? := by
  rcases h with rfl | h
  · exact ⟨right, List.append_assoc _ _ _, fun c hc => hc⟩
  · rcases List.eq_nil_or_concat right with rfl | ⟨right', d, rfl⟩
    · -- The word would end with the carriage return.
      have hlast : word.getLast hne = '\r' := by
        have hlast := congrArg List.getLast? h
        rw [List.append_nil, List.getLast?_append, List.getLast?_eq_some_getLast hne,
          List.getLast?_concat, Option.some_or] at hlast
        exact Option.some.inj hlast
      have hcontinues := hword _ (List.getLast_mem hne)
      rw [hlast] at hcontinues
      exact absurd hcontinues (by decide)
    · rw [List.concat_eq_append, ← List.append_assoc] at h
      obtain ⟨rfl, -⟩ := List.append_inj' h rfl
      rw [List.concat_eq_append]
      exact ⟨right', List.append_assoc _ _ _, fun c hc => List.mem_head?_append_of_mem_head? hc⟩

namespace SourceText

variable {source : SourceText}

/-- The display line with the number of a source line, but for the carriage return at its end. -/
theorem Around.exists_line {before line after : List Char} (h : source.Around before line after)
    (hbreaks : BreaksAtLineFeeds source.chars.toList) (hne : line ≠ []) :
    ∃ kept, (line = kept ∨ line = kept ++ ['\r']) ∧
      source.lines[before.count '\n']? = some (String.ofList kept) := by
  rw [h.chars_eq] at hbreaks
  obtain ⟨above, hlength, heq⟩ := hbreaks.exists_lines_above []
    (h.opens.symm.imp_right fun hnil => ⟨hnil, rfl⟩)
  obtain ⟨kept, below, hkept, hshown⟩ := hbreaks.of_append.exists_shown_line [] h.whole h.closes
    (by simpa using hne)
  refine ⟨kept, hkept, ?_⟩
  rw [source.lines_eq, h.chars_eq, displayLines, heq, hshown, ← hlength]
  simp

end SourceText

namespace WholeWord

variable {source : SourceText} {name : Identifier} {first last : Nat}
  (h : WholeWord source.chars name first last)

include h

theorem last_le_size : last ≤ source.chars.size := by
  have hlt := h.lt
  have := (h.continues (last - 1) (by omega) (by omega)).1
  omega

theorem length_slice : (source.slice name.span).length = last - first := by
  have := h.last_le_size
  simp only [SourceText.slice, h.span_eq, Span.ofNat, Int.toNat_natCast, Array.length_toList,
    Array.size_extract]
  omega

theorem name_eq_ofList : name.name = String.ofList (source.slice name.span) := by
  rw [h.name_eq, h.span_eq]
  rfl

theorem name_ne : name.name ≠ "" := by
  have hlt := h.lt
  have hlength := h.length_slice
  rw [h.name_eq_ofList]
  intro hnil
  rw [← String.length_ofList, hnil] at hlength
  exact absurd hlength (by rw [String.length_empty]; omega)

theorem continues_of_mem {c : Char} (hc : c ∈ source.slice name.span) :
    continuesName c = true := by
  obtain ⟨k, hk, rfl⟩ := List.getElem_of_mem hc
  have hlength := h.length_slice
  obtain ⟨hlt, hcontinues⟩ := h.continues (first + k) (by omega) (by omega)
  rw [charAt_of_lt hlt] at hcontinues
  simpa [SourceText.slice, h.span_eq, Span.ofNat] using hcontinues

/-- The characters on either side of the word, where the text is cut there. -/
theorem outside {front rest : List Char}
    (hchars : source.chars.toList = front ++ (source.slice name.span ++ rest))
    (hfront : front.length = first) :
    (∀ c ∈ front.getLast?, continuesName c = false) ∧
      ∀ c ∈ rest.head?, continuesName c = false := by
  have hlt := h.lt
  constructor
  · intro c hc
    obtain ⟨before, rfl⟩ := List.getLast?_eq_some_iff.1 hc
    have hat : charAt source.chars (first - 1) = c := by
      refine charAt_eq_of_getElem? ?_
      rw [← Array.getElem?_toList, hchars, ← hfront]
      simp
    have hpos : 0 < first := by
      rw [← hfront]
      simp
    rw [← Bool.not_eq_true, ← hat]
    intro hname
    have hfirst := h.front hpos hname
    rw [(h.continues first (Nat.le_refl _) hlt).2] at hfirst
    cases hfirst
  · intro c hc
    obtain ⟨behind, rfl⟩ := List.head?_eq_some_iff.1 hc
    have hat : charAt source.chars last = c := by
      refine charAt_eq_of_getElem? ?_
      have hlength := h.length_slice
      rw [← Array.getElem?_toList, hchars, List.getElem?_append_right (by omega),
        List.getElem?_append_right (by omega)]
      simp [hlength, hfront]
    rw [← hat]
    exact h.behind

/-- The line of a whole word, and the locations from the start of the word up to its end: they are on
that line, from the first character of the word to behind its last one. -/
theorem exists_around {p : Location} (hlo : (source.range name.span).start.key ≤ p.key)
    (hhi : p.key ≤ (source.range name.span).stop.key) :
    ∃ before left right after,
      source.Around before (left ++ source.slice name.span ++ right) after ∧
      (before ++ left).length = first ∧ p.line = before.count '\n' ∧ left.length ≤ p.character ∧
      p.character ≤ left.length + (source.slice name.span).length := by
  have hlt := h.lt
  have hlength := h.length_slice
  have hfeed : '\n' ∉ source.slice name.span := fun hmem =>
    absurd (h.continues_of_mem hmem) (by decide)
  have hspan : 0 ≤ name.span.start ∧ name.span.start ≤ name.span.stop ∧
      name.span.stop ≤ source.chars.size := by
    rw [h.span_eq]
    exact ⟨Int.natCast_nonneg _, Int.ofNat_le.2 (Nat.le_of_lt hlt), Int.ofNat_le.2 h.last_le_size⟩
  obtain ⟨before, left, right, after, haround, hbefore⟩ :=
    SourceText.exists_around hspan.1 hspan.2.1 hspan.2.2 hfeed
  have hfirst : first = before.length + left.length := by
    rw [h.span_eq] at hbefore
    exact Int.ofNat_inj.1 hbefore
  have hstart : source.position name.span.start = ⟨before.count '\n' + 1, left.length + 1⟩ :=
    haround.position (by simp only [List.length_append]; omega) hbefore
  have hstop : source.position name.span.stop =
      ⟨before.count '\n' + 1, left.length + (source.slice name.span).length + 1⟩ := by
    refine haround.position (by simp only [List.length_append]; omega) ?_
    rw [show name.span.stop = (last : Int) by rw [h.span_eq]; rfl]
    omega
  rw [SourceText.range, hstart, Location.key, Location.key, Prod.Lex.toLex_le_toLex] at hlo
  rw [SourceText.range, hstop, Location.key, Location.key, Prod.Lex.toLex_le_toLex] at hhi
  simp only [Position.location, Nat.add_sub_cancel] at hlo hhi
  exact ⟨before, left, right, after, haround, by rw [List.length_append, hfirst], by omega⟩

end WholeWord

/-- The word that is found at a location of a whole word of the text, from its start up to its
end. -/
theorem SourceText.wordAt_of_wholeWord {source : SourceText} {name : Identifier}
    {first last : Nat} {p : Location} (h : WholeWord source.chars name first last)
    (hbreaks : BreaksAtLineFeeds source.chars.toList)
    (hlo : (source.range name.span).start.key ≤ p.key)
    (hhi : p.key ≤ (source.range name.span).stop.key) :
    source.wordAt p.line p.character = some name.name := by
  have hne : source.slice name.span ≠ [] := by
    have hlt := h.lt
    have hlength := h.length_slice
    exact List.length_pos_iff.1 (by omega)
  obtain ⟨before, left, right, after, haround, hfirst, hline, hcharacter⟩ :=
    h.exists_around hlo hhi
  obtain ⟨kept, hkept, hshown⟩ := haround.exists_line hbreaks (by simp [hne])
  have hchars : source.chars.toList =
      (before ++ left) ++ (source.slice name.span ++ (right ++ after)) := by
    rw [haround.chars_eq]
    simp only [List.append_assoc]
  obtain ⟨hleft, hright⟩ := h.outside hchars hfirst
  obtain ⟨right', rfl, hright'⟩ : ∃ right', kept = left ++ (source.slice name.span ++ right') ∧
      ∀ c ∈ right'.head?, c ∈ right.head? :=
    exists_right_of_shown hne (fun c => h.continues_of_mem) hkept
  rw [wordAt, if_neg (by omega), Int.toNat_natCast, hline, hshown, Option.bind_some,
    String.toList_ofList, h.name_eq_ofList]
  refine wordInLine_of_word hne (fun c hc => hleft c (List.mem_getLast?_append_of_mem_getLast? hc))
    (fun c => h.continues_of_mem) (fun c hc => hright c ?_) (by omega) (by omega)
  exact List.mem_head?_append_of_mem_head? (hright' c hc)

/-! ### What a name means -/

theorem find?_addDistinct (found : List Item) (item : Item) (word : String) :
    (addDistinct found item).find? (·.name == word) =
      (found ++ [item]).find? (·.name == word) := by
  rw [addDistinct]
  split
  next hany =>
    obtain ⟨other, hother, hname⟩ := List.any_eq_true.1 hany
    rw [List.find?_append]
    cases hfind : found.find? (·.name == word) with
    | some first => rfl
    | none =>
      -- The item that is there already would have been found.
      have hne := List.find?_eq_none.1 hfind other hother
      rw [beq_iff_eq] at hname
      rw [hname] at hne
      have hnone : [item].find? (·.name == word) = none := List.find?_cons_of_neg hne
      rw [hnone, Option.none_or]
  next => rfl

theorem find?_foldl_addDistinct (items found : List Item) (word : String) :
    (items.foldl addDistinct found).find? (·.name == word) =
      (found ++ items).find? (·.name == word) := by
  induction items generalizing found with
  | nil => rw [List.foldl_nil, List.append_nil]
  | cons item items ih =>
    rw [List.foldl_cons, ih, List.find?_append, find?_addDistinct, ← List.find?_append,
      List.append_assoc, List.singleton_append]

/-- A name means the first item that bears it. -/
theorem Module.find?_declaredItems (tree : Module) (word : String) :
    tree.declaredItems.find? (·.name == word) =
      (tree.declarations.flatMap Declaration.items).find? (·.name == word) :=
  find?_foldl_addDistinct _ [] word

/-- The names of a declaration are those of items that it brings, unless they are empty. -/
theorem Declaration.exists_item_of_mem_identifiers {decl : Declaration} {name : Identifier}
    (h : name ∈ decl.identifiers) (hne : name.name ≠ "") :
    ∃ item ∈ decl.items, item.name = name.name := by
  rcases List.mem_append.1 h with h | h
  · obtain ⟨item, hitem, hname⟩ : ∃ item, decl.item? = some item ∧ item.name = name.name := by
      cases decl with
      | moduleClause _ | importDecl _ | extendsClause _ | amendsClause _ => cases h
      | typeAlias _ | classDecl _ | function _ | property _ =>
        obtain rfl := Option.some.inj (Option.mem_toList.1 h)
        exact ⟨_, rfl, rfl⟩
    refine ⟨item, List.mem_append_left _ ?_, hname⟩
    have hsome : (!item.name.isEmpty) = true := by simpa [hname] using hne
    rw [Option.mem_toList, hitem, Option.filter_some, if_pos hsome]
  · obtain ⟨member, hmember, rfl⟩ := List.mem_map.1 h
    exact ⟨member.item, List.mem_append_right _ (List.mem_map_of_mem hmember), by
      cases member <;> rfl⟩

/-! ### What is shown -/

theorem Document.hover?_of_wordAt {doc : Document} {line character : Int} {word : String}
    (h : doc.source.wordAt line character = some word) :
    doc.hover? line character =
      ((doc.result.module.declarations.flatMap Declaration.items).find? (·.name == word)).bind
        fun item => item.doc.map DocComment.text := by
  rw [hover?, h, ← Module.find?_declaredItems, ← Document.items]
  simp only [Option.bind_eq_bind, Option.bind_some, Option.pure_def, Option.map_eq_bind]
  rfl

/-- What is shown at the name of a class, a type alias, a function or a property, or of a member of
a class, from the start of the name up to its end: the word that is looked up is the name, and the
documentation is that of the first item that bears it, if this has a doc comment. -/
theorem hover_own_name (text filename : String) (options : Options)
    (hbreaks : BreaksAtLineFeeds text.toList) :
    let doc : Document := ⟨.ofString text filename, parse text filename options⟩
    ∀ decl ∈ doc.result.module.declarations, ∀ name ∈ decl.identifiers, name.kind ≠ .backtick →
      ∀ p : Location, (doc.source.range name.span).start.key ≤ p.key →
        p.key ≤ (doc.source.range name.span).stop.key →
        doc.source.wordAt p.line p.character = some name.name ∧
          ∃ first, (doc.result.module.declarations.flatMap Declaration.items).find?
              (·.name == name.name) = some first ∧
            doc.hover? p.line p.character = first.doc.map DocComment.text := by
  intro doc decl hdecl name hname hkind p hlo hhi
  obtain ⟨i, j, hword⟩ := parse_names text filename options decl hdecl name hname hkind
  have hat : doc.source.wordAt p.line p.character = some name.name :=
    SourceText.wordAt_of_wholeWord hword hbreaks hlo hhi
  have hword : WholeWord doc.source.chars name i j := hword
  have hne : name.name ≠ "" := hword.name_ne
  obtain ⟨item, hitem, hbears⟩ := Declaration.exists_item_of_mem_identifiers hname hne
  have hfound : ((doc.result.module.declarations.flatMap Declaration.items).find?
      (·.name == name.name)).isSome = true := by
    rw [List.find?_isSome]
    exact ⟨item, List.mem_flatMap.2 ⟨decl, hdecl, hitem⟩, by rw [hbears, beq_self_eq_true]⟩
  obtain ⟨first, hfirst⟩ := Option.isSome_iff_exists.1 hfound
  refine ⟨hat, first, hfirst, ?_⟩
  rw [Document.hover?_of_wordAt hat, hfirst, Option.bind_some]

/-- The name of a property that a member of a class in front of it bears, too: what is shown is the
documentation of the member. -/
theorem hover_own_name_of_member :
    let text := "class A \x7b\n  /// member\n  x: B\n\x7d\n/// property\nx = 1"
    let doc : Document := ⟨.ofString text "m", parse text "m" {}⟩
    BreaksAtLineFeeds text.toList ∧ doc.source.wordAt 5 1 = some "x" ∧
      doc.hover? 5 1 = some "member" := by
  intro text doc
  have hall : text.toList.all (fun c => !isLineBreak c || c == '\n') = true := by decide +kernel
  have honly : OnlyLineFeeds text.toList := fun c hc hbreak => by
    simpa [hbreak] using List.all_eq_true.1 hall c hc
  have hname : (doc.result.module.declarations[1]?.bind (·.identifiers[0]?)) =
      some ⟨"x", .plain, ⟨45, 46⟩⟩ := by decide +kernel
  obtain ⟨decl, hdecl, hname⟩ := Option.bind_eq_some_iff.1 hname
  obtain ⟨hword, first, hfirst, hshown⟩ := hover_own_name text "m" {}
    (OnlyLineFeeds.breaksAtLineFeeds honly) decl (List.mem_of_getElem? hdecl) _
    (List.mem_of_getElem? hname) (by decide) ⟨5, 1⟩ (by decide +kernel) (by decide +kernel)
  have hfound : ((doc.result.module.declarations.flatMap Declaration.items).find?
      (·.name == "x")).map (·.doc.map DocComment.text) = some (some "member") := by decide +kernel
  rw [hfirst, Option.map_some, Option.some_inj] at hfound
  exact ⟨OnlyLineFeeds.breaksAtLineFeeds honly, hword, hshown.trans hfound⟩

end PklSyntax
