import Mathlib.Data.List.DropRight
import Mathlib.Data.Prod.Lex
import Mathlib.Order.Interval.Set.Defs
import Mathlib.Order.Monotone.Defs
import PklSyntax.Source.SourceText

/-!
# Positions of offsets

A position is found by looking an offset up among the line starts of the text. What it says is
meant of the text alone: the line is one more than the line feeds in front of the offset, the
column one more than the characters behind the last of them. So positions stand in the order of
their offsets, and the offsets of a text correspond to the positions of its lines one to one.

In UTF-8 the bytes of a text that is put together from pieces are those of the pieces, one behind
the other. So the place of a span among the bytes holds the bytes of its characters, whatever width
they have, and spans that adjoin have places that adjoin. A span may reach beyond the end of the
text: then it has what there is of it.

## Main definitions

* `Position.key`: positions in the order of the text, by line and then by column.
* `IsLineStart`: a source line with a given number begins at an offset.
* `SourceText.bytes`: the text in UTF-8.

## Main statements

* `SourceText.position_eq`: a position in terms of the characters in front of the offset.
* `SourceText.key_position_lt`: a later offset has a later position.
* `SourceText.position_of_isLineStart`: the position of an offset in a given line.
* `SourceText.position_orderIso`: all of this for every text.
* `SourceText.slice_append`: the characters of spans that adjoin.
* `SourceText.extract_bytes`: what the place of a span holds.
* `SourceText.byteSpan_bytes`: this together with places that adjoin.
-/

namespace PklSyntax

/-- Lines come one after another, and in a line columns do. -/
def Position.key (p : Position) : Nat ×ₗ Nat := toLex (p.line, p.column)

/-- The source line with the number `n` begins at the offset `i`: behind a line feed, unless it is
the first one, and there are `n - 1` line feeds in front of it. -/
structure IsLineStart (chars : List Char) (n i : Nat) : Prop where
  le_length : i ≤ chars.length
  number_eq : n = (chars.take i).count '\n' + 1
  opens : i = 0 ∨ (chars.take i).getLast? = some '\n'

/-! ### Line feeds -/

theorem offsetsAfterLineFeeds_append (n : Nat) (front rest : List Char) :
    offsetsAfterLineFeeds n (front ++ rest) =
      offsetsAfterLineFeeds n front ++ offsetsAfterLineFeeds (n + front.length) rest := by
  induction front generalizing n with
  | nil => rfl
  | cons c front ih =>
    simp only [List.cons_append, offsetsAfterLineFeeds, ih, List.length_cons]
    split <;> simp [Nat.add_comm, Nat.add_left_comm]

theorem length_offsetsAfterLineFeeds (n : Nat) (chars : List Char) :
    (offsetsAfterLineFeeds n chars).length = chars.count '\n' := by
  induction chars generalizing n with
  | nil => rfl
  | cons c chars ih =>
    rw [offsetsAfterLineFeeds]
    split
    · simp_all
    · rw [ih, List.count_cons_of_ne ‹_›]

theorem bounds_of_mem_offsetsAfterLineFeeds {n o : Nat} {chars : List Char}
    (ho : o ∈ offsetsAfterLineFeeds n chars) : n < o ∧ o ≤ n + chars.length := by
  induction chars generalizing n with
  | nil => simp [offsetsAfterLineFeeds] at ho
  | cons c chars ih =>
    have hrest : o ∈ offsetsAfterLineFeeds (n + 1) chars →
        n < o ∧ o ≤ n + (c :: chars).length := by
      intro hmem
      have := ih hmem
      rw [List.length_cons]
      omega
    rw [offsetsAfterLineFeeds] at ho
    split at ho
    · rcases List.mem_cons.1 ho with rfl | ho
      · simp
      · exact hrest ho
    · exact hrest ho

theorem offsetsAfterLineFeeds_of_notMem (n : Nat) {line : List Char} (h : '\n' ∉ line) :
    offsetsAfterLineFeeds n line = [] := by
  rw [← List.length_eq_zero_iff, length_offsetsAfterLineFeeds]
  exact List.count_eq_zero.2 h

theorem getLast?_offsetsAfterLineFeeds (n : Nat) {front : List Char}
    (h : front.getLast? = some '\n') :
    (offsetsAfterLineFeeds n front).getLast? = some (n + front.length) := by
  obtain ⟨front, rfl⟩ := List.getLast?_eq_some_iff.1 h
  rw [offsetsAfterLineFeeds_append, offsetsAfterLineFeeds, if_pos rfl, List.getLast?_append]
  simp [offsetsAfterLineFeeds, Nat.add_assoc]

/-! ### The line that an offset is in -/

/-- The characters behind the last line feed. -/
def lastLine (chars : List Char) : List Char := chars.rtakeWhile (· != '\n')

/-- A text in front of its last line. -/
def aboveLastLine (chars : List Char) : List Char := chars.rdropWhile (· != '\n')

theorem aboveLastLine_append_lastLine (chars : List Char) :
    aboveLastLine chars ++ lastLine chars = chars :=
  List.rdropWhile_append_rtakeWhile

theorem take_length_aboveLastLine (chars : List Char) :
    chars.take (aboveLastLine chars).length = aboveLastLine chars := by
  nth_rewrite 2 [← aboveLastLine_append_lastLine chars]
  exact List.take_left

theorem drop_length_aboveLastLine (chars : List Char) :
    chars.drop (aboveLastLine chars).length = lastLine chars := by
  nth_rewrite 2 [← aboveLastLine_append_lastLine chars]
  exact List.drop_left

theorem lineFeed_notMem_lastLine (chars : List Char) : '\n' ∉ lastLine chars :=
  fun hmem => by simpa using List.mem_rtakeWhile_imp hmem

theorem aboveLastLine_ends (chars : List Char) :
    aboveLastLine chars = [] ∨ (aboveLastLine chars).getLast? = some '\n' := by
  rw [or_iff_not_imp_left]
  intro hne
  have hlast := List.rdropWhile_last_not _ _ hne
  rw [List.getLast?_eq_some_getLast hne]
  simpa [aboveLastLine] using hlast

theorem count_aboveLastLine (chars : List Char) :
    (aboveLastLine chars).count '\n' = chars.count '\n' := by
  conv_rhs => rw [← aboveLastLine_append_lastLine chars, List.count_append,
    List.count_eq_zero.2 (lineFeed_notMem_lastLine chars), Nat.add_zero]

/-- Characters without a line feed go on the last line. -/
theorem lastLine_append {line : List Char} (h : '\n' ∉ line) (chars : List Char) :
    lastLine (chars ++ line) = lastLine chars ++ line := by
  have hline : ∀ c ∈ line.reverse, (c != '\n') = true := by
    intro c hc
    rw [bne_iff_ne]
    rintro rfl
    exact h (List.mem_reverse.1 hc)
  rw [lastLine, List.rtakeWhile, List.reverse_append, List.takeWhile_append_of_pos hline,
    List.reverse_append, List.reverse_reverse]
  rfl

/-- Behind a line feed a new line begins. -/
theorem lastLine_of_ends {chars : List Char} (h : chars = [] ∨ chars.getLast? = some '\n') :
    lastLine chars = [] := by
  rcases h with rfl | h
  · rfl
  · obtain ⟨front, rfl⟩ := List.getLast?_eq_some_iff.1 h
    exact List.rtakeWhile_concat_neg _ _ _ (by decide)

namespace SourceText

variable {source : SourceText}

/-! ### Positions -/

/-- The line starts up to an offset are those of the text in front of it. -/
theorem takeWhile_lineStarts {o : Nat} (ho : o ≤ source.chars.size) :
    source.lineStarts.takeWhile (· ≤ o) =
      0 :: offsetsAfterLineFeeds 0 (source.chars.toList.take o) := by
  have hlength : (source.chars.toList.take o).length = o :=
    List.length_take_of_le (by rwa [Array.length_toList])
  rw [source.lineStarts_eq, lineStartsOf]
  conv_lhs => rw [← List.take_append_drop o source.chars.toList]
  rw [offsetsAfterLineFeeds_append, ← List.cons_append, List.takeWhile_append_of_pos]
  · cases hrest : offsetsAfterLineFeeds (0 + (source.chars.toList.take o).length)
        (source.chars.toList.drop o) with
    | nil => simp
    | cons i _ =>
      have hi : i ∈ offsetsAfterLineFeeds (0 + (source.chars.toList.take o).length)
          (source.chars.toList.drop o) := by
        rw [hrest]
        exact List.mem_cons_self
      have := (bounds_of_mem_offsetsAfterLineFeeds hi).1
      rw [List.takeWhile_cons_of_neg (by rw [decide_eq_true_eq]; omega), List.append_nil]
  · intro i hi
    rw [decide_eq_true_eq]
    rcases List.mem_cons.1 hi with rfl | hi
    · omega
    · have := (bounds_of_mem_offsetsAfterLineFeeds hi).2
      omega

/-- The last line start of a text is where its last line begins. -/
theorem getLastD_lineStarts (chars : List Char) :
    (0 :: offsetsAfterLineFeeds 0 chars).getLastD 0 = (aboveLastLine chars).length := by
  conv_lhs => rw [← aboveLastLine_append_lastLine chars, offsetsAfterLineFeeds_append,
    offsetsAfterLineFeeds_of_notMem _ (lineFeed_notMem_lastLine chars), List.append_nil]
  rw [List.getLastD_eq_getLast?, List.getLast?_cons]
  rcases aboveLastLine_ends chars with hnil | hend
  · rw [hnil]
    rfl
  · simp [getLast?_offsetsAfterLineFeeds 0 hend]

theorem clamp_le (offset : Int) : source.clamp offset ≤ source.chars.size := by
  rw [clamp]
  omega

theorem clamp_of_le {o : Nat} (ho : o ≤ source.chars.size) : source.clamp o = o := by
  rw [clamp]
  omega

/-- The line of an offset is one more than the line feeds in front of it, the column one more than
the characters behind the last of these. -/
theorem position_eq (offset : Int) :
    source.position offset =
      ⟨(source.chars.toList.take (source.clamp offset)).count '\n' + 1,
        (lastLine (source.chars.toList.take (source.clamp offset))).length + 1⟩ := by
  have hle := source.clamp_le offset
  have hlength := congrArg List.length
    (aboveLastLine_append_lastLine (source.chars.toList.take (source.clamp offset)))
  rw [List.length_append, List.length_take_of_le (by rwa [Array.length_toList])] at hlength
  simp only [position, takeWhile_lineStarts hle, getLastD_lineStarts, List.length_cons,
    length_offsetsAfterLineFeeds]
  congr 1
  omega

theorem position_eq_of_le {o : Nat} (ho : o ≤ source.chars.size) :
    source.position o =
      ⟨(source.chars.toList.take o).count '\n' + 1,
        (lastLine (source.chars.toList.take o)).length + 1⟩ := by
  rw [position_eq, clamp_of_le ho]

/-- A later offset has a later position. -/
theorem key_position_lt {o o' : Nat} (hlt : o < o') (ho' : o' ≤ source.chars.size) :
    (source.position o).key < (source.position o').key := by
  have htake : source.chars.toList.take o' =
      source.chars.toList.take o ++ (source.chars.toList.drop o).take (o' - o) := by
    rw [← List.take_add, Nat.add_sub_cancel' (Nat.le_of_lt hlt)]
  have hlength : ((source.chars.toList.drop o).take (o' - o)).length = o' - o := by
    rw [List.length_take, List.length_drop, Array.length_toList]
    omega
  rw [position_eq_of_le ho', position_eq_of_le (Nat.le_trans (Nat.le_of_lt hlt) ho'), htake,
    Position.key, Position.key, Prod.Lex.toLex_lt_toLex, List.count_append]
  by_cases hfeed : '\n' ∈ (source.chars.toList.drop o).take (o' - o)
  · have := List.count_pos_iff.2 hfeed
    exact .inl (by simpa using this)
  · refine .inr ⟨by simp [List.count_eq_zero.2 hfeed], ?_⟩
    simp only [lastLine_append hfeed, List.length_append, hlength]
    omega

/-- The position of an offset in a given line. -/
theorem position_of_isLineStart {n i k : Nat} (h : IsLineStart source.chars.toList n i)
    (hk : i + k ≤ source.chars.size) (hline : '\n' ∉ (source.chars.toList.drop i).take k) :
    source.position (i + k : Nat) = ⟨n, k + 1⟩ := by
  have hends : source.chars.toList.take i = [] ∨
      (source.chars.toList.take i).getLast? = some '\n' :=
    h.opens.imp_left fun hi => by rw [hi, List.take_zero]
  have hlength : ((source.chars.toList.drop i).take k).length = k := by
    rw [List.length_take, List.length_drop, Array.length_toList]
    omega
  rw [position_eq_of_le hk, List.take_add, List.count_append, List.count_eq_zero.2 hline,
    lastLine_append hline, lastLine_of_ends hends, List.nil_append, hlength, h.number_eq,
    Nat.add_zero]

/-- The line of an offset begins as many characters in front of it as its column says. -/
theorem exists_isLineStart {o : Nat} (ho : o ≤ source.chars.size) :
    ∃ i, IsLineStart source.chars.toList (source.position o).line i ∧
      i + ((source.position o).column - 1) = o ∧
      '\n' ∉ (source.chars.toList.drop i).take ((source.position o).column - 1) := by
  let front := source.chars.toList.take o
  have hlength := congrArg List.length (aboveLastLine_append_lastLine front)
  rw [List.length_append, List.length_take_of_le (by rwa [Array.length_toList])] at hlength
  have hsum : (aboveLastLine front).length + (lastLine front).length = o := hlength
  have habove : source.chars.toList.take (aboveLastLine front).length = aboveLastLine front := by
    rw [← Nat.min_eq_left (Nat.le.intro hsum), ← List.take_take, take_length_aboveLastLine]
  have hline : (source.chars.toList.drop (aboveLastLine front).length).take
      (lastLine front).length = lastLine front := by
    rw [← Nat.sub_eq_of_eq_add' hsum.symm, ← List.drop_take, drop_length_aboveLastLine]
  rw [position_eq_of_le ho]
  refine ⟨(aboveLastLine front).length, ⟨?_, ?_, ?_⟩, hsum, ?_⟩
  · rw [Array.length_toList]
    exact Nat.le_trans (Nat.le.intro hsum) ho
  · rw [habove, count_aboveLastLine]
  · rw [habove, List.length_eq_zero_iff]
    exact aboveLastLine_ends front
  · rw [Nat.add_sub_cancel, hline]
    exact lineFeed_notMem_lastLine front

/-- A line begins at one offset only. -/
theorem isLineStart_unique {n i j : Nat} (h : IsLineStart source.chars.toList n i)
    (h' : IsLineStart source.chars.toList n j) : j = i := by
  have hposition {k : Nat} (hk : IsLineStart source.chars.toList n k) :
      k ≤ source.chars.size ∧ source.position k = ⟨n, 1⟩ := by
    have hle : k ≤ source.chars.size := by simpa using hk.le_length
    exact ⟨hle, position_of_isLineStart (k := 0) hk hle (by simp)⟩
  have hnot {a b : Nat} (ha : source.position a = ⟨n, 1⟩) (hb : source.position b = ⟨n, 1⟩)
      (hle : b ≤ source.chars.size) : ¬ a < b := by
    intro hlt
    have := key_position_lt hlt hle
    rw [ha, hb] at this
    exact lt_irrefl _ this
  obtain ⟨hi, hpos⟩ := hposition h
  obtain ⟨hj, hpos'⟩ := hposition h'
  exact Nat.le_antisymm (Nat.not_lt.1 (hnot hpos hpos' hj)) (Nat.not_lt.1 (hnot hpos' hpos hi))

/-- An offset, clamped to the text, has one more than the line feeds in front of it for its line,
and one more than the characters behind the last of these for its column. So positions stand in the
order of their offsets. An offset is found again where the line of its position begins, the column
less one further on, and whatever place there is in a line has its position. -/
theorem position_orderIso (source : SourceText) :
    (∀ offset : Int,
      let before := source.chars.toList.take (max 0 (min offset source.chars.size)).toNat
      source.position offset =
        ⟨1 + before.count '\n', 1 + (before.rtakeWhile (· != '\n')).length⟩) ∧
    StrictMonoOn (fun o : Nat => (source.position o).key) (Set.Iic source.chars.size) ∧
    (∀ offset : Int, ∃ i : Nat,
      (∀ j, IsLineStart source.chars.toList (source.position offset).line j ↔ j = i) ∧
        i + (source.position offset).column - 1 = max 0 (min offset source.chars.size)) ∧
    ∀ n i k : Nat, IsLineStart source.chars.toList n i → i + k ≤ source.chars.size →
      '\n' ∉ (source.chars.toList.drop i).take k →
      source.position (i + k : Nat) = ⟨n, k + 1⟩ := by
  refine ⟨fun offset => ?_, fun o _ o' ho' hlt => key_position_lt hlt ho', fun offset => ?_,
    fun n i k => position_of_isLineStart⟩
  · intro before
    rw [Nat.add_comm 1, Nat.add_comm 1]
    exact position_eq offset
  · have hclamp : source.position offset = source.position (source.clamp offset) := by
      rw [position_eq, position_eq_of_le (source.clamp_le offset)]
    obtain ⟨i, hi, hsum, -⟩ := exists_isLineStart (source.clamp_le offset)
    have hcolumn : 1 ≤ (source.position (source.clamp offset)).column := by
      rw [position_eq]
      exact Nat.le_add_left 1 _
    rw [hclamp]
    refine ⟨i, fun j => ⟨isLineStart_unique hi, fun hj => hj ▸ hi⟩, ?_⟩
    have hvalue : (source.clamp offset : Int) = max 0 (min offset source.chars.size) := by
      rw [clamp]
      omega
    omega

/-- The offset behind the last line feed is in a line without characters. -/
example : (ofString "ab\n\nc\n" "").position 6 = ⟨4, 1⟩ := by decide

end SourceText

/-! ### Places among the bytes of a text -/

namespace SourceText

variable {source : SourceText} {start middle stop : Int}

/-- The text in UTF-8. -/
def bytes (source : SourceText) : ByteArray := (String.ofList source.chars.toList).toByteArray

/-- The characters of two spans that adjoin, one behind the other. -/
theorem slice_append (hmiddle : start ≤ middle) (hstop : middle ≤ stop) :
    source.slice ⟨start, middle⟩ ++ source.slice ⟨middle, stop⟩ = source.slice ⟨start, stop⟩ := by
  simp only [slice, ← Array.toList_append, Array.extract_append_extract]
  congr 2 <;> omega

/-- The text is what stands in front of a place and what stands behind it. -/
theorem slice_append_drop (source : SourceText) (stop : Int) :
    source.slice ⟨0, stop⟩ ++ source.chars.toList.drop stop.toNat = source.chars.toList := by
  rw [slice, Array.toList_extract, List.extract_eq_take_drop]
  exact List.take_append_drop _ _

theorem byteSpan_start : (source.byteSpan ⟨start, stop⟩).start =
    ((source.slice ⟨0, start⟩).utf8Encode.size : Nat) := rfl

theorem byteSpan_stop (hstart : 0 ≤ start) (hstop : start ≤ stop) :
    (source.byteSpan ⟨start, stop⟩).stop = ((source.slice ⟨0, stop⟩).utf8Encode.size : Nat) := by
  rw [← slice_append hstart hstop, List.utf8Encode_append, ByteArray.size_append]
  rfl

/-- The place of a span holds the bytes of its text. -/
theorem extract_bytes (hstart : 0 ≤ start) (hstop : start ≤ stop) :
    source.bytes.extract (source.byteSpan ⟨start, stop⟩).start.toNat
        (source.byteSpan ⟨start, stop⟩).stop.toNat =
      (source.sliceText ⟨start, stop⟩).toByteArray := by
  have hbytes : source.bytes = (source.slice ⟨0, start⟩).utf8Encode ++
      ((source.slice ⟨start, stop⟩).utf8Encode ++
        (source.chars.toList.drop stop.toNat).utf8Encode) := by
    rw [bytes, String.toByteArray_ofList, ← List.utf8Encode_append, ← List.utf8Encode_append,
      ← List.append_assoc, slice_append hstart hstop, slice_append_drop]
  have hsize : (source.slice ⟨0, stop⟩).utf8Encode.size =
      (source.slice ⟨0, start⟩).utf8Encode.size + (source.slice ⟨start, stop⟩).utf8Encode.size := by
    rw [← slice_append hstart hstop, List.utf8Encode_append, ByteArray.size_append]
  rw [byteSpan_start, byteSpan_stop hstart hstop, Int.toNat_natCast, Int.toNat_natCast, hsize,
    sliceText, String.toByteArray_ofList, hbytes]
  have hextract := ByteArray.extract_append_size_add (a := (source.slice ⟨0, start⟩).utf8Encode)
    (b := (source.slice ⟨start, stop⟩).utf8Encode ++
      (source.chars.toList.drop stop.toNat).utf8Encode) (i := 0)
    (j := (source.slice ⟨start, stop⟩).utf8Encode.size)
  rw [Nat.add_zero] at hextract
  rw [hextract, ByteArray.extract_append_size_left, ByteArray.extract_zero_size]

/-- The place of a span among the bytes of the text holds the bytes of the span's text. The places
of two spans that adjoin do so too, and make up the place of the span that they make up. -/
theorem byteSpan_bytes (source : SourceText) :
    (∀ start stop : Int, 0 ≤ start → start ≤ stop →
      source.bytes.extract (source.byteSpan ⟨start, stop⟩).start.toNat
          (source.byteSpan ⟨start, stop⟩).stop.toNat =
        (source.sliceText ⟨start, stop⟩).toByteArray) ∧
    ∀ start middle stop : Int, 0 ≤ start → start ≤ middle → middle ≤ stop →
      (source.byteSpan ⟨start, middle⟩).stop = (source.byteSpan ⟨middle, stop⟩).start ∧
        source.byteSpan ⟨start, stop⟩ =
          ⟨(source.byteSpan ⟨start, middle⟩).start, (source.byteSpan ⟨middle, stop⟩).stop⟩ := by
  refine ⟨fun start stop => extract_bytes, fun start middle stop hstart hmiddle hstop => ⟨?_, ?_⟩⟩
  · rw [byteSpan_stop hstart hmiddle, byteSpan_start]
  · rw [byteSpan_stop (Int.le_trans hstart hmiddle) hstop,
      ← byteSpan_stop hstart (Int.le_trans hmiddle hstop)]
    rfl

/-- Characters of one to four bytes, and a span that reaches beyond the end of the text. -/
example : (ofString "aé€😀" "").byteSpan ⟨2, 9⟩ = ⟨3, 10⟩ := by decide +kernel

end SourceText

end PklSyntax
