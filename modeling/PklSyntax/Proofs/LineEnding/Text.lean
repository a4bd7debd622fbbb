import Mathlib.Order.Monotone.Basic
import PklSyntax.Proofs.Growth.Literal
import PklSyntax.Proofs.Placement.Tree

/-!
# Texts with other line endings

A text without carriage returns gets other line endings: a carriage return is put in front of every
line feed. All offsets move, by one for each line feed in front of them, and at the new place of an
offset stands the character that stood there, or the carriage return of a line feed.

What can be asked of a text at an offset has the same answer at the new place, as long as the
question does not tell the two apart: whether a word stands there, where a run of characters ends,
which text lies between two offsets. A run that ends at line feeds but takes carriage returns in ends
one place further on.

## Main definitions

* `withReturns`, `crlfText`: a text with other line endings.
* `InLine`: a word without line endings.
* `LineFeeds`: a text without carriage returns, and the options under which it is read.
* `LineFeeds.crlf`, `LineFeeds.place`: the text with other line endings, and the new offsets.
* `LineFeeds.placement`: how a tree is placed that was read from the text.

## Main statements

* `LineFeeds.charAt_place`, `LineFeeds.matchesAt_place`, `LineFeeds.skipWhile_place`.
* `LineFeeds.sliceOf_place`, `LineFeeds.hasLineFeed_place`.
-/

namespace PklSyntax

/-! ### Other line endings -/

/-- The characters with a carriage return in front of every line feed. -/
def withReturns (chars : List Char) : List Char :=
  chars.flatMap fun c => if c = '\n' then ['\r', '\n'] else [c]

/-- The text with a carriage return in front of every line feed. -/
def crlfText (text : String) : String := String.ofList (withReturns text.toList)

/-- The first of the characters that stand for `c`. -/
def lineEnd (c : Char) : Char := if c = '\n' then '\r' else c

section Characters

variable {c d : Char} {chars rest : List Char}

@[simp] theorem withReturns_nil : withReturns [] = [] := rfl

@[simp] theorem withReturns_append :
    withReturns (chars ++ rest) = withReturns chars ++ withReturns rest := by
  simp [withReturns]

theorem withReturns_lineFeed : withReturns ('\n' :: rest) = '\r' :: '\n' :: withReturns rest := rfl

theorem withReturns_cons (hc : c ≠ '\n') : withReturns (c :: rest) = c :: withReturns rest := by
  simp [withReturns, hc]

theorem length_withReturns (chars : List Char) :
    (withReturns chars).length = chars.length + chars.count '\n' := by
  induction chars with
  | nil => rfl
  | cons c rest ih =>
    by_cases hc : c = '\n'
    · subst hc
      rw [withReturns_lineFeed, List.count_cons_self]
      simp only [List.length_cons, ih]
      omega
    · rw [withReturns_cons hc, List.count_cons_of_ne hc]
      simp only [List.length_cons, ih]
      omega

/-- A text without line feeds stays as it is. -/
theorem withReturns_eq_self (h : '\n' ∉ chars) : withReturns chars = chars := by
  induction chars with
  | nil => rfl
  | cons c rest ih =>
    rw [List.mem_cons, not_or] at h
    rw [withReturns_cons (Ne.symm h.1), ih h.2]

theorem take_withReturns (chars : List Char) (i : Nat) :
    (withReturns chars).take (i + (chars.take i).count '\n') = withReturns (chars.take i) := by
  have hsplit : withReturns chars = withReturns (chars.take i) ++ withReturns (chars.drop i) := by
    rw [← withReturns_append, List.take_append_drop]
  rcases Nat.le_total i chars.length with hi | hi
  · rw [hsplit, List.take_left' (by rw [length_withReturns, List.length_take_of_le hi])]
  · rw [List.take_of_length_le hi, List.take_of_length_le (by rw [length_withReturns]; omega)]

theorem drop_withReturns {i : Nat} (hi : i ≤ chars.length) :
    (withReturns chars).drop (i + (chars.take i).count '\n') = withReturns (chars.drop i) := by
  have hsplit : withReturns chars = withReturns (chars.take i) ++ withReturns (chars.drop i) := by
    rw [← withReturns_append, List.take_append_drop]
  rw [hsplit, List.drop_left' (by rw [length_withReturns, List.length_take_of_le hi])]

theorem mem_withReturns : '\n' ∈ withReturns chars ↔ '\n' ∈ chars := by
  induction chars with
  | nil => simp
  | cons c rest ih =>
    by_cases hc : c = '\n'
    · subst hc
      simp [withReturns_lineFeed]
    · rw [withReturns_cons hc, List.mem_cons, List.mem_cons, ih]

/-- A text without line feeds stays as it is. -/
theorem crlfText_eq_self {text : String} (h : '\n' ∉ text.toList) : crlfText text = text := by
  rw [crlfText, withReturns_eq_self h, String.ofList_toList]

@[simp] theorem lineEnd_lineFeed : lineEnd '\n' = '\r' := rfl

theorem lineEnd_of_ne (hc : c ≠ '\n') : lineEnd c = c := if_neg hc

/-- Line endings are told from other characters in both texts. -/
theorem lineEnd_beq (hd : d ≠ '\n' ∧ d ≠ '\r') : (lineEnd c == d) = (c == d) := by
  by_cases hc : c = '\n'
  · subst hc
    rw [lineEnd_lineFeed, beq_eq_false_iff_ne.2 (Ne.symm hd.1), beq_eq_false_iff_ne.2 (Ne.symm hd.2)]
  · rw [lineEnd_of_ne hc]

/-- A class of characters that does not tell line endings apart holds the same characters. -/
theorem lineEnd_class {p : Char → Bool} (hp : p '\r' = p '\n') (c : Char) : p (lineEnd c) = p c := by
  by_cases hc : c = '\n'
  · subst hc
    exact hp
  · rw [lineEnd_of_ne hc]

end Characters

/-- The word lies within a line. -/
abbrev InLine (word : String) : Prop := '\n' ∉ word.toList ∧ '\r' ∉ word.toList

/-- A text in which no carriage returns stand, and the options under which it is read. -/
structure LineFeeds where
  text : Array Char
  options : Options
  noReturn : '\r' ∉ text.toList

namespace LineFeeds

variable (W : LineFeeds)

/-- The text with other line endings. -/
def crlf : Array Char := (withReturns W.text.toList).toArray

/-- The offset that takes the place of an offset of the text. -/
def place (i : Nat) : Nat := i + (W.text.toList.take i).count '\n'

variable {W} {i j n : Nat}

/-! ### Places -/

theorem place_zero : W.place 0 = 0 := by simp [place]

theorem place_succ_of_lineFeed (h : charAt W.text i = '\n') : W.place (i + 1) = W.place i + 2 := by
  have hi : i < W.text.size := lt_size_of_charAt_ne (by rw [h]; decide)
  rw [charAt_of_lt hi] at h
  rw [place, place, List.take_add_one, List.count_append, Array.getElem?_toList,
    Array.getElem?_eq_getElem hi, h]
  simp only [Option.toList_some, List.count_singleton_self]
  omega

theorem place_succ (h : charAt W.text i ≠ '\n') : W.place (i + 1) = W.place i + 1 := by
  have hcount : (W.text[i]?.toList).count '\n' = 0 := by
    rw [List.count_eq_zero]
    intro hmem
    rw [Option.mem_toList] at hmem
    exact h (charAt_eq_of_getElem? hmem)
  rw [place, place, List.take_add_one, List.count_append, Array.getElem?_toList, hcount]
  omega

theorem place_lt_place_succ (i : Nat) : W.place i < W.place (i + 1) := by
  by_cases h : charAt W.text i = '\n'
  · rw [place_succ_of_lineFeed h]
    omega
  · rw [place_succ h]
    omega

theorem strictMono_place : StrictMono W.place := strictMono_nat_of_lt_succ place_lt_place_succ

@[simp] theorem place_le_place : W.place i ≤ W.place j ↔ i ≤ j := strictMono_place.le_iff_le

@[simp] theorem place_lt_place : W.place i < W.place j ↔ i < j := strictMono_place.lt_iff_lt

@[simp] theorem place_inj : W.place i = W.place j ↔ i = j := strictMono_place.injective.eq_iff

theorem place_size : W.place W.text.size = W.crlf.size := by
  rw [place, crlf, ← Array.length_toList, List.take_length, List.size_toArray, length_withReturns]

@[simp] theorem place_lt_size : W.place i < W.crlf.size ↔ i < W.text.size := by
  rw [← place_size, place_lt_place]

@[simp] theorem size_le_place : W.crlf.size ≤ W.place i ↔ W.text.size ≤ i := by
  rw [← place_size, place_le_place]

theorem min_size_place : min W.crlf.size (W.place i) = W.place (min W.text.size i) := by
  rcases Nat.le_total W.text.size i with h | h
  · rw [Nat.min_eq_left h, Nat.min_eq_left (size_le_place.2 h), place_size]
  · rw [Nat.min_eq_right h, Nat.min_eq_right]
    rwa [← place_size, place_le_place]

/-- Between the places of two offsets lie at least as many as between the offsets. -/
theorem sub_le_place_sub (h : i ≤ j) : j - i ≤ W.place j - W.place i := by
  induction j, h using Nat.le_induction with
  | base => omega
  | succ j hj ih =>
    have := @place_lt_place_succ W j
    have := (@place_le_place W i j).2 hj
    omega

/-- Behind a place lie at least as many characters as behind the offset. -/
theorem size_sub_le (i : Nat) : W.text.size - i ≤ W.crlf.size - W.place i := by
  rcases Nat.le_total i W.text.size with hle | hle
  · exact place_size ▸ sub_le_place_sub hle
  · omega

/-! ### Characters at places -/

theorem toList_crlf : W.crlf.toList = withReturns W.text.toList := rfl

theorem drop_crlf (h : i ≤ W.text.size) :
    W.crlf.toList.drop (W.place i) = withReturns (W.text.toList.drop i) :=
  drop_withReturns (by simpa using h)

theorem drop_text (hi : i < W.text.size) :
    W.text.toList.drop i = charAt W.text i :: W.text.toList.drop (i + 1) := by
  rw [charAt_of_lt hi, ← Array.getElem_toList (by simpa using hi), ← List.drop_eq_getElem_cons]

/-- At the new place of an offset stands its character, or a carriage return for a line feed. -/
theorem getElem?_place (i : Nat) : W.crlf[W.place i]? = W.text[i]?.map lineEnd := by
  rcases Nat.lt_or_ge i W.text.size with hi | hi
  · have hget : W.crlf[W.place i]? = (W.crlf.toList.drop (W.place i))[0]? := by simp
    rw [hget, drop_crlf (Nat.le_of_lt hi), drop_text hi, Array.getElem?_eq_getElem hi, ← charAt_of_lt hi]
    by_cases hc : charAt W.text i = '\n'
    · rw [hc]
      rfl
    · rw [withReturns_cons hc, Option.map_some, lineEnd_of_ne hc]
      rfl
  · rw [Array.getElem?_eq_none hi, Array.getElem?_eq_none (size_le_place.2 hi)]
    rfl

@[simp] theorem charAt_place (i : Nat) : charAt W.crlf (W.place i) = lineEnd (charAt W.text i) := by
  rw [charAt, charAt, Array.getD_eq_getD_getElem?, getElem?_place, Array.getD_eq_getD_getElem?]
  cases W.text[i]? <;> rfl

/-- Behind the carriage return stands the line feed. -/
theorem charAt_place_add_one (h : charAt W.text i = '\n') : charAt W.crlf (W.place i + 1) = '\n' := by
  have hi : i < W.text.size := lt_size_of_charAt_ne (by rw [h]; decide)
  have hget : W.crlf[W.place i + 1]? = (W.crlf.toList.drop (W.place i))[1]? := by simp
  rw [drop_crlf (Nat.le_of_lt hi), drop_text hi, h, withReturns_lineFeed] at hget
  exact charAt_eq_of_getElem? hget

theorem charAt_ne_return (i : Nat) : charAt W.text i ≠ '\r' := by
  intro h
  have hi : i < W.text.size := lt_size_of_charAt_ne (by rw [h]; decide)
  rw [charAt_of_lt hi] at h
  exact W.noReturn (h ▸ Array.getElem_mem_toList hi)

/-! ### Words -/

/-- A word within a line stands at the new place of an offset where it stood at the offset. -/
theorem matchesAt_place {word : String} (hword : InLine word) (i : Nat) :
    matchesAt W.crlf word (W.place i) = matchesAt W.text word i := by
  obtain ⟨hfeed, hreturn⟩ := hword
  rw [matchesAt, matchesAt]
  generalize word.toList = chars at hfeed hreturn
  induction chars generalizing i with
  | nil => rfl
  | cons c rest ih =>
    rw [List.mem_cons, not_or] at hfeed hreturn
    have hrest := ih (i + 1) hfeed.2 hreturn.2
    rw [charsMatchAt, charsMatchAt, getElem?_place]
    cases hc : W.text[i]? with
    | none => rfl
    | some d =>
      have hbeq : (some (lineEnd d) == some c) = (some d == some c) :=
        lineEnd_beq ⟨Ne.symm hfeed.1, Ne.symm hreturn.1⟩
      rw [Option.map_some, hbeq]
      cases heq : (some d == some c) with
      | false => rfl
      | true =>
        obtain rfl : d = c := by simpa using heq
        rw [place_succ (by rw [charAt_eq_of_getElem? hc]; exact Ne.symm hfeed.1)] at hrest
        rw [hrest]

variable (W) in
/-- No line feed stands between the two offsets. -/
def OnLine (i j : Nat) : Prop := ∀ k, i ≤ k → k < j → charAt W.text k ≠ '\n'

theorem OnLine.trans (h : W.OnLine i j) (h' : W.OnLine j n) : W.OnLine i n := by
  intro m hle hlt
  rcases Nat.lt_or_ge m j with hm | hm
  · exact h m hle hm
  · exact h' m hm hlt

theorem OnLine.mono (h : W.OnLine i j) {i' : Nat} (hle : i ≤ i') : W.OnLine i' j :=
  fun k hk hlt => h k (Nat.le_trans hle hk) hlt

theorem onLine_self (i : Nat) : W.OnLine i i := fun _ hle hlt => absurd hlt (Nat.not_lt.2 hle)

theorem onLine_succ (h : charAt W.text i ≠ '\n') : W.OnLine i (i + 1) := by
  intro k hle hlt
  obtain rfl : k = i := by omega
  exact h

/-- Within a line all places move by the same number. -/
theorem place_add (h : W.OnLine i (i + n)) : W.place (i + n) = W.place i + n := by
  induction n with
  | zero => rfl
  | succ n ih =>
    rw [← Nat.add_assoc, place_succ (h _ (by omega) (by omega)), ih fun k hle hlt => h k hle (by omega)]
    rfl

theorem onLine_of_matchesAt {word : String} (hword : InLine word)
    (h : matchesAt W.text word i = true) (hn : n ≤ word.length) : W.OnLine i (i + n) := by
  refine fun k hle hlt hbreak => hword.1 ?_
  have hget := charsMatchAt_eq_true.1 h (k - i) (by rw [String.length_toList]; omega)
  rw [Nat.add_sub_cancel' hle] at hget
  rw [← hbreak, charAt_eq_of_getElem? hget]
  exact List.getElem_mem _

theorem ne_lineFeed_of_matchesAt {word : String} (hword : InLine word ∧ 1 ≤ word.length)
    (h : matchesAt W.text word i = true) : charAt W.text i ≠ '\n' :=
  onLine_of_matchesAt hword.1 h hword.2 i (Nat.le_refl _) (Nat.lt_succ_self _)

/-- A word within a line is as long in both texts. -/
theorem place_add_of_matchesAt {word : String} (hword : InLine word)
    (h : matchesAt W.text word i = true) (hn : n ≤ word.length) : W.place (i + n) = W.place i + n :=
  place_add (onLine_of_matchesAt hword h hn)

/-- A word that does not go on as a longer name is the same in both texts. -/
theorem wordAt_place {word : String} (hword : InLine word) (i : Nat) :
    wordAt W.crlf word (W.place i) = wordAt W.text word i := by
  rw [wordAt, wordAt, matchesAt_place hword]
  cases h : matchesAt W.text word i with
  | false => rw [Bool.false_and, Bool.false_and]
  | true =>
    rw [← place_add_of_matchesAt hword h (Nat.le_refl _), charAt_place,
      lineEnd_class (p := continuesName) (by decide)]

/-- Behind a character within a line stands the next one. -/
theorem charAt_place_succ (h : charAt W.text i ≠ '\n') :
    charAt W.crlf (W.place i + 1) = lineEnd (charAt W.text (i + 1)) := by
  rw [← place_succ h, charAt_place]

/-- A sign and what is asked of the character behind it. -/
theorem sign_and {d : Char} {p : Char → Bool} (hd : d ≠ '\n' ∧ d ≠ '\r') (hp : p '\r' = p '\n')
    (i : Nat) : (lineEnd (charAt W.text i) == d && p (charAt W.crlf (W.place i + 1))) =
      (charAt W.text i == d && p (charAt W.text (i + 1))) := by
  rw [lineEnd_beq hd]
  cases h : charAt W.text i == d with
  | false => rfl
  | true =>
    rw [charAt_place_succ (by rw [beq_iff_eq.1 h]; exact hd.1), lineEnd_class hp]

/-- The first place at which a word stands. -/
theorem findFrom?_place {word : String} (hword : InLine word) (i : Nat) :
    findFrom? W.crlf word (W.place i) = (findFrom? W.text word i).map W.place := by
  fun_induction findFrom? W.text word i with
  | case1 i h => rw [findFrom?, if_pos (by rwa [matchesAt_place hword])]; rfl
  | case2 i h hi ih =>
    rw [findFrom?, if_neg (by rwa [matchesAt_place hword]), if_pos (place_lt_size.2 hi)]
    by_cases hbreak : charAt W.text i = '\n'
    · -- A word that stands at the line feed itself would begin with it.
      have hno : ¬matchesAt W.crlf word (W.place i + 1) = true := by
        intro hmatch
        rw [matchesAt] at h hmatch
        cases hchars : word.toList with
        | nil => exact h (by rw [hchars]; rfl)
        | cons c rest =>
          rw [hchars, charsMatchAt, Bool.and_eq_true, beq_iff_eq] at hmatch
          have hc := (charAt_place_add_one hbreak).symm.trans (charAt_eq_of_getElem? hmatch.1)
          exact hword.1 (by rw [hchars, ← hc]; exact List.mem_cons_self)
      rw [place_succ_of_lineFeed hbreak] at ih
      rw [findFrom?, if_neg hno, if_pos, ih]
      rw [← place_size]
      have := (@place_le_place W (i + 1) W.text.size).2 hi
      rw [place_succ_of_lineFeed hbreak] at this
      omega
    · rw [← place_succ hbreak]
      exact ih
  | case3 i h hi =>
    rw [findFrom?, if_neg (by rwa [matchesAt_place hword]), if_neg (by rwa [place_lt_size])]
    rfl

/-! ### Runs of characters -/

omit W in
/-- A run takes a word in whose characters belong to it. -/
theorem add_length_le_skipWhile {text : Array Char} {p : Char → Bool} {word : String}
    (h : matchesAt text word i = true) (hp : word.toList.all p = true) :
    i + word.length ≤ skipWhile text p i := by
  by_contra hlt
  have hle := le_skipWhile text p i
  have hget := charsMatchAt_eq_true.1 h (skipWhile text p i - i) (by rw [String.length_toList]; omega)
  rw [Nat.add_sub_cancel' hle] at hget
  have hstop := (@skipWhile_spec text i p).2 (Array.getElem?_eq_some_iff.1 hget).1
  rw [charAt_eq_of_getElem? hget, List.all_eq_true.1 hp _ (List.getElem_mem _)] at hstop
  cases hstop

/-- Where a run of characters ends that does not tell line endings apart. -/
theorem skipWhile_place {p : Char → Bool} (hp : p '\r' = p '\n') (i : Nat) :
    skipWhile W.crlf p (W.place i) = W.place (skipWhile W.text p i) := by
  have hstep {i : Nat} (hi : i < W.text.size) (hlt : W.place i < W.crlf.size) :
      p W.crlf[W.place i] = p W.text[i] := by
    rw [← charAt_of_lt hlt, charAt_place, lineEnd_class hp, charAt_of_lt hi]
  fun_induction skipWhile W.text p i with
  | case1 i hi h ih =>
    rw [skipWhile, dif_pos (place_lt_size.2 hi), if_pos ((hstep hi _).trans h)]
    by_cases hbreak : charAt W.text i = '\n'
    · rw [place_succ_of_lineFeed hbreak] at ih
      have hlt : W.place i + 1 < W.crlf.size :=
        lt_size_of_charAt_ne (by rw [charAt_place_add_one hbreak]; decide)
      rw [skipWhile, dif_pos hlt, if_pos]
      · exact ih
      · rw [← charAt_of_lt hlt, charAt_place_add_one hbreak, ← hbreak, charAt_of_lt hi]
        exact h
    · rw [← place_succ hbreak]
      exact ih
  | case2 i hi h =>
    rw [skipWhile, dif_pos (place_lt_size.2 hi), if_neg (by rwa [hstep hi])]
  | case3 i hi => rw [skipWhile, dif_neg (by rwa [place_lt_size])]

variable (W) in
/-- The offset at which a line ends that ended at `k`: its carriage return belongs to it. -/
def lineStop (k : Nat) : Nat := if charAt W.text k = '\n' then W.place k + 1 else W.place k

theorem lineStop_of_ne (h : charAt W.text i ≠ '\n') : W.lineStop i = W.place i := if_neg h

theorem lineStop_of_lineFeed (h : charAt W.text i = '\n') : W.lineStop i = W.place i + 1 := if_pos h

@[simp] theorem lineStop_lt_size : W.lineStop i < W.crlf.size ↔ i < W.text.size := by
  by_cases hbreak : charAt W.text i = '\n'
  · have hi : i < W.text.size := lt_size_of_charAt_ne (by rw [hbreak]; decide)
    rw [lineStop_of_lineFeed hbreak]
    exact iff_of_true (lt_size_of_charAt_ne (by rw [charAt_place_add_one hbreak]; decide)) hi
  · rw [lineStop_of_ne hbreak, place_lt_size]

/-- Where a run of characters ends that goes on up to line feeds. -/
theorem skipWhile_place_line {p : Char → Bool} (hreturn : p '\r' = true) (hfeed : p '\n' = false)
    (i : Nat) : skipWhile W.crlf p (W.place i) = W.lineStop (skipWhile W.text p i) := by
  fun_induction skipWhile W.text p i with
  | case1 i hi h ih =>
    have hbreak : charAt W.text i ≠ '\n' := by
      rw [charAt_of_lt hi]
      intro heq
      rw [heq, hfeed] at h
      cases h
    rw [skipWhile, dif_pos (place_lt_size.2 hi), if_pos, ← place_succ hbreak]
    · exact ih
    · rw [← charAt_of_lt, charAt_place, lineEnd_of_ne hbreak, charAt_of_lt hi]
      exact h
  | case2 i hi h =>
    rw [lineStop]
    split
    next hbreak =>
      have hlt : W.place i + 1 < W.crlf.size :=
        lt_size_of_charAt_ne (by rw [charAt_place_add_one hbreak]; decide)
      rw [skipWhile, dif_pos (place_lt_size.2 hi), if_pos, skipWhile, dif_pos hlt, if_neg]
      · rw [← charAt_of_lt hlt, charAt_place_add_one hbreak, hfeed]
        decide
      · rw [← charAt_of_lt, charAt_place, hbreak]
        exact hreturn
    next hbreak =>
      rw [skipWhile, dif_pos (place_lt_size.2 hi), if_neg]
      rw [← charAt_of_lt, charAt_place, lineEnd_of_ne hbreak, charAt_of_lt hi]
      exact h
  | case3 i hi =>
    rw [skipWhile, dif_neg (by rwa [place_lt_size]), lineStop, if_neg]
    rw [charAt_of_size_le (Nat.le_of_not_lt hi)]
    decide

/-- A run that ends at line feeds lies within a line. -/
theorem onLine_run {p : Char → Bool} (hp : p '\n' = false) (i : Nat) :
    W.OnLine i (skipWhile W.text p i) := by
  intro k hle hlt hbreak
  have h := ((skipWhile_spec p).1 k hle hlt).2
  rw [hbreak, hp] at h
  cases h

/-! ### Parts of a text -/

theorem toList_extract_place (i j : Nat) :
    (W.crlf.extract (W.place i) (W.place j)).toList = withReturns (W.text.extract i j).toList := by
  rw [Array.toList_extract, Array.toList_extract, List.extract_eq_take_drop, List.extract_eq_take_drop,
    ← List.drop_take, ← List.drop_take, toList_crlf, place, place, take_withReturns]
  rcases Nat.le_total i j with hij | hij
  · rcases Nat.le_total i W.text.toList.length with hi | hi
    · have htake : W.text.toList.take i = (W.text.toList.take j).take i := by
        rw [List.take_take, Nat.min_eq_left hij]
      rw [htake, drop_withReturns (by rw [List.length_take]; omega)]
    · have hcount : (W.text.toList.take j).count '\n' ≤ (W.text.toList.take i).count '\n' := by
        rw [List.take_of_length_le hi, List.take_of_length_le (Nat.le_trans hi hij)]
      rw [List.drop_eq_nil_of_le, List.drop_eq_nil_of_le, withReturns_nil]
      · rw [List.length_take]
        omega
      · rw [length_withReturns, List.length_take]
        omega
  · have hcount := (List.take_sublist_take_left hij (l := W.text.toList)).count_le '\n'
    rw [List.drop_eq_nil_of_le, List.drop_eq_nil_of_le, withReturns_nil]
    · rw [List.length_take]
      omega
    · rw [length_withReturns, List.length_take]
      omega

/-- The text between two places is the text between the two offsets, with other line endings. -/
theorem sliceOf_place (i j : Nat) :
    sliceOf W.crlf (W.place i) (W.place j) = crlfText (sliceOf W.text i j) := by
  rw [sliceOf, sliceOf, crlfText, toList_extract_place, String.toList_ofList]

/-- No line feed stands in the text between two offsets on one line. -/
theorem not_mem_extract (h : W.OnLine i j) :
    '\n' ∉ (W.text.extract i j).toList := by
  intro hmem
  rw [Array.mem_toList_iff, Array.mem_extract_iff_getElem] at hmem
  obtain ⟨k, hk, heq⟩ := hmem
  exact h (i + k) (by omega) (by omega) (by rw [charAt_of_lt (by omega), heq])

/-- What stands within a line is the same text. -/
theorem crlfText_sliceOf (h : W.OnLine i j) :
    crlfText (sliceOf W.text i j) = sliceOf W.text i j := by
  rw [crlfText_eq_self]
  rw [sliceOf, String.toList_ofList]
  exact not_mem_extract h

theorem hasLineFeed_place (i j : Nat) :
    hasLineFeed W.crlf (W.place i) (W.place j) = hasLineFeed W.text i j := by
  rw [Bool.eq_iff_iff, hasLineFeed, hasLineFeed, Array.contains_iff_mem, Array.contains_iff_mem,
    ← Array.mem_toList_iff, ← Array.mem_toList_iff, toList_extract_place, mem_withReturns]

/-! ### Placed trees -/

variable (W) in
/-- How a tree is placed that was read from the text. A doc comment takes in the carriage return with
which its last line ends. -/
def placement : Placement where
  offset i := i + (W.text.toList.take i.toNat).count '\n'
  docStop i := i + (W.text.toList.take i.toNat).count '\n' +
    if charAt W.text i.toNat = '\n' then 1 else 0
  text := crlfText
  mono {i j} h := by
    have hcount := (List.take_sublist_take_left (l := W.text.toList)
      (Int.toNat_le_toNat h)).count_le '\n'
    omega

@[simp] theorem text_placement : W.placement.text = crlfText := rfl

@[simp] theorem offset_natCast (i : Nat) : W.placement.offset i = W.place i := rfl

@[simp] theorem toNat_offset (i : Int) : (W.placement.offset i).toNat = W.place i.toNat := by
  rcases Int.le_total 0 i with h | h
  · obtain ⟨n, rfl⟩ := Int.eq_ofNat_of_zero_le h
    rfl
  · have hzero : i.toNat = 0 := Int.toNat_of_nonpos h
    simp only [placement, place, hzero, List.take_zero, List.count_nil]
    omega

/-- Places are in the order of the offsets. -/
@[simp] theorem offset_le_offset {i j : Int} : W.placement.offset i ≤ W.placement.offset j ↔ i ≤ j := by
  refine ⟨fun h => ?_, W.placement.mono⟩
  by_contra hlt
  have hcount := (List.take_sublist_take_left (l := W.text.toList)
    (Int.toNat_le_toNat (Int.le_of_lt (Int.not_le.1 hlt)))).count_le '\n'
  simp only [placement] at h
  omega

@[simp] theorem offset_inj {i j : Int} : W.placement.offset i = W.placement.offset j ↔ i = j := by
  refine ⟨fun h => ?_, congrArg _⟩
  exact Int.le_antisymm (offset_le_offset.1 (Int.le_of_eq h)) (offset_le_offset.1 (Int.le_of_eq h.symm))

@[simp] theorem span_ofNat (i j : Nat) :
    W.placement.span (.ofNat i j) = .ofNat (W.place i) (W.place j) := rfl

theorem docStop_natCast (i : Nat) : W.placement.docStop i = W.lineStop i := by
  rw [lineStop]
  simp only [placement, place, Int.toNat_natCast]
  split <;> simp

end LineFeeds

end PklSyntax
