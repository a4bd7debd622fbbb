import PklSyntax.Proofs.Moving.Shift
import PklSyntax.Proofs.Reading.Characters
import PklSyntax.Proofs.Reading.Trivia

/-!
# Texts that agree on a stretch

A declaration is read in the same way wherever it stands. To say so, two texts are compared that
agree on a stretch: in the right text it may lie elsewhere than in the left one. Questions about the
text that are asked inside the stretch have the same answers in both texts, up to the distance
between the two places.

Behind the stretch the texts differ. In both of them a declaration may end there: no token reaches
over that place, and behind the trivia that follow the text ends or another declaration begins. So a
sign that could go on with the declaration is found in neither text. Or the stretch is whole, which
means that both texts end with it.

## Main definitions

* `Ends`: a declaration may end at the offset.
* `glued`, `isName`, `isMark`: words and signs that do not reach over the end of a declaration.
* `Overlap`: two texts that agree on a stretch.
* `Overlap.place`: the place in the right text of an offset of the left one.

## Main statements

* `Overlap.matchesAt_place`, `Overlap.wordAt_place`, `Overlap.matchesAt_mark`: tokens.
* `Overlap.skipWhile_place`, `Overlap.nameEnd_place`: runs of characters.
* `Overlap.extract_place`: the text between two offsets.
-/

namespace PklSyntax

/-! ### Where declarations end -/

/-- The characters with which declarations begin. -/
def beginsDeclaration (c : Char) : Bool := c == '@' || c == backtick || startsName c

/-- The characters that can stand directly behind a declaration. -/
def mayFollow (c : Char) : Bool := isTriviaBlank c || c == '/' || beginsDeclaration c

/-- What stands at the offset goes on with no construct: the text ends there, or a declaration
begins that does not begin with a type test. -/
def Follows (text : Array Char) (i : Nat) : Prop :=
  text.size ≤ i ∨ beginsDeclaration (charAt text i) = true ∧ wordAt text "is" i = false ∧
    wordAt text "as" i = false

/-- A declaration may end at the offset: a token ends there, and behind the trivia that follow
nothing goes on with a construct. -/
structure Ends (text : Array Char) (i : Nat) : Prop where
  tokenEnd : TokenEnd text i
  closed : AllClosed text i
  follows : Follows text (skipEnd text i)

/-- No declaration ends between the two characters. -/
def sticks (a b : Char) : Bool :=
  !endsToken a || !mayFollow b || continuesName a && continuesName b

/-- No declaration ends between two characters of the word. -/
def glued : List Char → Bool
  | a :: b :: rest => sticks a b && glued (b :: rest)
  | _ => true

/-- No declaration ends in a word whose characters all are characters of names. -/
theorem glued_of_names {w : List Char} (h : ∀ c ∈ w, continuesName c = true) : glued w = true := by
  induction w with
  | nil => rfl
  | cons a w ih =>
    cases w with
    | nil => rfl
    | cons b rest =>
      rw [glued, ih fun c hc => h c (List.mem_cons_of_mem _ hc), sticks, h a List.mem_cons_self,
        h b (List.mem_cons_of_mem _ List.mem_cons_self)]
      simp

/-- The word consists of characters of names. -/
def isName (word : String) : Bool := !word.toList.isEmpty && word.toList.all continuesName

/-- A character that neither can stand directly behind a declaration nor marks the end. -/
def isSign (c : Char) : Bool := !mayFollow c && c != '\x00'

/-- A token that begins with a sign and in which no declaration ends. -/
def isMark (word : String) : Bool := glued word.toList && word.toList.head?.any isSign

variable {text : Array Char} {i e : Nat}

theorem glued_sticks {w : List Char} (h : glued w = true) {k : Nat} (hk : k + 1 < w.length) :
    sticks w[k] w[k + 1] = true := by
  induction w generalizing k with
  | nil => simp at hk
  | cons a w ih =>
    cases w with
    | nil => simp at hk
    | cons b rest =>
      rw [glued, Bool.and_eq_true] at h
      cases k with
      | zero => exact h.1
      | succ k => exact ih h.2 (by simpa using hk)

namespace Ends

theorem mayFollow (h : Ends text i) : text.size ≤ i ∨ mayFollow (charAt text i) = true := by
  rcases Nat.lt_or_ge i text.size with hlt | hge
  · refine .inr ?_
    cases hitem : triviaAt? text i with
    | none =>
      have hfollows := h.follows
      rw [skipEnd_of_none hitem] at hfollows
      rcases hfollows with hge | hbegins
      · omega
      · rw [PklSyntax.mayFollow, hbegins.1, Bool.or_true]
    | some item =>
      by_contra hnot
      rw [Bool.not_eq_true, PklSyntax.mayFollow, Bool.or_eq_false_iff, Bool.or_eq_false_iff] at hnot
      rw [triviaAt?_eq_none hnot.1.1 (by simpa using hnot.1.2)] at hitem
      simp at hitem
  · exact .inl hge

/-- No glued word stands across the end of a declaration. -/
theorem add_length_le (h : Ends text e) {w : List Char} (hglued : glued w = true) (hlt : i < e)
    (hmatch : charsMatchAt text i w = true) : i + w.length ≤ e := by
  by_contra hcross
  have hchars := charsMatchAt_eq_true.1 hmatch
  have hfirst := hchars (e - i - 1) (by omega)
  have hsecond := hchars (e - i - 1 + 1) (by omega)
  rw [show i + (e - i - 1) = e - 1 by omega] at hfirst
  rw [show i + (e - i - 1 + 1) = e by omega] at hsecond
  have hsticks := glued_sticks hglued (k := e - i - 1) (by omega)
  have hend := h.tokenEnd.endsToken
  have hapart := h.tokenEnd.apart
  rw [charAt_eq_of_getElem? hfirst] at hend hapart
  rw [charAt_eq_of_getElem? hsecond] at hapart
  have hfollow := h.mayFollow.resolve_left
    (Nat.not_le.2 (Array.getElem?_eq_some_iff.1 hsecond).1)
  rw [charAt_eq_of_getElem? hsecond] at hfollow
  rw [sticks, hend, hfollow] at hsticks
  simp only [Bool.not_true, Bool.false_or, Bool.and_eq_true] at hsticks
  rw [hapart hsticks.1] at hsticks
  exact Bool.false_ne_true hsticks.2

theorem charAt_ne (h : Ends text e) {c : Char} (hc : isSign c = true) : charAt text e ≠ c := by
  rw [isSign, Bool.and_eq_true, Bool.not_eq_true', bne_iff_ne] at hc
  rintro rfl
  rcases h.mayFollow with hge | hfollow
  · exact hc.2 (charAt_of_size_le hge)
  · exact Bool.false_ne_true (hc.1.symm.trans hfollow)

end Ends

namespace Follows

theorem charAt_ne (h : Follows text i) {c : Char} (hc : isSign c = true) : charAt text i ≠ c := by
  rw [isSign, Bool.and_eq_true, Bool.not_eq_true', bne_iff_ne] at hc
  rintro rfl
  rcases h with hsize | hbegins
  · exact hc.2 (charAt_of_size_le hsize)
  · rw [mayFollow, hbegins.1, Bool.or_true] at hc
    exact absurd hc.1 (by decide)

/-- What begins with a sign is found neither in front of a declaration nor at the end. -/
theorem matchesAt_mark {word : String} (h : Follows text i) (hmark : isMark word = true) :
    matchesAt text word i = false := by
  rw [isMark, Bool.and_eq_true] at hmark
  obtain ⟨c, hc, hsign⟩ := (Option.any_eq_true _ _).1 hmark.2
  rw [List.head?_eq_getElem?] at hc
  exact Bool.eq_false_iff.2 fun hmatch =>
    h.charAt_ne hsign (by simpa using charAt_of_matchesAt hmatch hc)

end Follows

/-! ### Two texts -/

/-- Two texts that agree on a stretch, which begins at `lo` in the left one and ends at `stop`, and
lies `offset` further on in the right one. Either a declaration may end there in both of them, or
the stretch is *whole*: it reaches to the end of both texts. -/
structure Overlap where
  left : Context
  right : Context
  lo : Nat
  stop : Nat
  offset : Int
  whole : Bool
  offset_le : 0 ≤ lo + offset
  agree : ∀ i : Nat, lo ≤ i → i < stop → right.text[(i + offset).toNat]? = left.text[i]?
  cut : whole = false → stop ≤ left.text.size ∧ Ends left.text stop ∧
    Ends right.text (stop + offset).toNat ∧
    (wordAt right.text "extends" (skipEnd right.text (stop + offset).toNat) = true →
      wordAt left.text "extends" (skipEnd left.text stop) = true)
  full : whole = true → stop = left.text.size + 1 ∧
    right.text.size = (left.text.size + offset).toNat ∧
    left.options.maxErrors = right.options.maxErrors

namespace Overlap

variable {W : Overlap} {i j n : Nat}

/-- The place in the right text of an offset of the left one. -/
def place (W : Overlap) (i : Nat) : Nat := (i + W.offset).toNat

/-- The right text holds everything at its place. -/
def shift (W : Overlap) : Placement := .shift W.offset

@[simp] theorem offset_shift (i : Int) : W.shift.offset i = i + W.offset := rfl

@[simp] theorem text_shift (text : String) : W.shift.text text = text := rfl

theorem cast_place (h : W.lo ≤ i) : ((W.place i : Nat) : Int) = i + W.offset := by
  have := W.offset_le
  rw [place]
  omega

theorem place_add (h : W.lo ≤ i) (n : Nat) : W.place (i + n) = W.place i + n := by
  have := cast_place h
  have := W.cast_place (i := i + n) (by omega)
  omega

theorem place_le (h : W.lo ≤ i) (hle : i ≤ j) : W.place i ≤ W.place j := by
  have := cast_place h
  have := W.cast_place (i := j) (by omega)
  omega

theorem place_lt (h : W.lo ≤ i) (hlt : i < j) : W.place i < W.place j := by
  have := cast_place h
  have := W.cast_place (i := j) (by omega)
  omega

theorem lt_of_place_lt (h : W.lo ≤ i) (hj : W.lo ≤ j) (hlt : W.place i < W.place j) : i < j := by
  have := cast_place h
  have := cast_place hj
  omega

/-- The offset lies in the common stretch. -/
def Inside (W : Overlap) (i : Nat) : Prop := i < W.stop ∨ W.whole = true

theorem getElem?_place (h : W.lo ≤ i) (hi : W.Inside i) :
    W.right.text[W.place i]? = W.left.text[i]? := by
  by_cases hlt : i < W.stop
  · exact W.agree i h hlt
  · obtain ⟨hstop, hsize, -⟩ := W.full (hi.resolve_left hlt)
    have := cast_place h
    rw [Array.getElem?_eq_none (by omega), Array.getElem?_eq_none (by omega)]

theorem charAt_place (h : W.lo ≤ i) (hi : W.Inside i) :
    charAt W.right.text (W.place i) = charAt W.left.text i := by
  have := getElem?_place h hi
  simp only [charAt, Array.getD_eq_getD_getElem?, this]

theorem lt_size_place (h : W.lo ≤ i) (hi : W.Inside i) :
    W.place i < W.right.text.size ↔ i < W.left.text.size := by
  have := getElem?_place h hi
  constructor
  · intro hlt
    rw [Array.getElem?_eq_getElem hlt] at this
    exact (Array.getElem?_eq_some_iff.1 this.symm).1
  · intro hlt
    rw [Array.getElem?_eq_getElem hlt] at this
    exact (Array.getElem?_eq_some_iff.1 this).1

/-- Also where the stretch ends the texts agree on which sign stands there. -/
theorem charAt_place_eq {c : Char} (hc : isSign c = true) (h : W.lo ≤ i)
    (hi : i ≤ W.stop ∨ W.whole = true) :
    charAt W.right.text (W.place i) = c ↔ charAt W.left.text i = c := by
  by_cases hin : W.Inside i
  · rw [charAt_place h hin]
  · rw [Inside, not_or, Bool.not_eq_true] at hin
    obtain ⟨-, hleft, hright, -⟩ := W.cut hin.2
    obtain rfl : i = W.stop := by
      rcases hi with hi | hi
      · omega
      · simp [hin.2] at hi
    exact iff_of_false (hright.charAt_ne hc) (hleft.charAt_ne hc)

theorem charsMatchAt_place {w : List Char} (hglued : glued w = true) (h : W.lo ≤ i)
    (hi : W.Inside i) : charsMatchAt W.right.text (W.place i) w = charsMatchAt W.left.text i w := by
  -- A word that stands in one of the texts does not reach behind the stretch.
  have hagree : ∀ n < w.length, W.Inside (i + w.length - 1) →
      W.right.text[W.place i + n]? = W.left.text[i + n]? := by
    intro n hn hin
    rw [← place_add h]
    exact getElem?_place (by omega) (hin.imp_left fun _ => by omega)
  have hinside :
      charsMatchAt W.right.text (W.place i) w = true ∨ charsMatchAt W.left.text i w = true →
      w ≠ [] → W.Inside (i + w.length - 1) := by
    intro hmatch hne
    have hlen := List.length_pos_iff.2 hne
    rcases Bool.eq_false_or_eq_true W.whole with hw | hw
    · exact .inr hw
    · obtain ⟨-, hleft, hright, -⟩ := W.cut hw
      have hlt : i < W.stop := hi.resolve_right (by simp [hw])
      refine .inl ?_
      rcases hmatch with hmatch | hmatch
      · have hle := hright.add_length_le hglued (place_lt h hlt) hmatch
        have := cast_place h
        have := W.cast_place (i := W.stop) (by omega)
        rw [show (W.stop + W.offset).toNat = W.place W.stop from rfl] at hle
        omega
      · have := hleft.add_length_le hglued hlt hmatch
        omega
  by_cases hne : w = []
  · rw [hne]
    rfl
  · rw [Bool.eq_iff_iff]
    constructor
    · intro hmatch
      refine charsMatchAt_eq_true.2 fun n hn => ?_
      rw [← hagree n hn (hinside (.inl hmatch) hne)]
      exact charsMatchAt_eq_true.1 hmatch n hn
    · intro hmatch
      refine charsMatchAt_eq_true.2 fun n hn => ?_
      rw [hagree n hn (hinside (.inr hmatch) hne)]
      exact charsMatchAt_eq_true.1 hmatch n hn

theorem matchesAt_place {word : String} (hglued : glued word.toList = true) (h : W.lo ≤ i)
    (hi : W.Inside i) : matchesAt W.right.text word (W.place i) = matchesAt W.left.text word i :=
  charsMatchAt_place hglued h hi

/-- A run of characters with a property does not go on where nothing with it follows. -/
theorem skipWhile_le {text : Array Char} {p : Char → Bool} {i e : Nat} (hi : i ≤ e)
    (hhalt : i = e ∨ p (charAt text (e - 1)) = true → p (charAt text e) = false) :
    skipWhile text p i ≤ e := by
  by_contra hnot
  have hrun := (@skipWhile_spec text i p).1
  have hend := (hrun e hi (by omega)).2
  refine Bool.false_ne_true ((hhalt ?_).symm.trans hend)
  rcases Nat.eq_or_lt_of_le hi with heq | hlt
  · exact .inl heq
  · exact .inr (hrun (e - 1) (by omega) (by omega)).2

/-- A run of characters with a property ends at the same place in both texts, when it ends in the
stretch. -/
theorem skipWhile_place {p : Char → Bool} (h : W.lo ≤ i)
    (hhalt : W.Inside (skipWhile W.left.text p i) ∨ skipWhile W.left.text p i = W.stop ∧
      p (charAt W.right.text (W.place W.stop)) = false) :
    skipWhile W.right.text p (W.place i) = W.place (skipWhile W.left.text p i) := by
  fun_induction skipWhile W.left.text p i with
  | case1 i hsize hp ih =>
    have hle := le_skipWhile W.left.text p (i + 1)
    have hin : W.Inside i := by
      rcases hhalt with hin | ⟨heq, -⟩
      · exact hin.imp_left fun _ => by omega
      · exact .inl (by omega)
    have hsize' := (lt_size_place h hin).2 hsize
    have hchar := charAt_place h hin
    rw [charAt_of_lt hsize, charAt_of_lt hsize'] at hchar
    rw [skipWhile, dif_pos hsize', hchar, if_pos hp, ← place_add h]
    exact ih (by omega) hhalt
  | case2 i hsize hp =>
    refine skipWhile_eq_self fun hsize' => ?_
    rcases hhalt with hin | ⟨rfl, hright⟩
    · have hchar := charAt_place h hin
      rw [charAt_of_lt hsize, charAt_of_lt hsize'] at hchar
      rw [hchar]
      simpa using hp
    · rwa [charAt_of_lt hsize'] at hright
  | case3 i hsize =>
    refine skipWhile_eq_self fun hsize' => ?_
    rcases hhalt with hin | ⟨rfl, hright⟩
    · exact absurd ((lt_size_place h hin).1 hsize') hsize
    · rwa [charAt_of_lt hsize'] at hright

theorem getElem?_extract_eq {α : Type} (as : Array α) (i j n : Nat) :
    (as.extract i j)[n]? = if n < j - i then as[i + n]? else none := by
  rw [Array.getElem?_extract]
  by_cases hn : n < j - i
  · rw [if_pos hn]
    split
    · rfl
    · exact (Array.getElem?_eq_none (by omega)).symm
  · rw [if_neg (by omega), if_neg hn]

/-- The texts between two offsets are the same. -/
theorem extract_place (hi : W.lo ≤ i) (hj : W.lo ≤ j) (hin : j ≤ W.stop ∨ W.whole = true) :
    W.right.text.extract (W.place i) (W.place j) = W.left.text.extract i j := by
  apply Array.ext_getElem?
  intro n
  have h := cast_place hi
  have h' := cast_place hj
  rw [getElem?_extract_eq, getElem?_extract_eq]
  by_cases hn : n < j - i
  · rw [if_pos (by omega), if_pos hn, ← place_add hi]
    exact getElem?_place (by omega) (hin.imp_left fun _ => by omega)
  · rw [if_neg (by omega), if_neg hn]

theorem sliceOf_place (hi : W.lo ≤ i) (hj : W.lo ≤ j) (hin : j ≤ W.stop ∨ W.whole = true) :
    sliceOf W.right.text (W.place i) (W.place j) = sliceOf W.left.text i j := by
  rw [sliceOf, extract_place hi hj hin, sliceOf]

theorem hasLineFeed_place (hi : W.lo ≤ i) (hj : W.lo ≤ j) (hin : j ≤ W.stop ∨ W.whole = true) :
    hasLineFeed W.right.text (W.place i) (W.place j) = hasLineFeed W.left.text i j := by
  rw [hasLineFeed, extract_place hi hj hin, hasLineFeed]

/-! ### Words and names -/

/-- The last character of a construct is not one with the property, so that a run of such characters
that begins in the stretch ends before it does. -/
theorem inside_skipWhile {p : Char → Bool} (hi : W.Inside i)
    (hp : ∀ c, endsToken c = true → p c = false) : W.Inside (skipWhile W.left.text p i) := by
  rcases Bool.eq_false_or_eq_true W.whole with hw | hw
  · exact .inr hw
  · obtain ⟨-, hleft, -, -⟩ := W.cut hw
    have hlt : i < W.stop := hi.resolve_right (by simp [hw])
    have hlast := hp _ hleft.tokenEnd.endsToken
    refine .inl (Nat.lt_of_not_ge fun hge => ?_)
    have := ((@skipWhile_spec W.left.text i p).1 (W.stop - 1) (by omega) (by omega)).2
    exact Bool.false_ne_true (hlast.symm.trans this)

theorem continuesName_of_cut (hw : W.whole = false)
    (hlast : continuesName (charAt W.left.text (W.stop - 1)) = true) (h : W.lo < W.stop) :
    continuesName (charAt W.left.text W.stop) = false ∧
      continuesName (charAt W.right.text (W.place W.stop)) = false := by
  obtain ⟨-, hleft, hright, -⟩ := W.cut hw
  refine ⟨hleft.tokenEnd.apart hlast, hright.tokenEnd.apart ?_⟩
  have hplace : (W.stop + W.offset).toNat - 1 = W.place (W.stop - 1) := by
    have := W.offset_le
    rw [place]
    omega
  rw [hplace, charAt_place (by omega) (.inl (by omega))]
  exact hlast

/-- A run of characters of names that begins in the stretch ends at the same place in both texts. -/
theorem nameEnd_place {p : Char → Bool} (h : W.lo ≤ i) (hi : W.Inside i)
    (hp : ∀ c, p c = true → continuesName c = true) :
    skipWhile W.right.text p (W.place i) = W.place (skipWhile W.left.text p i) ∧
      (skipWhile W.left.text p i ≤ W.stop ∨ W.whole = true) := by
  rcases Bool.eq_false_or_eq_true W.whole with hw | hw
  · exact ⟨skipWhile_place h (.inl (.inr hw)), .inr hw⟩
  · have hlt : i < W.stop := hi.resolve_right (by simp [hw])
    have hnot : ∀ {c}, continuesName c = false → p c = false := fun hc =>
      Bool.eq_false_iff.2 fun hpc => Bool.false_ne_true (hc.symm.trans (hp _ hpc))
    have hle : skipWhile W.left.text p i ≤ W.stop := by
      refine skipWhile_le (by omega) fun hor => ?_
      rcases hor with heq | hlast
      · omega
      · exact hnot (continuesName_of_cut hw (hp _ hlast) (by omega)).1
    refine ⟨skipWhile_place h ?_, .inl hle⟩
    rcases Nat.lt_or_eq_of_le hle with hlt' | heq
    · exact .inl (.inl hlt')
    · have hlast := ((@skipWhile_spec W.left.text i p).1 (W.stop - 1) (by omega) (by omega)).2
      exact .inr ⟨heq, hnot (continuesName_of_cut hw (hp _ hlast) (by omega)).2⟩

/-- A run of signs that begins in the stretch or where it ends, ends at the same place. -/
theorem signs_place {p : Char → Bool} (h : W.lo ≤ i) (hi : i ≤ W.stop ∨ W.whole = true)
    (hp : ∀ c, p c = true → isSign c = true) :
    skipWhile W.right.text p (W.place i) = W.place (skipWhile W.left.text p i) ∧
      (skipWhile W.left.text p i ≤ W.stop ∨ W.whole = true) := by
  rcases Bool.eq_false_or_eq_true W.whole with hw | hw
  · exact ⟨skipWhile_place h (.inl (.inr hw)), .inr hw⟩
  · obtain ⟨-, hleft, hright, -⟩ := W.cut hw
    have hnot : ∀ {text e}, Ends text e → p (charAt text e) = false := fun hends =>
      Bool.eq_false_iff.2 fun hpc => hends.charAt_ne (hp _ hpc) rfl
    have hle : skipWhile W.left.text p i ≤ W.stop :=
      skipWhile_le (hi.resolve_right (by simp [hw])) fun _ => hnot hleft
    refine ⟨skipWhile_place h ?_, .inl hle⟩
    rcases Nat.lt_or_eq_of_le hle with hlt | heq
    · exact .inl (.inl hlt)
    · exact .inr ⟨heq, hnot hright⟩

theorem wordAt_place {word : String} (hword : isName word = true) (h : W.lo ≤ i)
    (hi : W.Inside i) : wordAt W.right.text word (W.place i) = wordAt W.left.text word i := by
  rw [isName, Bool.and_eq_true, List.all_eq_true] at hword
  rw [wordAt, wordAt, matchesAt_place (glued_of_names hword.2) h hi]
  cases hmatch : matchesAt W.left.text word i with
  | false => rw [Bool.false_and, Bool.false_and]
  | true =>
    rw [Bool.true_and, Bool.true_and, ← place_add h]
    have hlen : 0 < word.toList.length := List.length_pos_iff.2 (by simpa using hword.1)
    by_cases hin : W.Inside (i + word.length)
    · rw [charAt_place (by omega) hin]
    · -- The word is the last one of the stretch.
      rw [Inside, not_or, Bool.not_eq_true] at hin
      have hlt : i < W.stop := hi.resolve_right (by simp [hin.2])
      have hle := (W.cut hin.2).2.1.add_length_le (glued_of_names hword.2) hlt hmatch
      rw [String.length_toList] at hle hlen
      have hstop : W.stop = i + word.length := by omega
      have hindex : word.length - 1 < word.toList.length := by
        rw [String.length_toList]
        omega
      have hlast : continuesName (charAt W.left.text (W.stop - 1)) = true := by
        rw [show W.stop - 1 = i + (word.length - 1) by omega,
          charAt_eq_of_getElem? (charsMatchAt_eq_true.1 hmatch _ hindex)]
        exact hword.2 _ (List.getElem_mem hindex)
      obtain ⟨hleft, hright⟩ := continuesName_of_cut hin.2 hlast (by omega)
      rw [← hstop, hleft, hright]

/-- Where a token stands that begins with a sign, also at the end of the stretch. -/
theorem matchesAt_mark {word : String} (hmark : isMark word = true) (h : W.lo ≤ i)
    (hi : i ≤ W.stop ∨ W.whole = true) :
    matchesAt W.right.text word (W.place i) = matchesAt W.left.text word i := by
  rw [isMark, Bool.and_eq_true] at hmark
  by_cases hin : W.Inside i
  · exact matchesAt_place hmark.1 h hin
  · obtain ⟨c, hc, hsign⟩ := (Option.any_eq_true _ _).1 hmark.2
    rw [List.head?_eq_getElem?] at hc
    rw [Inside, not_or, Bool.not_eq_true] at hin
    obtain rfl : i = W.stop := by
      rcases hi with hi | hi
      · omega
      · simp [hin.2] at hi
    obtain ⟨-, hleft, hright, -⟩ := W.cut hin.2
    have hnone : ∀ {text e}, Ends text e → matchesAt text word e = false := fun hends =>
      Bool.eq_false_iff.2 fun hmatch =>
        hends.charAt_ne hsign (by simpa using charAt_of_matchesAt hmatch hc)
    rw [hnone hleft]
    exact hnone hright

end Overlap

end PklSyntax
