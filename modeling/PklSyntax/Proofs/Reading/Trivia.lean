import PklSyntax.Cursor.Trivia

/-!
# What trivia are

A stretch of a text holds nothing but trivia when it can be cut into blanks, comments to the end of
a line, and closed comments between `/*` and `*/`. A line of documentation is a comment to the end
of its line, so blocks of documentation need no item of their own.

The items that a parser finds at an offset make up such a stretch as long as no comment among them
is left open, and each doc comment among them cuts the stretch in two. Where they end nothing more
is found: skipping trivia twice is skipping them once.

## Main definitions

* `TriviaRun`: the text between two offsets holds trivia only.
* `skipEnd`, `docsFrom`: where the trivia from an offset on end, and the doc comments among them.
* `AllClosed`: no comment among the trivia from an offset on is left open.

## Main statements

* `skipEnd_skipEnd`: nothing more is found where trivia end.
* `triviaRun_skipEnd`: what is skipped is trivia.
* `docsFrom_getLast?`: where the last doc comment stands that was found on the way.
-/

namespace PklSyntax

variable {text : Array Char} {i j k : Nat}

/-! ### Words and runs of characters -/

theorem charAt_of_lt (h : i < text.size) : charAt text i = text[i] := by
  simp [charAt, Array.getD, h]

theorem charAt_of_size_le (h : text.size ≤ i) : charAt text i = '\x00' := by
  simp [charAt, Array.getD, Nat.not_lt.2 h]

theorem charAt_eq_of_getElem? {c : Char} (h : text[i]? = some c) : charAt text i = c := by
  obtain ⟨hi, rfl⟩ := Array.getElem?_eq_some_iff.1 h
  exact charAt_of_lt hi

theorem lt_size_of_charAt_ne (h : charAt text i ≠ '\x00') : i < text.size :=
  Nat.lt_of_not_ge fun hi => h (charAt_of_size_le hi)

theorem charsMatchAt_eq_true {word : List Char} :
    charsMatchAt text i word = true ↔ ∀ n, (h : n < word.length) → text[i + n]? = some word[n] := by
  induction word generalizing i with
  | nil => simp [charsMatchAt]
  | cons c rest ih =>
    simp only [charsMatchAt, Bool.and_eq_true, beq_iff_eq, ih]
    constructor
    · rintro ⟨hc, hrest⟩ n hn
      cases n with
      | zero => simpa using hc
      | succ n =>
        have := hrest n (by simpa using hn)
        simpa [Nat.add_assoc, Nat.add_comm 1] using this
    · intro h
      refine ⟨h 0 (by simp), fun n hn => ?_⟩
      have := h (n + 1) (by simpa using hn)
      simpa [Nat.add_assoc, Nat.add_comm 1] using this

theorem add_length_le_of_matchesAt {word : String} (h : matchesAt text word i = true)
    (hne : word ≠ "") : i + word.length ≤ text.size := by
  have hlen : 0 < word.toList.length := by
    rw [String.length_toList]
    exact Nat.pos_of_ne_zero fun h0 => hne (String.length_eq_zero_iff.1 h0)
  have hlast := charsMatchAt_eq_true.1 h (word.toList.length - 1) (by omega)
  have hlt := (Array.getElem?_eq_some_iff.1 hlast).1
  rw [← String.length_toList]
  omega

theorem charAt_of_matchesAt {word : String} {n : Nat} {c : Char}
    (h : matchesAt text word i = true) (hc : word.toList[n]? = some c) : charAt text (i + n) = c := by
  obtain ⟨hn, rfl⟩ := List.getElem?_eq_some_iff.1 hc
  exact charAt_eq_of_getElem? (charsMatchAt_eq_true.1 h n hn)

theorem skipWhile_eq_self (h : ∀ hi : i < text.size, p text[i] = false) :
    skipWhile text p i = i := by
  rw [skipWhile]
  split
  · rename_i hi
    simp [h hi]
  · rfl

theorem lt_skipWhile {p : Char → Bool} (hi : i < text.size) (h : p (charAt text i) = true) :
    i < skipWhile text p i := by
  rw [charAt_of_lt hi] at h
  rw [skipWhile, dif_pos hi, if_pos h]
  exact le_skipWhile text p (i + 1)

theorem skipWhile_spec (p : Char → Bool) :
    (∀ n, i ≤ n → n < skipWhile text p i → n < text.size ∧ p (charAt text n) = true) ∧
      (skipWhile text p i < text.size → p (charAt text (skipWhile text p i)) = false) := by
  fun_induction skipWhile text p i with
  | case1 i hi hp ih =>
    refine ⟨fun n hin hn => ?_, ih.2⟩
    rcases Nat.eq_or_lt_of_le hin with rfl | hlt
    · exact ⟨hi, by rwa [charAt_of_lt hi]⟩
    · exact ih.1 n hlt hn
  | case2 i hi hp => exact ⟨fun n hin hn => by omega, fun _ => by simpa [charAt_of_lt hi] using hp⟩
  | case3 i hi => exact ⟨fun n hin hn => by omega, fun h => absurd h hi⟩

theorem findFrom?_eq_some {word : String} (h : findFrom? text word i = some k) :
    i ≤ k ∧ matchesAt text word k = true ∧
      ∀ n, i ≤ n → n < k → matchesAt text word n = false := by
  fun_induction findFrom? text word i with
  | case1 i hm =>
    obtain rfl : i = k := by simpa using h
    exact ⟨Nat.le_refl _, hm, fun n _ _ => by omega⟩
  | case2 i hm hi ih =>
    obtain ⟨hle, hk, hfirst⟩ := ih h
    refine ⟨by omega, hk, fun n hin hn => ?_⟩
    rcases Nat.eq_or_lt_of_le hin with rfl | hlt
    · simpa using hm
    · exact hfirst n hlt hn
  | case3 => simp at h

/-! ### Trivia -/

/-- The text from `i` up to `j` is a sequence of blanks, comments to the end of the line, and
comments between `/*` and the first `*/` behind it. -/
inductive TriviaRun (text : Array Char) : Nat → Nat → Prop
  | nil (i : Nat) : TriviaRun text i i
  | blank {i j : Nat} (hi : i < text.size) (hblank : isTriviaBlank (charAt text i) = true)
      (rest : TriviaRun text (i + 1) j) : TriviaRun text i j
  | lineComment {i k j : Nat} (hopen : matchesAt text "//" i = true) (hle : i + 2 ≤ k)
      (hline : ∀ n, i ≤ n → n < k → charAt text n ≠ '\n')
      (hstop : k = text.size ∨ charAt text k = '\n') (rest : TriviaRun text k j) :
      TriviaRun text i j
  | blockComment {i k j : Nat} (hopen : matchesAt text "/*" i = true) (hle : i + 2 ≤ k)
      (hclose : matchesAt text "*/" k = true)
      (hfirst : ∀ n, i + 2 ≤ n → n < k → matchesAt text "*/" n = false)
      (rest : TriviaRun text (k + 2) j) : TriviaRun text i j

namespace TriviaRun

theorem trans (h : TriviaRun text i j) (h' : TriviaRun text j k) : TriviaRun text i k := by
  induction h with
  | nil => exact h'
  | blank hi hblank _ ih => exact .blank hi hblank (ih h')
  | lineComment hopen hle hline hstop _ ih => exact .lineComment hopen hle hline hstop (ih h')
  | blockComment hopen hle hclose hfirst _ ih =>
    exact .blockComment hopen hle hclose hfirst (ih h')

theorem le (h : TriviaRun text i j) : i ≤ j := by
  induction h with
  | nil => exact Nat.le_refl _
  | blank | lineComment | blockComment => omega

/-- Blanks are trivia. -/
theorem blanks {p : Char → Bool} (hp : ∀ c, p c = true → isTriviaBlank c = true) (i : Nat) :
    TriviaRun text i (skipWhile text p i) := by
  fun_induction skipWhile text p i with
  | case1 i hi hpi ih => exact .blank hi (by rw [charAt_of_lt hi]; exact hp _ hpi) ih
  | case2 i => exact .nil i
  | case3 i => exact .nil i

end TriviaRun

/-- The offset at which the trivia from an offset on end. -/
def skipEnd (text : Array Char) (i : Nat) : Nat := (triviaFrom text i).2

/-- The doc comments among the trivia from an offset on. -/
def docsFrom (text : Array Char) (i : Nat) : List DocComment :=
  (triviaFrom text i).1.filterMap Trivia.doc?

/-- No comment among the trivia from an offset on is left open. -/
def AllClosed (text : Array Char) (i : Nat) : Prop :=
  (triviaFrom text i).1.filterMap Trivia.diagnostic? = []

theorem matchesAt_line_of_doc (h : matchesAt text "///" i = true) :
    matchesAt text "//" i = true := by
  have hchars := charsMatchAt_eq_true.1 h
  refine charsMatchAt_eq_true.2 fun n hn => ?_
  have hn' : n < 2 := hn
  match n, hn' with
  | 0, _ => exact hchars 0 (by decide)
  | 1, _ => exact hchars 1 (by decide)

theorem isInLine_slash : isInLine '/' = true := by decide

/-- A comment to the end of the line covers the characters that open it. -/
theorem add_two_le_lineEnd (h : matchesAt text "//" i = true) :
    i + 2 ≤ skipWhile text isInLine i := by
  have hsize := add_length_le_of_matchesAt h (by decide)
  have h0 := charAt_of_matchesAt h (show ("//".toList)[0]? = some '/' from rfl)
  have h1 := charAt_of_matchesAt h (show ("//".toList)[1]? = some '/' from rfl)
  have hlen : "//".length = 2 := rfl
  have hlt : i < skipWhile text isInLine i :=
    lt_skipWhile (by omega) (by rw [← Nat.add_zero i, h0]; exact isInLine_slash)
  have hlt' : i + 1 < skipWhile text isInLine (i + 1) :=
    lt_skipWhile (by omega) (by rw [h1]; exact isInLine_slash)
  rw [skipWhile, dif_pos (by omega), if_pos]
  · omega
  · rw [← charAt_of_lt (by omega), ← Nat.add_zero i, h0]
    exact isInLine_slash

/-- What a comment to the end of the line takes in is trivia. -/
theorem TriviaRun.line (h : matchesAt text "//" i = true) :
    TriviaRun text i (skipWhile text isInLine i) := by
  have hsize := add_length_le_of_matchesAt h (by decide)
  refine .lineComment h (add_two_le_lineEnd h) (fun n hin hn => ?_) ?_ (.nil _)
  · have := ((skipWhile_spec isInLine).1 n hin hn).2
    simpa [isInLine] using this
  · rcases Nat.lt_or_ge (skipWhile text isInLine i) text.size with hlt | hge
    · have := (skipWhile_spec isInLine).2 hlt
      exact .inr (by simpa [isInLine] using this)
    · have := skipWhile_le_size text isInLine (i := i) (by omega)
      exact .inl (by omega)

theorem isTriviaBlank_of_isIndent (c : Char) (h : isIndent c = true) : isTriviaBlank c = true := by
  simp only [isIndent, Bool.or_eq_true] at h
  rcases h with h | h <;> simp [isTriviaBlank, h]

/-- Where a block of documentation ends, and that it is trivia. -/
theorem docBlockFrom_spec (h : matchesAt text "///" i = true) :
    i + 2 ≤ (docBlockFrom text i).2 ∧ (docBlockFrom text i).2 ≤ text.size ∧
      TriviaRun text i (docBlockFrom text i).2 := by
  have hsize := add_length_le_of_matchesAt h (by decide)
  have hline := TriviaRun.line (matchesAt_line_of_doc h)
  have hle := add_two_le_lineEnd (matchesAt_line_of_doc h)
  fun_induction docBlockFrom text i with
  | case1 i stop line next hnext lines last hlast ih =>
    simp only [Bool.and_eq_true, decide_eq_true_eq] at hnext
    obtain ⟨hstop, hdoc⟩ := hnext
    have hsize' := add_length_le_of_matchesAt hdoc (by decide)
    have hih := ih hdoc hsize' (TriviaRun.line (matchesAt_line_of_doc hdoc))
      (add_two_le_lineEnd (matchesAt_line_of_doc hdoc))
    rw [hlast] at hih
    have hbreak : charAt text stop = '\n' := by
      have := (skipWhile_spec isInLine).2 hstop
      simpa [isInLine] using this
    have hblank : TriviaRun text stop next :=
      .blank hstop (by rw [hbreak]; decide) (TriviaRun.blanks isTriviaBlank_of_isIndent _)
    have := hblank.le
    exact ⟨by simp only; omega, hih.2.1, hline.trans (hblank.trans hih.2.2)⟩
  | case2 i stop line next hnext =>
    exact ⟨hle, skipWhile_le_size text isInLine (by omega), hline⟩

/-- An item of trivia is not empty and lies in the text, and unless it is left open its text is
trivia. -/
theorem triviaAt?_spec {item : Trivia} (h : triviaAt? text i = some item) :
    i < item.stop ∧ item.stop ≤ text.size ∧
      (item.diagnostic? = none → TriviaRun text i item.stop) := by
  rw [triviaAt?] at h
  split at h
  next hi =>
    split at h
    next hblank =>
      cases h
      exact ⟨lt_skipWhile hi hblank, skipWhile_le_size _ _ (Nat.le_of_lt hi),
        fun _ => TriviaRun.blanks (fun _ h => h) i⟩
    next =>
      split at h
      next hdoc =>
        obtain ⟨hlt, hle, hrun⟩ := docBlockFrom_spec hdoc
        cases h
        exact ⟨by simp only [Trivia.stop]; omega, hle, fun _ => hrun⟩
      next =>
        split at h
        next hline =>
          have := add_two_le_lineEnd hline
          cases h
          exact ⟨by simp only [Trivia.stop]; omega, skipWhile_le_size _ _ (Nat.le_of_lt hi),
            fun _ => TriviaRun.line hline⟩
        next =>
          split at h
          next hopen =>
            split at h
            next close hfind =>
              obtain ⟨hle, hclose, hfirst⟩ := findFrom?_eq_some hfind
              have hsize := add_length_le_of_matchesAt hclose (by decide)
              have hlen : "*/".length = 2 := rfl
              cases h
              exact ⟨by simp only [Trivia.stop]; omega, by simp only [Trivia.stop]; omega,
                fun _ => .blockComment hopen hle hclose hfirst (.nil _)⟩
            next =>
              cases h
              exact ⟨hi, Nat.le_refl _, fun h => by simp [Trivia.diagnostic?] at h⟩
          next => simp at h
  next => simp at h

/-- A comment that is not closed begins where it is found, and reaches to the end of the text. -/
theorem triviaAt?_unclosedComment {start stop : Nat}
    (h : triviaAt? text i = some (.unclosedComment start stop)) :
    start = i ∧ stop = text.size ∧ matchesAt text "/*" i = true := by
  rw [triviaAt?] at h
  split at h
  next =>
    split at h
    next => cases h
    split at h
    next => cases h
    split at h
    next => cases h
    split at h
    next hopen =>
      split at h
      next => cases h
      next =>
        cases h
        exact ⟨rfl, rfl, hopen⟩
    next => cases h
  next => cases h

/-- The trivia from an offset on are the item there and then the trivia behind it. -/
theorem triviaFrom_of_some {item : Trivia} (h : triviaAt? text i = some item) :
    triviaFrom text i =
      (item :: (triviaFrom text item.stop).1, (triviaFrom text item.stop).2) := by
  obtain ⟨hlt, hle, -⟩ := triviaAt?_spec h
  rw [triviaFrom, h]
  simp only
  rw [if_pos ⟨hlt, by omega⟩]

theorem triviaFrom_of_none (h : triviaAt? text i = none) : triviaFrom text i = ([], i) := by
  rw [triviaFrom, h]

/-- Induction along the trivia from an offset on. -/
theorem trivia_induction (text : Array Char) {motive : Nat → Prop}
    (stop : ∀ i, triviaAt? text i = none → motive i)
    (item : ∀ i item, triviaAt? text i = some item → motive item.stop → motive i)
    (i : Nat) : motive i := by
  fun_induction triviaFrom text i with
  | case1 i h => exact stop i h
  | case2 i it h _ _ _ _ ih => exact item i it h ih
  | case3 i it h hnot =>
    obtain ⟨hlt, hle, -⟩ := triviaAt?_spec h
    exact absurd ⟨hlt, by omega⟩ hnot

theorem skipEnd_of_none (h : triviaAt? text i = none) : skipEnd text i = i := by
  rw [skipEnd, triviaFrom_of_none h]

theorem skipEnd_of_some {item : Trivia} (h : triviaAt? text i = some item) :
    skipEnd text i = skipEnd text item.stop := by
  rw [skipEnd, triviaFrom_of_some h, skipEnd]

theorem triviaAt?_skipEnd (i : Nat) : triviaAt? text (skipEnd text i) = none := by
  induction i using trivia_induction text with
  | stop i h => rwa [skipEnd_of_none h]
  | item i item h ih => rwa [skipEnd_of_some h]

/-- Nothing more is found where trivia end. -/
theorem skipEnd_skipEnd (i : Nat) : skipEnd text (skipEnd text i) = skipEnd text i :=
  skipEnd_of_none (triviaAt?_skipEnd i)

theorem docsFrom_skipEnd (i : Nat) : docsFrom text (skipEnd text i) = [] := by
  rw [docsFrom, triviaFrom_of_none (triviaAt?_skipEnd i)]
  rfl

theorem allClosed_skipEnd (i : Nat) : AllClosed text (skipEnd text i) := by
  rw [AllClosed, triviaFrom_of_none (triviaAt?_skipEnd i)]
  rfl

theorem le_skipEnd (i : Nat) : i ≤ skipEnd text i := by
  induction i using trivia_induction text with
  | stop i h => exact Nat.le_of_eq (skipEnd_of_none h).symm
  | item i item h ih =>
    have := (triviaAt?_spec h).1
    rw [skipEnd_of_some h]
    omega

theorem skipEnd_le_size (h : i ≤ text.size) : skipEnd text i ≤ text.size := by
  induction i using trivia_induction text with
  | stop i hi => rwa [skipEnd_of_none hi]
  | item i item hi ih =>
    rw [skipEnd_of_some hi]
    exact ih (triviaAt?_spec hi).2.1

/-- What is skipped is trivia, unless a comment is left open. -/
theorem triviaRun_skipEnd (h : AllClosed text i) : TriviaRun text i (skipEnd text i) := by
  induction i using trivia_induction text with
  | stop i hi =>
    rw [skipEnd_of_none hi]
    exact .nil i
  | item i item hi ih =>
    rw [AllClosed, triviaFrom_of_some hi, List.filterMap_cons] at h
    rw [skipEnd_of_some hi]
    cases hd : item.diagnostic? with
    | some d => simp [hd] at h
    | none =>
      rw [hd] at h
      exact ((triviaAt?_spec hi).2.2 hd).trans (ih h)

/-- No trivia begin with a character that is neither blank nor a slash. -/
theorem triviaAt?_eq_none (hblank : isTriviaBlank (charAt text i) = false)
    (hslash : charAt text i ≠ '/') : triviaAt? text i = none := by
  have hno (word : String) (hword : word.toList[0]? = some '/') :
      ¬ matchesAt text word i = true := fun h =>
    hslash (by rw [← Nat.add_zero i]; exact charAt_of_matchesAt h hword)
  rw [triviaAt?]
  split
  · rw [if_neg (by simp [hblank]), if_neg (hno "///" rfl), if_neg (hno "//" rfl),
      if_neg (hno "/*" rfl)]
  · rfl

theorem triviaAt?_size_le (h : text.size ≤ i) : triviaAt? text i = none := by
  rw [triviaAt?, if_neg (Nat.not_lt.2 h)]

/-! ### Doc comments among the trivia -/

theorem triviaAt?_docBlock {item : Trivia} {doc : DocComment} (h : triviaAt? text i = some item)
    (hdoc : item.doc? = some doc) : doc.span = .ofNat i item.stop := by
  rw [triviaAt?] at h
  split at h
  next =>
    split at h
    next => cases h; simp [Trivia.doc?] at hdoc
    next =>
      split at h
      next => cases h; cases hdoc; rfl
      next =>
        split at h
        next => cases h; simp [Trivia.doc?] at hdoc
        next =>
          split at h
          next => split at h <;> (cases h; simp [Trivia.doc?] at hdoc)
          next => simp at h
  next => simp at h

/-- The last doc comment of a stretch of trivia stands in it, and the trivia from there on are the
rest of the stretch. -/
theorem docsFrom_getLast? {doc : DocComment} (h : (docsFrom text i).getLast? = some doc) :
    ∃ start stop : Nat, doc.span = .ofNat start stop ∧ i ≤ start ∧ start < stop ∧
      stop ≤ skipEnd text i ∧ skipEnd text start = skipEnd text i ∧
      (docsFrom text start).getLast? = some doc ∧
      (AllClosed text i → TriviaRun text i start ∧ AllClosed text start) := by
  induction i using trivia_induction text with
  | stop i hi =>
    rw [docsFrom, triviaFrom_of_none hi] at h
    simp at h
  | item i item hi ih =>
    obtain ⟨hlt, -, hrun⟩ := triviaAt?_spec hi
    have hdocs : docsFrom text i = item.doc?.toList ++ docsFrom text item.stop := by
      rw [docsFrom, triviaFrom_of_some hi, List.filterMap_cons]
      cases item.doc? <;> rfl
    have hend := skipEnd_of_some hi
    cases hrest : (docsFrom text item.stop).getLast? with
    | some last =>
      have hlast : last = doc := by
        rw [hdocs, List.getLast?_append, hrest] at h
        simpa using h
      obtain ⟨start, stop, hspan, hle, hne, hstop, hskip, hdoc, hclosed⟩ := ih (hlast ▸ hrest)
      refine ⟨start, stop, hspan, by omega, hne, by omega, by rw [hskip, hend], hdoc, fun hall => ?_⟩
      rw [AllClosed, triviaFrom_of_some hi, List.filterMap_cons] at hall
      cases hd : item.diagnostic? with
      | some d => simp [hd] at hall
      | none =>
        rw [hd] at hall
        exact ⟨(hrun hd).trans (hclosed hall).1, (hclosed hall).2⟩
    | none =>
      have hdoc : item.doc? = some doc := by
        rw [hdocs, List.getLast?_append, hrest] at h
        cases hd : item.doc? <;> simp_all
      have hle := @le_skipEnd text item.stop
      exact ⟨i, item.stop, triviaAt?_docBlock hi hdoc, Nat.le_refl _, hlt, by omega, rfl, h,
        fun hall => ⟨.nil i, hall⟩⟩

end PklSyntax
