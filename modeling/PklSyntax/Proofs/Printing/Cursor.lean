import PklSyntax.Proofs.Printing.Tokens
import PklSyntax.Proofs.Printing.Results

/-!
# Reading a line of tokens

A parser that is given a text of tokens with one blank between them is followed from token to token.
The cursor is *at* some tokens when it stands in front of the first of them, and *behind* what comes
before them when there is a blank yet to be skipped. Nothing is recorded on the way, so that of a
state only the offset of the cursor matters.

What the grammar asks about the cursor is then a question about the first token alone, since no
token goes on beyond the blank that follows it.

## Main definitions

* `joined`, `spaced`: the characters of tokens with blanks between them, and in front of each.
* `At`, `Behind`, `Near`: where the cursor is.
* `Parser.Reads`: a parser comes to a result.
* `Parser.Loops`: a loop comes to a result.

## Main statements

* `Near.skip`: skipping trivia leads to the first token.
* `At.matchesAt`, `At.wordAt`: what stands at the cursor.
* `Parser.Loops.repeating`: loops.
-/

namespace PklSyntax

/-! ### The rest of a text -/

section Rest

variable {text : Array Char} {i : Nat} {l : List Char}

theorem charAt_of_drop (h : text.toList.drop i = l) (n : Nat) :
    charAt text (i + n) = l[n]?.getD '\x00' := by
  rw [← h, List.getElem?_drop, Array.getElem?_toList, charAt, Array.getD_eq_getD_getElem?]

theorem charsMatchAt_of_drop (h : text.toList.drop i = l) (word : List Char) :
    charsMatchAt text i word = word.isPrefixOf l := by
  induction word generalizing i l with
  | nil => simp [charsMatchAt]
  | cons c rest ih =>
    rw [charsMatchAt]
    cases l with
    | nil =>
      have hlen : text.size ≤ i := by
        rw [← Array.length_toList]
        exact List.drop_eq_nil_iff.1 h
      rw [Array.getElem?_eq_none hlen]
      rfl
    | cons d tail =>
      have hi : text[i]? = some d := by
        rw [← Array.getElem?_toList, ← List.head?_drop, h]
        rfl
      have htail : text.toList.drop (i + 1) = tail := by
        rw [← List.drop_drop, h]
        rfl
      rw [ih htail, hi, List.isPrefixOf]
      congr 1
      rw [Bool.eq_iff_iff, beq_iff_eq, beq_iff_eq, Option.some.injEq]
      exact eq_comm

theorem matchesAt_of_drop (h : text.toList.drop i = l) (word : String) :
    matchesAt text word i = word.toList.isPrefixOf l :=
  charsMatchAt_of_drop h word.toList

theorem skipWhile_of_drop (h : text.toList.drop i = l) (p : Char → Bool) :
    skipWhile text p i = i + (l.takeWhile p).length := by
  fun_induction skipWhile text p i generalizing l with
  | case1 i hi hp ih =>
    have hl : l = text[i] :: text.toList.drop (i + 1) := by
      rw [← h, ← Array.getElem_toList hi]
      exact List.drop_eq_getElem_cons (by simpa using hi)
    rw [ih rfl, hl, List.takeWhile_cons, if_pos hp, List.length_cons]
    omega
  | case2 i hi hp =>
    have hl : l = text[i] :: text.toList.drop (i + 1) := by
      rw [← h, ← Array.getElem_toList hi]
      exact List.drop_eq_getElem_cons (by simpa using hi)
    rw [hl, List.takeWhile_cons, if_neg hp]
    rfl
  | case3 i hi =>
    have hl : l = [] := by rw [← h, List.drop_eq_nil_iff]; simpa using Nat.not_lt.1 hi
    rw [hl]
    rfl

theorem drop_add {rest : List Char} (chars : List Char)
    (h : text.toList.drop i = chars ++ rest) : text.toList.drop (i + chars.length) = rest := by
  rw [← List.drop_drop, h, List.drop_left]

theorem drop_one {c : Char} {rest : List Char}
    (h : text.toList.drop i = c :: rest) : text.toList.drop (i + 1) = rest :=
  drop_add [c] h

theorem add_length_le_size {rest : List Char} (chars : List Char)
    (h : text.toList.drop i = chars ++ rest) (hchars : chars ≠ []) :
    i + chars.length ≤ text.size := by
  have hlen := congrArg List.length h
  have hpos := List.length_pos_iff.2 hchars
  rw [List.length_drop, List.length_append, Array.length_toList] at hlen
  omega

/-- What is left where the characters with a property end. -/
theorem drop_skipWhile (h : text.toList.drop i = l) (p : Char → Bool) :
    text.toList.drop (skipWhile text p i) = l.dropWhile p := by
  rw [skipWhile_of_drop h]
  exact drop_add _ (by rw [h, List.takeWhile_append_dropWhile])

theorem sliceOf_of_drop {a b : List Char} (h : text.toList.drop i = a ++ b) :
    sliceOf text i (i + a.length) = String.ofList a := by
  rw [sliceOf, Array.toList_extract, List.extract_eq_take_drop, h]
  simp

/-- A word stands in front of some characters, and no name goes on behind it, when it is all that
there is of a name. -/
theorem isPrefixOf_and_ends {word : List Char} (hword : ∀ c ∈ word, continuesName c = true)
    (l : List Char) :
    (word.isPrefixOf l && !continuesName (l[word.length]?.getD '\x00')) =
      (l.takeWhile continuesName == word) := by
  induction l generalizing word with
  | nil => cases word <;> rfl
  | cons d l ih =>
    cases word with
    | nil =>
      rw [List.takeWhile_cons]
      cases hd : continuesName d <;> simp [hd]
    | cons c cs =>
      have ih := ih fun c hc => hword c (List.mem_cons_of_mem _ hc)
      have hc := hword c List.mem_cons_self
      simp only [List.isPrefixOf, List.length_cons, List.getElem?_cons_succ, Bool.and_assoc, ih,
        List.takeWhile_cons]
      by_cases hcd : c = d
      · subst hcd
        simp [hc]
      · have hne : (c == d) = false := beq_false_of_ne hcd
        cases hd : continuesName d with
        | true => simp [hne, Ne.symm hcd]
        | false => simp [hne]

theorem wordAt_of_drop (h : text.toList.drop i = l) (word : String)
    (hword : word.toList.all continuesName = true) :
    wordAt text word i = (String.ofList (l.takeWhile continuesName) == word) := by
  rw [wordAt, matchesAt_of_drop h, charAt_of_drop h, ← String.length_toList,
    isPrefixOf_and_ends (List.all_eq_true.1 hword), Bool.eq_iff_iff, beq_iff_eq, beq_iff_eq, ← String.toList_inj,
    String.toList_ofList]

theorem wordSlice_of_drop (h : text.toList.drop i = l) :
    sliceOf text i (skipWhile text continuesName i) =
      String.ofList (l.takeWhile continuesName) := by
  rw [skipWhile_of_drop h]
  exact sliceOf_of_drop (by rw [h, List.takeWhile_append_dropWhile])

end Rest

/-! ### Tokens with blanks between them -/

/-- The characters of tokens, with a blank in front of each. -/
def spaced : List String → List Char
  | [] => []
  | token :: tokens => ' ' :: (token.toList ++ spaced tokens)

/-- The first of the tokens, nothing when there are none. -/
def firstToken (tokens : List String) : String := tokens.head?.getD ""

/-- The characters of tokens, with a blank between them. -/
def joined (tokens : List String) : List Char := (firstToken tokens).toList ++ spaced tokens.tail

/-- The word with which the first of the tokens begins, nothing when it begins with a sign. -/
def firstWord (tokens : List String) : String :=
  String.ofList ((firstToken tokens).toList.takeWhile continuesName)

theorem spaced_cons (token : String) (tokens : List String) :
    spaced (token :: tokens) = ' ' :: joined (token :: tokens) := rfl

theorem spaced_append (as bs : List String) : spaced (as ++ bs) = spaced as ++ spaced bs := by
  induction as with
  | nil => rfl
  | cons a as ih => simp [spaced, ih]

/-- Where a blank or the end follows, no character but a blank follows. -/
theorem spaced_getD (tokens : List String) :
    (spaced tokens)[0]?.getD '\x00' = ' ' ∨ (spaced tokens)[0]?.getD '\x00' = '\x00' := by
  cases tokens with
  | nil => exact .inr rfl
  | cons token tokens => exact .inl rfl

/-- What goes on in front of a blank does not go on behind it. -/
theorem takeWhile_spaced {p : Char → Bool} (hp : p ' ' = false) (chars : List Char)
    (tokens : List String) : (chars ++ spaced tokens).takeWhile p = chars.takeWhile p := by
  induction chars with
  | nil =>
    cases tokens with
    | nil => rfl
    | cons token tokens => simp [spaced, hp]
  | cons c chars ih => simp only [List.cons_append, List.takeWhile_cons, ih]

/-- A word without blanks that stands in front of a blank does not reach over it. -/
theorem isPrefixOf_spaced {word : List Char} (hblank : ' ' ∉ word) (chars : List Char)
    (tokens : List String) : word.isPrefixOf (chars ++ spaced tokens) = word.isPrefixOf chars := by
  induction chars generalizing word with
  | nil =>
    cases word with
    | nil => rfl
    | cons c cs =>
      have hne : (c == ' ') = false := by
        rw [beq_eq_false_iff_ne]
        rintro rfl
        simp at hblank
      cases tokens with
      | nil => rfl
      | cons token tokens => simp [spaced, List.isPrefixOf, hne]
  | cons d chars ih =>
    cases word with
    | nil => rfl
    | cons c cs =>
      simp only [List.cons_append, List.isPrefixOf]
      rw [ih fun h => hblank (List.mem_cons_of_mem _ h)]

/-- No trivia begin with the characters, even when a blank follows them. -/
def beginsToken : List Char → Bool
  | [] => false
  | first :: rest => !isTriviaBlank first && (first != '/' || rest.isEmpty)

/-- The characters are found by skipping trivia, on one line. -/
structure IsToken (token : String) : Prop where
  begins : beginsToken token.toList = true
  oneLine : '\n' ∉ token.toList

instance (token : String) : Decidable (IsToken token) :=
  decidable_of_iff (beginsToken token.toList = true ∧ '\n' ∉ token.toList)
    ⟨fun h => ⟨h.1, h.2⟩, fun h => ⟨h.begins, h.oneLine⟩⟩

theorem IsToken.exists_first {token : String} (h : IsToken token) :
    ∃ first rest, token.toList = first :: rest ∧ isTriviaBlank first = false ∧
      (first = '/' → rest = []) := by
  have hbegins := h.begins
  cases hchars : token.toList with
  | nil => simp [hchars, beginsToken] at hbegins
  | cons first rest =>
    rw [hchars, beginsToken, Bool.and_eq_true, Bool.not_eq_true', Bool.or_eq_true, bne_iff_ne,
      List.isEmpty_iff] at hbegins
    exact ⟨first, rest, rfl, hbegins.1, hbegins.2.resolve_left ∘ not_not_intro⟩

theorem IsToken.length_pos {token : String} (h : IsToken token) : 0 < token.length := by
  obtain ⟨first, rest, hchars, -⟩ := h.exists_first
  rw [← String.length_toList, hchars]
  exact Nat.succ_pos _

/-! ### Where the cursor is -/

/-- Nothing has been recorded, and trivia may be skipped. -/
structure State.Quiet (s : State) : Prop where
  mode : s.mode = .loose
  diagnostics : s.diagnostics = #[]
  docs : s.docs = #[]
  attached : s.attached = []
  runStart : s.runStart = 0

theorem State.Quiet.moved {s : State} (h : s.Quiet) (pos : Nat) : ({ s with pos } : State).Quiet :=
  ⟨h.mode, h.diagnostics, h.docs, h.attached, h.runStart⟩

/-- In a text of one line, some characters are left, and tokens come next. -/
structure Line (text : Array Char) (s : State) (tokens : List String) (rest : List Char) : Prop where
  quiet : s.Quiet
  tokens : ∀ token ∈ tokens, IsToken token
  oneLine : '\n' ∉ text.toList
  pos_le : s.pos ≤ text.size
  rest : text.toList.drop s.pos = rest

/-- The cursor is at the first of the tokens. -/
abbrev At (text : Array Char) (s : State) (tokens : List String) : Prop :=
  Line text s tokens (joined tokens)

/-- The cursor is in front of the blank before the first of the tokens. -/
abbrev Behind (text : Array Char) (s : State) (tokens : List String) : Prop :=
  Line text s tokens (spaced tokens)

/-- Skipping trivia leads to the first of the tokens. -/
def Near (text : Array Char) (s : State) (tokens : List String) : Prop :=
  At text s tokens ∨ Behind text s tokens

section Cursor

variable {text : Array Char} {s : State} {token : String} {tokens : List String} {rest : List Char}

theorem Line.near_at (h : At text s tokens) : Near text s tokens := .inl h

theorem Line.near_behind (h : Behind text s tokens) : Near text s tokens := .inr h

/-- The cursor behind some of the characters that are left. -/
theorem Line.advance {chars : List Char} (h : Line text s tokens (chars ++ rest)) :
    Line text { s with pos := s.pos + chars.length } tokens rest where
  quiet := h.quiet.moved _
  tokens := h.tokens
  oneLine := h.oneLine
  pos_le := by
    have hlen := congrArg List.length h.rest
    rw [List.length_drop, List.length_append, Array.length_toList] at hlen
    have := h.pos_le
    show s.pos + chars.length ≤ text.size
    omega
  rest := by
    show text.toList.drop (s.pos + chars.length) = _
    rw [← List.drop_drop, h.rest, List.drop_left]

theorem Line.with_tokens {tokens' : List String} (h : Line text s tokens rest)
    (htokens : ∀ token ∈ tokens', IsToken token) : Line text s tokens' rest :=
  ⟨h.quiet, htokens, h.oneLine, h.pos_le, h.rest⟩

/-- The cursor behind the first token. -/
theorem Line.behind (h : At text s (token :: tokens)) :
    Behind text { s with pos := s.pos + token.length } tokens := by
  rw [← String.length_toList]
  exact h.advance.with_tokens fun t ht => h.tokens t (List.mem_cons_of_mem _ ht)

theorem Line.charAt_eq (h : Line text s tokens rest) (n : Nat) :
    charAt text (s.pos + n) = rest[n]?.getD '\x00' :=
  charAt_of_drop h.rest n

/-- Behind a token there is a blank, or the end of the text. -/
theorem Line.charAt_behind (h : Behind text s tokens) :
    charAt text s.pos = ' ' ∨ charAt text s.pos = '\x00' := by
  have := spaced_getD tokens
  rwa [← h.charAt_eq 0] at this

/-- What stands at the cursor, when it is asked for without blanks. -/
theorem Line.matchesAt_eq (h : At text s tokens) (word : String) (hblank : ' ' ∉ word.toList) :
    matchesAt text word s.pos = word.toList.isPrefixOf (firstToken tokens).toList := by
  rw [matchesAt_of_drop h.rest, joined, isPrefixOf_spaced hblank]

/-- Whether a sign stands at the cursor is seen from the first token. -/
theorem Line.sign (h : At text s (token :: tokens)) (word : String) {found : Bool}
    (hword : ' ' ∉ word.toList ∧ word.toList.isPrefixOf token.toList = found) :
    matchesAt text word s.pos = found := by
  rw [h.matchesAt_eq word hword.1]
  exact hword.2

/-- No line ends in the text. -/
theorem Line.hasLineFeed_eq (h : Line text s tokens rest) (start stop : Nat) :
    hasLineFeed text start stop = false := by
  rw [hasLineFeed, ← Bool.not_eq_true, Array.contains_iff_mem, Array.mem_def,
    Array.toList_extract, List.extract_eq_take_drop]
  exact fun hmem => h.oneLine (List.mem_of_mem_drop (List.mem_of_mem_take hmem))

/-- The character behind some of the characters of the first token. -/
theorem Line.charAt_token (h : At text s tokens) {n : Nat} {c : Char}
    (hc : (firstToken tokens).toList[n]? = some c) : charAt text (s.pos + n) = c := by
  rw [h.charAt_eq, joined, List.getElem?_append_left (List.getElem?_eq_some_iff.1 hc).1, hc]
  rfl

theorem Line.wordAt_eq (h : At text s tokens) (word : String)
    (hword : word.toList.all continuesName = true) :
    wordAt text word s.pos = (firstWord tokens == word) := by
  rw [wordAt_of_drop h.rest word hword, joined, takeWhile_spaced (by decide), firstWord]

/-- Nothing is skipped at a token. -/
theorem Line.triviaAt?_eq (h : At text s tokens) : triviaAt? text s.pos = none := by
  cases tokens with
  | nil =>
    have hpos : text.size ≤ s.pos := by
      rw [← Array.length_toList]
      exact List.drop_eq_nil_iff.1 h.rest
    exact triviaAt?_size_le hpos
  | cons token tokens =>
    obtain ⟨first, rest, hchars, hblank, hslash⟩ := (h.tokens token List.mem_cons_self).exists_first
    have hfirst : charAt text s.pos = first :=
      h.charAt_token (show token.toList[0]? = some first by rw [hchars]; rfl)
    by_cases hc : first = '/'
    · subst hc
      obtain rfl : token = "/" := by rw [← String.toList_inj, hchars, hslash rfl]; rfl
      have hno (word : String) (hblank : ' ' ∉ word.toList)
          (hlong : word.toList.isPrefixOf "/".toList = false) :
          ¬ matchesAt text word s.pos = true := by
        rw [h.matchesAt_eq word hblank]
        exact Bool.eq_false_iff.1 hlong
      rw [triviaAt?, hfirst, if_neg (by decide : ¬ isTriviaBlank '/' = true),
        if_neg (hno "///" (by decide) (by decide)), if_neg (hno "//" (by decide) (by decide)),
        if_neg (hno "/*" (by decide) (by decide)), ite_self]
    · exact triviaAt?_eq_none (by rw [hfirst, hblank]) (by rw [hfirst]; exact hc)

/-- The cursor is where so many characters are left. -/
theorem Line.pos_add_length (h : Line text s tokens rest) : s.pos + rest.length = text.size := by
  rw [← h.rest, List.length_drop, Array.length_toList]
  have := h.pos_le
  omega

theorem Near.pos_le (h : Near text s tokens) : s.pos ≤ text.size :=
  h.elim Line.pos_le Line.pos_le

/-- When fewer tokens are left, the cursor has moved on. -/
theorem Near.pos_lt {s' : State} {rest : List String} (read : List String)
    (h : Near text s (read ++ rest))
    (hread : read ≠ []) (h' : Near text s' rest) : s.pos < s'.pos := by
  have hjoined (ts : List String) : (joined ts).length ≤ (spaced ts).length := by
    cases ts with
    | nil => exact Nat.le_refl _
    | cons t ts =>
      rw [spaced_cons, List.length_cons]
      omega
  have hread : (spaced rest).length < (joined (read ++ rest)).length := by
    cases read with
    | nil => exact absurd rfl hread
    | cons t ts =>
      have htoken : IsToken t := h.elim (·.tokens t (by simp)) (·.tokens t (by simp))
      have hpos := htoken.length_pos
      rw [← String.length_toList] at hpos
      simp only [joined, firstToken, List.cons_append, List.head?_cons, Option.getD_some,
        List.tail_cons, spaced_append, List.length_append]
      omega
  have hle := hjoined (read ++ rest)
  have hle' := hjoined rest
  rcases h with h | h <;> rcases h' with h' | h' <;>
    · have := h.pos_add_length
      have := h'.pos_add_length
      omega

end Cursor

/-! ### Skipping -/

section Skip

variable {ctx : Context} {s : State} {token : String} {tokens : List String}

/-- Skipping trivia among which nothing is recorded. -/
theorem State.Quiet.skip {items : List Trivia} {last : Nat} (h : s.Quiet)
    (hitems : triviaFrom ctx.text s.pos = (items, last)) (hdocs : items.filterMap Trivia.doc? = [])
    (hproblems : items.filterMap Trivia.diagnostic? = []) :
    Parser.skip.Reads ctx s fun _ s' => s'.Quiet ∧ s'.pos = last := by
  refine ⟨(), s.skipTrivia ctx.text, rfl, ?_⟩
  rw [State.skipTrivia, h.mode]
  rw [hitems]
  simp only [hdocs, hproblems, Array.appendList_nil, and_true]
  refine ⟨rfl, h.diagnostics, h.docs, h.attached, ?_⟩
  dsimp only
  split
  · exact h.runStart
  · rw [h.docs]
    rfl

theorem Line.skip_at (h : At ctx.text s tokens) :
    Parser.skip.Reads ctx s fun _ s' => At ctx.text s' tokens ∧ s'.pos = s.pos :=
  (h.quiet.skip (triviaFrom_of_none h.triviaAt?_eq) rfl rfl).mono fun _ s' ⟨hquiet, hpos⟩ =>
    ⟨⟨hquiet, h.tokens, h.oneLine, by rw [hpos]; exact h.pos_le, by rw [hpos]; exact h.rest⟩, hpos⟩

theorem Line.skip_behind (h : Behind ctx.text s (token :: tokens)) :
    Parser.skip.Reads ctx s fun _ s' => At ctx.text s' (token :: tokens) ∧ s'.pos = s.pos + 1 := by
  have hblank : Line ctx.text s (token :: tokens) ([' '] ++ joined (token :: tokens)) := h
  have hat : At ctx.text { s with pos := s.pos + 1 } (token :: tokens) := hblank.advance
  obtain ⟨first, rest, hchars, hfirst, -⟩ :=
    (h.tokens token List.mem_cons_self).exists_first
  have hstop : skipWhile ctx.text isTriviaBlank s.pos = s.pos + 1 := by
    rw [skipWhile_of_drop h.rest]
    simp [spaced, hchars, hfirst, show isTriviaBlank ' ' = true by decide]
  have hchar : charAt ctx.text s.pos = ' ' := h.charAt_eq 0
  have hitem : triviaAt? ctx.text s.pos = some (.blanks (s.pos + 1)) := by
    have hlt : s.pos < ctx.text.size := lt_size_of_charAt_ne (by rw [hchar]; decide)
    rw [triviaAt?, if_pos hlt, hchar, if_pos (by decide), hstop]
  have hitems := triviaFrom_of_some hitem
  rw [show (Trivia.blanks (s.pos + 1)).stop = s.pos + 1 from rfl,
    triviaFrom_of_none hat.triviaAt?_eq] at hitems
  refine (h.quiet.skip hitems rfl rfl).mono ?_
  rintro _ s' ⟨hquiet, hpos⟩
  exact ⟨⟨hquiet, h.tokens, h.oneLine, by rw [hpos]; exact hat.pos_le, by rw [hpos]; exact hat.rest⟩,
    hpos⟩

/-- Skipping trivia leads to the first token. -/
theorem Near.skip (h : Near ctx.text s tokens) :
    Parser.skip.Reads ctx s fun _ s' => At ctx.text s' tokens := by
  rcases h with h | h
  · exact h.skip_at.mono fun _ _ ⟨hat, _⟩ => hat
  · cases tokens with
    | nil =>
      have hat : At ctx.text s [] := h
      exact hat.skip_at.mono fun _ _ ⟨hat, _⟩ => hat
    | cons token tokens => exact h.skip_behind.mono fun _ _ ⟨hat, _⟩ => hat

end Skip

/-- A round that is not the last reads some of the tokens. -/
theorem Parser.Loops.next_near {σ β : Type} {step : σ → Parser (Round σ β)} {ctx : Context}
    {Q : β → State → Prop} {value : σ} {s : State} {rest : List String} (read : List String)
    (h : Near ctx.text s (read ++ rest)) (hread : read ≠ [])
    (hround : (step value).Reads ctx s fun round s' => ∃ value', round = .next value' ∧
      Near ctx.text s' rest ∧ Loops step ctx Q value' s') : Loops step ctx Q value s :=
  .next (hround.mono fun _ _ ⟨value', hnext, hnear, hmore⟩ =>
    ⟨value', hnext, h.pos_lt read hread hnear, hnear.pos_le, hmore⟩)

end PklSyntax
