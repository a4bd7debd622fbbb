import PklSyntax.Grammar.Type
import PklSyntax.Proofs.Layout.Literal
import PklSyntax.Proofs.Layout.Token
import PklSyntax.Proofs.Printing.Cursor
import PklSyntax.Proofs.Printing.Tokens

/-!
# Reading words and signs

What the parsers of tokens come to on a line of tokens: they read the first token when it is the one
that they ask for, and otherwise leave it. A name is read up to its end, whether a blank or the
parenthesis of a call stands there; a decimal integer is read whole, since a blank follows it.

## Main statements

* `Near.accept`, `Near.expect`, `Near.not_accept`: tokens that are asked for.
* `Line.identifier`: a name.
* `Line.number`: a decimal integer.
* `Near.singleType`: a type that is a single name.
-/

namespace PklSyntax

open PklSyntax.Parser

/-! ### Names and digits by their characters -/

theorem continuesName_of_isLetter {c : Char} (h : isLetter c = true) : continuesName c = true := by
  rw [continuesName, isWordPart, h]
  rfl

theorem ne_of_isLetter {c d : Char} (h : isLetter c = true) (hd : isLetter d = false) : c ≠ d := by
  rintro rfl
  simp [h] at hd

namespace IsName

variable {word : String}

theorem continues (h : IsName word) : ∀ c ∈ word.toList, continuesName c = true := by
  obtain ⟨first, rest, hchars, hfirst, hrest⟩ := h
  rw [hchars]
  intro c hc
  rcases List.mem_cons.1 hc with rfl | hc
  · exact continuesName_of_isLetter hfirst
  · exact hrest c hc

/-- A name is a token, and so is a name with other characters on the same line behind it. -/
theorem isToken_append (h : IsName word) {suffix : String} (hsuffix : '\n' ∉ suffix.toList) :
    IsToken (word ++ suffix) := by
  have hline : '\n' ∉ word.toList := fun hmem => absurd (h.continues _ hmem) (by decide)
  obtain ⟨first, rest, hchars, hfirst, -⟩ := h
  have hname := continuesName_of_isLetter hfirst
  constructor
  · rw [String.toList_append, hchars, List.cons_append, beginsToken,
      not_isTriviaBlank_of_continuesName hname, bne_iff_ne.2 (ne_slash_of_continuesName hname)]
    rfl
  · rw [String.toList_append, List.mem_append]
    exact fun hmem => hmem.elim hline hsuffix

theorem first (h : IsName word) : ∃ first, word.toList[0]? = some first ∧ isLetter first = true := by
  obtain ⟨first, rest, hchars, hfirst, -⟩ := h
  exact ⟨first, by rw [hchars]; rfl, hfirst⟩

/-- A name begins with a letter, whatever stands behind it. -/
theorem first_append (h : IsName word) (suffix : String) :
    ∃ first, (word ++ suffix).toList[0]? = some first ∧ isLetter first = true := by
  obtain ⟨first, rest, hchars, hfirst, -⟩ := h
  exact ⟨first, by rw [String.toList_append, hchars]; rfl, hfirst⟩

theorem isToken (h : IsName word) : IsToken word := by
  have hline : '\n' ∉ "".toList := by simp
  simpa using h.isToken_append hline

/-- A name is read to its end. -/
theorem takeWhile_append (h : IsName word) {rest : List Char}
    (hrest : continuesName (rest[0]?.getD '\x00') = false) :
    (word.toList ++ rest).takeWhile continuesName = word.toList := by
  rw [List.takeWhile_append_of_pos h.continues]
  cases rest with
  | nil => simp
  | cons c rest => rw [List.takeWhile_cons_of_neg (by simpa using hrest), List.append_nil]

end IsName

/-- A word does not stand where there is a character unlike its first. -/
theorem not_matchesAt {text : Array Char} {i : Nat} {word : String} {c : Char} (p : Char → Bool)
    (hp : p (charAt text i) = true) (hword : word.toList[0]? = some c) (hc : p c = false) :
    matchesAt text word i = false := by
  rw [← Bool.not_eq_true]
  intro hmatch
  have hchar := charAt_of_matchesAt hmatch hword
  rw [Nat.add_zero] at hchar
  simp [hchar, hc] at hp

/-- A word does not stand at the beginning of a token that begins with a character unlike its
first. -/
theorem not_isPrefixOf {word token : String} {c d : Char} (p : Char → Bool)
    (htoken : token.toList[0]? = some c) (hp : p c = true) (hword : word.toList[0]? = some d)
    (hd : p d = false) : word.toList.isPrefixOf token.toList = false := by
  obtain ⟨ws, hws⟩ : ∃ ws, word.toList = d :: ws := by
    cases hchars : word.toList with
    | nil => simp [hchars] at hword
    | cons e ws => exact ⟨ws, by simpa [hchars] using hword⟩
  obtain ⟨ts, hts⟩ : ∃ ts, token.toList = c :: ts := by
    cases hchars : token.toList with
    | nil => simp [hchars] at htoken
    | cons e ts => exact ⟨ts, by simpa [hchars] using htoken⟩
  have hne : (d == c) = false := beq_false_of_ne (by rintro rfl; simp [hp] at hd)
  rw [hws, hts, List.isPrefixOf, hne, Bool.false_and]

theorem not_wordAt {text : Array Char} {i : Nat} {word : String} {c : Char} (p : Char → Bool)
    (hp : p (charAt text i) = true) (hword : word.toList[0]? = some c) (hc : p c = false) :
    wordAt text word i = false := by
  rw [wordAt, not_matchesAt p hp hword hc, Bool.false_and]

theorem not_stringAt {text : Array Char} {i : Nat} (p : Char → Bool)
    (hp : p (charAt text i) = true) (hpound : p '#' = false) (hquote : p '"' = false) :
    stringAt text i = false := by
  have hstop : skipWhile text (· == '#') i = i := by
    refine skipWhile_eq_self fun hi => beq_false_of_ne ?_
    rintro heq
    rw [charAt_of_lt hi, heq, hpound] at hp
    cases hp
  rw [stringAt, hstop]
  exact not_matchesAt p hp rfl hquote

/-! ### Signs -/

section Signs

variable {ctx : Context} {s : State} {token : String} {tokens : List String}

/-- The cursor moves over characters that are left. -/
theorem Line.advance_reads {rest : List Char} {n : Nat} (chars : List Char)
    (h : Line ctx.text s tokens (chars ++ rest)) (hn : n = chars.length) :
    (Parser.advance n).Reads ctx s fun _ s' => Line ctx.text s' tokens rest := by
  have hpos := h.advance.pos_le
  refine ⟨(), { s with pos := min ctx.text.size (s.pos + n) }, rfl, ?_⟩
  rw [hn, Nat.min_eq_right hpos]
  exact h.advance

/-- The cursor moves over the first token. -/
theorem Line.advance_token {n : Nat} (h : At ctx.text s (token :: tokens)) (hn : n = token.length) :
    (Parser.advance n).Reads ctx s fun _ s' => Behind ctx.text s' tokens :=
  (Line.advance_reads _ h (by rw [hn, ← String.length_toList]; rfl)).mono fun _ _ hline =>
    hline.with_tokens fun t ht => h.tokens t (List.mem_cons_of_mem _ ht)

/-- What is asked for is the beginning of the first token, or it is not. -/
theorem Near.atToken (h : Near ctx.text s tokens) (word : String) :
    (atToken word).Reads ctx s fun found s' =>
      found = matchesAt ctx.text word s'.pos ∧ At ctx.text s' tokens :=
  h.skip.bind fun _ _ hat => .value (startsWith_looks word) ⟨rfl, hat⟩

/-- The first token is read. -/
theorem Near.accept? (h : Near ctx.text s (token :: tokens)) (hblank : ' ' ∉ token.toList) :
    (accept? token).Reads ctx s fun span? s' =>
      span?.isSome = true ∧ Behind ctx.text s' tokens := by
  refine (h.atToken token).bind fun found s' ⟨hfound, hat⟩ => ?_
  rw [hat.matchesAt_eq token hblank] at hfound
  refine .ite_true (hfound.trans (List.isPrefixOf_iff_prefix.2 (List.prefix_refl _))) ?_
  refine Reads.bind (P := fun _ t => Behind ctx.text t tokens) ?_
    fun span t hbehind => .pure ⟨rfl, hbehind⟩
  exact .look position_looks ((hat.advance_token rfl).bind fun _ t hbehind =>
    .value (spanFrom_looks _) hbehind)

/-- The first token is not the one that is asked for. -/
theorem Near.not_accept? (h : Near ctx.text s tokens) (word : String) (hblank : ' ' ∉ word.toList)
    (hno : word.toList.isPrefixOf (firstToken tokens).toList = false) :
    (Parser.accept? word).Reads ctx s fun span? s' => span? = none ∧ At ctx.text s' tokens :=
  (h.atToken word).bind fun _ _ ⟨hfound, hat⟩ =>
    .ite_false (by rw [hfound, hat.matchesAt_eq word hblank, hno]) (.pure ⟨rfl, hat⟩)

theorem Near.accept (h : Near ctx.text s (token :: tokens)) (hblank : ' ' ∉ token.toList) :
    (accept token).Reads ctx s fun found s' => found = true ∧ Behind ctx.text s' tokens :=
  (h.accept? hblank).bind fun _ _ ⟨hsome, hbehind⟩ => .pure ⟨hsome, hbehind⟩

theorem Near.not_accept (h : Near ctx.text s tokens) (word : String) (hblank : ' ' ∉ word.toList)
    (hno : word.toList.isPrefixOf (firstToken tokens).toList = false) :
    (Parser.accept word).Reads ctx s fun found s' => found = false ∧ At ctx.text s' tokens :=
  (h.not_accept? word hblank hno).bind fun _ _ ⟨hnone, hat⟩ => .pure ⟨by rw [hnone]; rfl, hat⟩

theorem Near.expect (h : Near ctx.text s (token :: tokens)) (hblank : ' ' ∉ token.toList) :
    (expect token).Reads ctx s fun _ s' => Behind ctx.text s' tokens := by
  refine (h.accept? hblank).bind fun span? s' ⟨hsome, hbehind⟩ => ?_
  obtain ⟨span, rfl⟩ := Option.isSome_iff_exists.1 hsome
  exact .pure hbehind

end Signs

/-! ### Names -/

section Names

variable {ctx : Context} {s : State} {tokens : List String} {word : String} {rest : List Char}

/-- What a line begins with when it begins with a name. -/
theorem Line.charAt_name (h : Line ctx.text s tokens (word.toList ++ rest)) (hname : IsName word) :
    isLetter (charAt ctx.text s.pos) = true := by
  obtain ⟨first, others, hchars, hfirst, -⟩ := hname
  rw [show charAt ctx.text s.pos = first by
    simpa [hchars] using h.charAt_eq 0, hfirst]

/-- A name is read up to where it ends, in the form that its characters tell. -/
theorem Line.nameOfForm? {first : Char} {others : List Char}
    (h : Line ctx.text s tokens (word.toList ++ rest)) (hchars : word.toList = first :: others)
    (hfirst : startsName first = true) (hothers : ∀ c ∈ others, continuesName c = true)
    (hrest : continuesName (rest[0]?.getD '\x00') = false) :
    (identifier?).Reads ctx s fun name? s' => (∃ span, name? = some ⟨word, .ofName first word, span⟩) ∧
      Line ctx.text s' tokens rest := by
  have hchar : charAt ctx.text s.pos = first := by
    simpa [hchars] using h.charAt_eq 0
  have htake : (word.toList ++ rest).takeWhile continuesName = word.toList := by
    have hall : ∀ c ∈ word.toList, continuesName c = true := by
      rw [hchars]
      exact List.forall_mem_cons.2 ⟨continuesName_of_startsName hfirst, hothers⟩
    rw [List.takeWhile_append_of_pos hall]
    cases rest with
    | nil => simp
    | cons c rest =>
      have hc : continuesName c = false := hrest
      simp [hc]
  have hend : skipWhile ctx.text continuesName s.pos = s.pos + word.toList.length := by
    rw [skipWhile_of_drop h.rest, htake]
  have hword : sliceOf ctx.text s.pos (s.pos + word.toList.length) = word := by
    rw [sliceOf_of_drop h.rest, String.ofList_toList]
  refine .look peek_looks (.ite_false ?_ (.ite_true (by rw [hchar, hfirst]) ?_))
  · rw [hchar, beq_eq_false_iff_ne]
    rintro rfl
    exact absurd hfirst (by decide)
  have hmove : moveTo (skipWhile ctx.text continuesName s.pos) ctx s =
      .ok () { s with pos := s.pos + word.toList.length } := by rw [← hend]; rfl
  refine .look position_looks (.look wordEnd_looks (.of_run hmove ?_))
  refine .look (sliceFrom_looks _) (.look (spanFrom_looks _)
    (.pure ⟨⟨.ofNat s.pos (s.pos + word.toList.length), ?_⟩, h.advance⟩))
  dsimp only
  rw [hword, hchar]

/-- A name that begins with a letter is read as a plain one. -/
theorem Line.identifier? (h : Line ctx.text s tokens (word.toList ++ rest)) (hname : IsName word)
    (hrest : continuesName (rest[0]?.getD '\x00') = false) :
    (identifier?).Reads ctx s fun name? s' => ∃ span, name? = some ⟨word, .plain, span⟩ ∧
      Line ctx.text s' tokens rest := by
  obtain ⟨first, others, hchars, hfirst, hothers⟩ := hname
  have hstarts : startsName first = true := by rw [startsName, hfirst]; rfl
  have hkind : IdentifierKind.ofName first word = .plain := by
    have hblank : word ≠ "_" := by
      rintro rfl
      obtain ⟨rfl, -⟩ : '_' = first ∧ [] = others := by simpa using hchars
      exact absurd hfirst (by decide)
    rw [IdentifierKind.ofName, if_neg (by simpa using hblank), if_neg]
    simp only [Bool.or_eq_true, beq_iff_eq, not_or]
    exact ⟨ne_of_isLetter hfirst (by decide), ne_of_isLetter hfirst (by decide)⟩
  refine (h.nameOfForm? hchars hstarts hothers hrest).mono ?_
  rintro _ s' ⟨⟨span, rfl⟩, hline⟩
  exact ⟨span, by rw [hkind], hline⟩

/-- A name that has to stand at the cursor. -/
theorem Line.identifier (h : Line ctx.text s tokens (word.toList ++ rest)) (hname : IsName word)
    (hrest : continuesName (rest[0]?.getD '\x00') = false) (what : String) :
    (Parser.identifier what).Reads ctx s fun name s' => (∃ span, name = ⟨word, .plain, span⟩) ∧
      Line ctx.text s' tokens rest := by
  refine (h.identifier? hname hrest).bind fun name? s' ⟨span, hsome, hline⟩ => ?_
  rw [hsome]
  exact .pure ⟨⟨span, rfl⟩, hline⟩

end Names

/-! ### Integers -/

section Integers

variable {ctx : Context} {s : State} {tokens : List String} {run : String}

/-- The characters of decimal integers. -/
def inInteger (c : Char) : Bool := IntBase.decimal.isDigit c || c == '_'

theorem IntLiteral.IsPlain.inInteger {literal : IntLiteral} (h : literal.IsPlain) :
    ∀ c ∈ literal.digits.toList, inInteger c = true := by
  intro c hc
  rcases h.digits c hc with hdigit | rfl
  · rw [PklSyntax.inInteger, IntBase.isDigit, hdigit, Bool.true_or]
  · rfl

/-- No misplaced underscore means that a digit comes first. -/
theorem IntLiteral.IsPlain.first {literal : IntLiteral} (h : literal.IsPlain) :
    ∃ first rest, literal.digits.toList = first :: rest ∧ first.isDigit = true := by
  cases hchars : literal.digits.toList with
  | nil => exact absurd (String.toList_inj.1 hchars) h.ne_empty
  | cons first rest =>
    refine ⟨first, rest, rfl, ?_⟩
    rcases h.digits first (by rw [hchars]; exact List.mem_cons_self) with hdigit | rfl
    · exact hdigit
    · have := h.placed
      rw [misplacedUnderscore?, hchars, misplacedUnderscoreFrom?.eq_def] at this
      cases this

/-- In front of a blank there are no more characters of an integer. -/
theorem takeWhile_integer (hdigits : ∀ c ∈ run.toList, inInteger c = true) :
    (run.toList ++ spaced tokens).takeWhile inInteger = run.toList := by
  rw [List.takeWhile_append_of_pos hdigits,
    show (spaced tokens).takeWhile inInteger = [] from takeWhile_spaced (by decide) [] tokens,
    List.append_nil]

theorem digits_reads (hrest : ctx.text.toList.drop s.pos = run.toList ++ spaced tokens)
    (hdigits : ∀ c ∈ run.toList, inInteger c = true) (hplaced : misplacedUnderscore? run = none) :
    (digits .decimal).Reads ctx s fun found s' =>
      found = run ∧ s' = { s with pos := s.pos + run.toList.length } := by
  have hend : skipWhile ctx.text inInteger s.pos = s.pos + run.toList.length := by
    rw [skipWhile_of_drop hrest, takeWhile_integer hdigits]
  have hrun : sliceOf ctx.text s.pos (s.pos + run.toList.length) = run := by
    rw [sliceOf_of_drop hrest, String.ofList_toList]
  have hmove : moveTo (skipWhile ctx.text inInteger s.pos) ctx s =
      .ok () { s with pos := s.pos + run.toList.length } := by rw [← hend]; rfl
  refine .look position_looks (.look theText_looks (.of_run hmove (.look (sliceFrom_looks _) ?_)))
  rw [hrun, hplaced]
  exact .pure ⟨rfl, rfl⟩

/-- A blank, or the end of the text, ends a number. -/
theorem endOfNumber_reads (start : Nat)
    (hend : charAt ctx.text s.pos = ' ' ∨ charAt ctx.text s.pos = '\x00') :
    (endOfNumber start).Reads ctx s fun _ s' => s' = s := by
  refine .look peek_looks ?_
  rcases hend with h | h <;> rw [h] <;> exact .ite_false (by decide) (.pure rfl)

theorem fraction_reads (hend : charAt ctx.text s.pos = ' ' ∨ charAt ctx.text s.pos = '\x00') :
    fraction.Reads ctx s fun found s' => found = false ∧ s' = s := by
  refine .look peek_looks (.look (peekAt_looks 1) ?_)
  rcases hend with h | h <;> rw [h] <;> exact .ite_false rfl (.pure ⟨rfl, rfl⟩)

theorem exponent_reads (hend : charAt ctx.text s.pos = ' ' ∨ charAt ctx.text s.pos = '\x00') :
    exponent.Reads ctx s fun found s' => found = false ∧ s' = s := by
  refine .look atExponent_looks (.ite_false ?_ (.pure ⟨rfl, rfl⟩))
  rw [exponentAt]
  rcases hend with h | h <;> rw [h] <;> rfl

theorem decimalNumber_reads {start : Nat} (styleWarnings : Bool)
    (hrest : ctx.text.toList.drop s.pos = run.toList ++ spaced tokens)
    (hdigits : ∀ c ∈ run.toList, inInteger c = true) (hplaced : misplacedUnderscore? run = none)
    (hpoint : charAt ctx.text s.pos ≠ '.') :
    (decimalNumber start styleWarnings).Reads ctx s fun number s' =>
      number = .int ⟨.decimal, run, .ofNat start s'.pos⟩ ∧
        s' = { s with pos := s.pos + run.toList.length } := by
  have hend : charAt ctx.text (s.pos + run.toList.length) = ' ' ∨
      charAt ctx.text (s.pos + run.toList.length) = '\x00' := by
    rw [charAt_of_drop hrest, List.getElem?_append_right (Nat.le_refl _), Nat.sub_self]
    exact spaced_getD tokens
  refine .look peek_looks (.ite_false (beq_false_of_ne hpoint) ?_)
  refine .bind (digits_reads hrest hdigits hplaced) ?_
  rintro integer s₁ ⟨rfl, rfl⟩
  refine .bind (fraction_reads hend) ?_
  rintro _ _ ⟨rfl, rfl⟩
  refine .bind (exponent_reads hend) ?_
  rintro _ _ ⟨rfl, rfl⟩
  refine .bind (endOfNumber_reads _ hend) ?_
  rintro _ _ rfl
  exact .look (spanFrom_looks _) (.ite_true rfl (.pure ⟨rfl, rfl⟩))

theorem ofLetter?_eq_none {c : Char} (h : inInteger c = true ∨ c = ' ' ∨ c = '\x00') :
    IntBase.ofLetter? c = none := by
  have hne (d : Char) (hd : inInteger d = false ∧ d ≠ ' ' ∧ d ≠ '\x00') : c ≠ d := by
    rintro rfl
    rcases h with h | h | h
    · simp [hd.1] at h
    · exact hd.2.1 h
    · exact hd.2.2 h
  simp [IntBase.ofLetter?, hne 'x' (by decide), hne 'X' (by decide), hne 'o' (by decide),
    hne 'O' (by decide), hne 'b' (by decide), hne 'B' (by decide)]

/-- A decimal integer is read up to the blank behind it. -/
theorem Line.number {literal : IntLiteral} (h : At ctx.text s (literal.digits :: tokens))
    (hplain : literal.IsPlain) (styleWarnings : Bool) :
    (Parser.number styleWarnings).Reads ctx s fun number s' =>
      number = .int ⟨.decimal, literal.digits, .ofNat s.pos s'.pos⟩ ∧
        Behind ctx.text s' tokens := by
  have hrest : ctx.text.toList.drop s.pos = literal.digits.toList ++ spaced tokens := h.rest
  obtain ⟨first, rest, hchars, hfirst⟩ := hplain.first
  have hchar : charAt ctx.text s.pos = first :=
    h.charAt_token (show literal.digits.toList[0]? = some first by rw [hchars]; rfl)
  have hdigit : (charAt ctx.text s.pos).isDigit = true := by rw [hchar, hfirst]
  refine .inMode (.look position_looks (.look (atWord_looks _) (.ite_false
    (not_wordAt Char.isDigit hdigit rfl (by decide)) (.look (atWord_looks _) (.ite_false
    (not_wordAt Char.isDigit hdigit rfl (by decide)) ?_)))))
  refine .look peek_looks (.look (peekAt_looks 1) ?_)
  have hletter : IntBase.ofLetter? (charAt ctx.text (s.pos + 1)) = none := by
    refine ofLetter?_eq_none ?_
    rw [charAt_of_drop hrest, hchars]
    cases rest with
    | nil => exact .inr (spaced_getD tokens)
    | cons second rest => exact .inl (hplain.inInteger second (by simp [hchars]))
  have hnumber : (decimalNumber s.pos styleWarnings).Reads ctx { s with mode := .tight }
      fun number s' =>
        number = .int ⟨.decimal, literal.digits, .ofNat s.pos s'.pos⟩ ∧
          Behind ctx.text { s' with mode := s.mode } tokens := by
    have hpoint : charAt ctx.text s.pos ≠ '.' := by
      intro hpoint
      rw [hpoint] at hdigit
      exact absurd hdigit (by decide)
    refine (decimalNumber_reads (s := { s with mode := .tight }) styleWarnings hrest
      hplain.inInteger hplain.placed hpoint).mono ?_
    rintro _ _ ⟨rfl, rfl⟩
    rw [String.length_toList]
    exact ⟨rfl, h.behind⟩
  rw [hletter]
  cases charAt ctx.text s.pos == '0' <;> exact hnumber

end Integers

/-! ### Types -/

section Types

variable {g : Grammar} {ctx : Context} {s : State} {tokens : List String} {word : String}

/-- What follows is no further member of a union. -/
def EndsType (tokens : List String) : Prop :=
  "|".toList.isPrefixOf (firstToken tokens).toList = true →
    ("||".toList.isPrefixOf (firstToken tokens).toList ||
      "|>".toList.isPrefixOf (firstToken tokens).toList) = true

theorem Near.not_atUnionBar (h : Near ctx.text s tokens) (hend : EndsType tokens) :
    (Grammar.atUnionBar).Reads ctx s fun found s' => found = false ∧ At ctx.text s' tokens := by
  refine (h.atToken "|").bind fun found s' ⟨hfound, hat⟩ => ?_
  cases found with
  | false => exact .pure ⟨rfl, hat⟩
  | true =>
    rw [hat.matchesAt_eq "|" (by decide)] at hfound
    have hend := hend hfound.symm
    rw [← hat.matchesAt_eq "||" (by decide), ← hat.matchesAt_eq "|>" (by decide)] at hend
    refine .ite_false rfl (.look (startsWith_looks "||") ?_)
    cases hor : matchesAt ctx.text "||" s'.pos with
    | true => exact .pure ⟨rfl, hat⟩
    | false =>
      rw [hor, Bool.false_or] at hend
      exact .look (startsWith_looks "|>") (.pure ⟨by rw [hend]; rfl, hat⟩)

/-- A name that is a token of its own. -/
theorem Line.identifier_token (h : At ctx.text s (word :: tokens)) (hname : IsName word)
    (what : String) :
    (Parser.identifier what).Reads ctx s fun name s' => (∃ span, name = ⟨word, .plain, span⟩) ∧
      Behind ctx.text s' tokens := by
  have hline : Line ctx.text s (word :: tokens) (word.toList ++ spaced tokens) := h
  have hrest : continuesName ((spaced tokens)[0]?.getD '\x00') = false := by
    rcases spaced_getD tokens with hchar | hchar <;> rw [hchar] <;> decide
  exact (hline.identifier hname hrest what).mono fun _ _ ⟨hspan, hbehind⟩ =>
    ⟨hspan, hbehind.with_tokens fun t ht => h.tokens t (List.mem_cons_of_mem _ ht)⟩

/-- A name without points, as it stands on a line. -/
theorem Line.qualifiedName (h : At ctx.text s (word :: tokens)) (hname : IsName word)
    (what : String) :
    (Parser.qualifiedName what).Reads ctx s fun name s' =>
      (∃ span span', name = ⟨[⟨word, .plain, span⟩], span'⟩) ∧ Behind ctx.text s' tokens := by
  refine (h.identifier_token hname what).bind fun first s₁ ⟨⟨span, hfirst⟩, hbehind⟩ => ?_
  refine Reads.bind (P := fun path s' => path = #[first] ∧ s' = s₁) ?_ ?_
  · refine Loops.reads (.done (.look atPathStep_looks (.ite_false ?_ (.pure ⟨_, rfl, rfl, rfl⟩))))
    rcases hbehind.charAt_behind with hchar | hchar <;> rw [hchar] <;> rfl
  · rintro _ _ ⟨rfl, rfl⟩
    rw [hfirst]
    exact .pure ⟨⟨span, _, rfl⟩, hbehind⟩

/-- A name as a type, with nothing that belongs to it. -/
theorem Line.typeAtom (h : At ctx.text s (word :: tokens)) (hname : IsName word) :
    g.typeAtom.Reads ctx s fun type s' =>
      (∃ span span', type = .named ⟨[⟨word, .plain, span⟩], span'⟩) ∧ Behind ctx.text s' tokens := by
  have hline : Line ctx.text s (word :: tokens) (word.toList ++ spaced tokens) := h
  have hletter := hline.charAt_name hname
  refine .look peek_looks (.ite_false ?_ (.look atString_looks (.ite_false ?_
    (.look atIdentifier_looks (.ite_true ?_ ?_)))))
  · exact beq_false_of_ne (ne_of_isLetter hletter (by decide))
  · exact not_stringAt isLetter hletter (by decide) (by decide)
  · rw [startsName, hletter]
    simp
  refine (h.qualifiedName hname _).bind ?_
  rintro name s₁ ⟨⟨span, span', hname⟩, hbehind⟩
  refine .look peek_looks (.ite_false ?_ (.pure ⟨⟨span, span', by rw [hname]⟩, hbehind⟩))
  rcases hbehind.charAt_behind with hchar | hchar <;> rw [hchar] <;> rfl

/-- A type that is a single name. -/
theorem Near.singleType (h : Near ctx.text s (word :: tokens)) (hname : IsName word)
    (hend : EndsType tokens) :
    g.typeRule.Reads ctx s fun type s' =>
      (∃ span span', type = .named ⟨[⟨word, .plain, span⟩], span'⟩) ∧ At ctx.text s' tokens := by
  refine h.skip.bind fun _ s₁ hat₁ => .look position_looks ?_
  refine Reads.bind (P := fun type s' =>
    (∃ span span', type = .named ⟨[⟨word, .plain, span⟩], span'⟩) ∧ Behind ctx.text s' tokens)
    ?_ fun type s₂ ⟨hsingle, hbehind⟩ => ?_
  · refine hat₁.near_at.skip.bind fun _ s₂ hat₂ => .look position_looks (.look peek_looks ?_)
    have hline : Line ctx.text s₂ (word :: tokens) (word.toList ++ spaced tokens) := hat₂
    have hstar : (charAt ctx.text s₂.pos == '*') = false :=
      beq_false_of_ne (ne_of_isLetter (hline.charAt_name hname) (by decide))
    dsimp only
    rw [hstar]
    refine (hat₂.typeAtom hname).bind fun base s₃ ⟨hbase, hbehind⟩ => ?_
    refine Reads.bind (P := fun type s' => type = base ∧ s' = s₃) (Loops.reads (.done ?_)) ?_
    · refine .look peek_looks (.look (peekAt_looks 1) ?_)
      rcases hbehind.charAt_behind with hchar | hchar <;> rw [hchar] <;>
        exact .ite_false rfl (.ite_false rfl (.pure ⟨base, rfl, rfl, rfl⟩))
    · rintro _ _ ⟨rfl, rfl⟩
      exact .ite_false rfl (.pure ⟨hbase, hbehind⟩)
  refine Reads.bind (P := fun members s' => members = #[type] ∧ At ctx.text s' tokens)
    (Loops.reads (.done ?_)) ?_
  · refine (hbehind.near_behind.not_atUnionBar hend).bind fun found s₃ ⟨hfound, hat⟩ => ?_
    exact .ite_false hfound (.pure ⟨#[type], rfl, rfl, hat⟩)
  · rintro _ _ ⟨rfl, hat⟩
    exact .pure ⟨hsingle, hat⟩

end Types

end PklSyntax
