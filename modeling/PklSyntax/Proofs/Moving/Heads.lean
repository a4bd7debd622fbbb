import PklSyntax.Proofs.Moving.Token
import PklSyntax.Proofs.Printing.Words

/-!
# How expressions begin

Some productions look ahead before they read: at a parenthesis for the parameters of a lambda, at
the name of a member for the sign behind it. That two parses see the same there cannot be told from
what they look at, since the look may go past the end of the stretch. It follows from what is read
afterwards, when nothing was found: an expression that begins with a name has read the trivia behind
the name, too, and goes on behind them, or ends with the name.

## Main definitions

* `nameStop?`, `nameAt`: the name at an offset.
* `Via`: a parse has gone through a place where a token ended.
* `Opened`: what the beginning of an expression says of a parse that has read it.

## Main statements

* `Parser.identifier?_run`: what is read where a name stands.
* `Opened.step`: going on with the expression.
* `Overlap.nameStop?_place`: names in two texts.
-/

namespace PklSyntax

open PklSyntax.Parser

variable {text : Array Char} {s s' : State} {c c' i e : Nat}

/-! ### Names -/

/-- Any character that can stand between backticks. -/
def isQuoted (c : Char) : Bool := c != backtick && c != '\n'

/-- Where the name ends that stands at the offset, if one stands there. -/
def nameStop? (text : Array Char) (i : Nat) : Option Nat :=
  if charAt text i == backtick then
    if charAt text (skipWhile text isQuoted (i + 1)) == backtick then
      some (skipWhile text isQuoted (i + 1) + 1)
    else none
  else if startsName (charAt text i) then some (skipWhile text continuesName i)
  else none

/-- The name that stands at the offset and ends at `e`. -/
def nameAt (text : Array Char) (i e : Nat) : Identifier :=
  if charAt text i == backtick then ⟨sliceOf text (i + 1) (e - 1), .backtick, .ofNat i e⟩
  else ⟨sliceOf text i e, .ofName (charAt text i) (sliceOf text i e), .ofNat i e⟩

/-- The characters of names that stand at the offset. -/
def wordOf (text : Array Char) (i : Nat) : String :=
  sliceOf text i (skipWhile text continuesName i)

theorem lt_nameStop? (h : nameStop? text i = some e) : i < e := by
  rw [nameStop?] at h
  split at h
  · have := le_skipWhile text isQuoted (i + 1)
    split at h
    · cases h
      omega
    · cases h
  · split at h
    · cases h
      exact lt_nameEnd (continuesName_of_startsName ‹_›)
    · cases h

/-- Where a name stands, it begins with a backtick or with a character of names. -/
theorem begins_of_nameStop? (h : nameStop? text i = some e) :
    charAt text i = backtick ∨ startsName (charAt text i) = true := by
  rw [nameStop?] at h
  split at h
  · rename_i hquote
    exact .inl (by simpa using hquote)
  · split at h
    · exact .inr ‹_›
    · cases h

theorem nameStop?_le_size (h : nameStop? text i = some e) : e ≤ text.size := by
  have hbegins := begins_of_nameStop? h
  rw [nameStop?] at h
  split at h
  · split at h
    · rename_i hlast
      cases h
      rw [beq_iff_eq] at hlast
      exact lt_size_of_charAt_ne (by rw [hlast]; decide)
    · cases h
  · split at h
    · rename_i hstart
      cases h
      exact skipWhile_le_size text continuesName (Nat.le_of_lt
        (lt_size_of_opens (opensToken_of_continuesName (continuesName_of_startsName hstart))))
    · cases h

/-- No name stands where the text begins with none of the characters of names. -/
theorem nameStop?_eq_none (hquote : charAt text i ≠ backtick)
    (hstart : startsName (charAt text i) = false) : nameStop? text i = none := by
  rw [nameStop?, if_neg (by simpa using hquote), if_neg (by simp [hstart])]

/-- A word that stands at the offset ends with the characters of names there. -/
theorem nameEnd_of_wordAt {word : String} (hword : isName word = true)
    (h : wordAt text word i = true) : skipWhile text continuesName i = i + word.length := by
  rw [isName, Bool.and_eq_true, List.all_eq_true] at hword
  rw [wordAt, Bool.and_eq_true, Bool.not_eq_true'] at h
  have hchars := charsMatchAt_eq_true.1 h.1
  have hlen := word.length_toList
  have hsize := add_length_le_of_matchesAt h.1 (by rintro rfl; simp at hword)
  obtain ⟨hrun, hend⟩ := @skipWhile_spec text i continuesName
  have hle := le_skipWhile text continuesName i
  refine Nat.le_antisymm (Nat.le_of_not_lt fun hlt => ?_) (Nat.le_of_not_lt fun hlt => ?_)
  · have := (hrun (i + word.length) (by omega) hlt).2
    exact Bool.false_ne_true (h.2.symm.trans this)
  · have hstop := hend (by omega)
    have hk : skipWhile text continuesName i - i < word.toList.length := by omega
    have hchar := charAt_eq_of_getElem? (hchars _ hk)
    rw [Nat.add_sub_cancel' hle] at hchar
    rw [hchar, hword.2 _ (List.getElem_mem hk)] at hstop
    cases hstop

/-- A word that stands at the offset is all the characters of names there. -/
theorem wordOf_eq {word : String} (hword : isName word = true) (h : wordAt text word i = true) :
    wordOf text i = word := by
  have hchars := charsMatchAt_eq_true.1 (matchesAt_of_wordAt h)
  have hlen := word.length_toList
  rw [wordOf, nameEnd_of_wordAt hword h, sliceOf]
  refine String.toList_inj.1 ?_
  rw [String.toList_ofList]
  refine List.ext_getElem? fun n => ?_
  rw [Array.getElem?_toList, Overlap.getElem?_extract_eq]
  by_cases hn : n < word.toList.length
  · rw [if_pos (by omega), hchars n hn, List.getElem?_eq_getElem hn]
  · rw [if_neg (by omega), List.getElem?_eq_none (by omega)]

/-- A word that begins with a character of names is the name that stands there. -/
theorem nameStop?_of_word {word : String} (hword : isName word = true)
    (hfirst : word.toList.head?.any startsName = true) (h : wordAt text word i = true) :
    nameStop? text i = some (i + word.length) := by
  obtain ⟨first, hfirst, hstart⟩ := (Option.any_eq_true _ _).1 hfirst
  rw [List.head?_eq_getElem?] at hfirst
  have hchar := charAt_of_matchesAt (matchesAt_of_wordAt h) hfirst
  rw [Nat.add_zero] at hchar
  have hquote : first ≠ backtick := by
    rintro rfl
    exact absurd hstart (by decide)
  rw [nameStop?, hchar, if_neg (by simpa using hquote), if_pos hstart, nameEnd_of_wordAt hword h]

/-- Another word does not stand where a word stands. -/
theorem wordAt_of_wordOf_ne {word : String} (hword : isName word = true)
    (h : wordOf text i ≠ word) :
    wordAt text word i = false :=
  Bool.eq_false_iff.2 fun hat => h (wordOf_eq hword hat)

theorem nameAt_of_word (hquote : charAt text i ≠ backtick) (h : nameStop? text i = some e) :
    nameAt text i e = ⟨wordOf text i, .ofName (charAt text i) (wordOf text i), .ofNat i e⟩ := by
  rw [nameStop?, if_neg (by simpa using hquote)] at h
  rw [nameAt, if_neg (by simpa using hquote)]
  split at h
  · cases h
    rfl
  · cases h

/-- The words with which an expression begins that is no name. -/
def constructWords : List String := ["if", "let", "new", "true", "false", "null", "read"]

/-- The first of the characters of names at the offset. -/
theorem charAt_of_wordOf {word : String} {first : Char} (h : wordOf text i = word)
    (hfirst : word.toList.head? = some first) : charAt text i = first := by
  rw [← h, wordOf, sliceOf, String.toList_ofList, List.head?_eq_getElem?, Array.getElem?_toList,
    Overlap.getElem?_extract_eq] at hfirst
  split at hfirst
  · exact charAt_eq_of_getElem? hfirst
  · cases hfirst

/-- A name that is no keyword begins no construct. -/
theorem wordOf_not_construct (h : nameStop? text i = some e)
    (hname : (nameAt text i e).isKeyword = false) : wordOf text i ∉ constructWords := by
  intro hmem
  have hne : ∀ word ∈ constructWords, word.toList.head?.any isLetter = true ∧ word ≠ "_" ∧
    keywords.contains word = true := by decide
  obtain ⟨hletter, hblank, hkeyword⟩ := hne _ hmem
  obtain ⟨first, hfirst, hletter⟩ := (Option.any_eq_true _ _).1 hletter
  have hchar := charAt_of_wordOf rfl hfirst
  have hquote : charAt text i ≠ backtick := by
    rintro heq
    rw [← hchar, heq] at hletter
    exact absurd hletter (by decide)
  have hsigns : ((first == '_') || (first == '$')) = false := by
    rw [Bool.or_eq_false_iff]
    refine ⟨beq_false_of_ne ?_, beq_false_of_ne ?_⟩ <;> rintro rfl <;>
      exact absurd hletter (by decide)
  rw [nameAt_of_word hquote h, Identifier.isKeyword, IdentifierKind.ofName, hchar, hsigns,
    beq_false_of_ne hblank, hkeyword] at hname
  simp at hname

/-- A name that is no reserved word begins no construct. -/
theorem wordOf_not_construct_of_name (h : nameStop? text i = some e)
    (hname : (nameAt text i e).isReservedWord = false) : wordOf text i ∉ constructWords := by
  refine wordOf_not_construct h ?_
  rw [Identifier.isReservedWord, isReserved] at hname
  rw [Identifier.isKeyword]
  cases hkind : (nameAt text i e).kind == .plain with
  | false => rfl
  | true =>
    rw [hkind, Bool.true_and, Bool.or_eq_false_iff] at hname
    rw [hname.1, Bool.and_false]

/-- A name between backticks begins no construct. -/
theorem wordOf_quoted (h : charAt text i = backtick) : wordOf text i ∉ constructWords := by
  have hstop : skipWhile text continuesName i = i :=
    skipWhile_eq_self fun hsize => by rw [← charAt_of_lt hsize, h]; decide
  rw [wordOf, hstop, sliceOf, Array.extract_eq_empty_of_le (by omega)]
  decide

namespace Parser

variable {ctx : Context}

/-- Where a name stands, it is read. -/
theorem identifier?_run (h : nameStop? ctx.text s.pos = some e) :
    identifier? ctx s = .ok (some (nameAt ctx.text s.pos e)) { s with pos := e } := by
  have hlt := lt_nameStop? h
  rw [nameStop?] at h
  rw [identifier?, peek_looks.bind_apply, nameAt]
  split at h
  · rename_i hfirst
    rw [if_pos hfirst, if_pos hfirst, bind_apply, quotedIdentifier, theText_looks.bind_apply,
      position_looks.bind_apply]
    split at h
    · rename_i hlast
      cases h
      rw [show (fun c => c != backtick && c != '\n') = isQuoted from rfl, if_pos hlast]
      rfl
    · cases h
  · rename_i hfirst
    rw [if_neg hfirst, if_neg hfirst]
    split at h
    · rename_i hstart
      cases h
      rw [if_pos hstart]
      rfl
    · cases h

/-- Where no name stands, none is read; only a quoted name can be begun. -/
theorem identifier?_run_none (h : nameStop? ctx.text s.pos = none) :
    identifier? ctx s = .ok none s ∨ charAt ctx.text s.pos = backtick ∧
      ∃ s', identifier? ctx s = .error .failed s' ∧ s'.mode = s.mode := by
  rw [nameStop?] at h
  rw [identifier?, peek_looks.bind_apply]
  split at h
  · rename_i hfirst
    refine .inr ⟨by simpa using hfirst, ?_⟩
    rw [if_pos hfirst, bind_apply, quotedIdentifier, theText_looks.bind_apply,
      position_looks.bind_apply]
    split at h
    · cases h
    · rename_i hlast
      rw [show (fun c => c != backtick && c != '\n') = isQuoted from rfl, if_neg hlast]
      exact ⟨_, rfl, rfl⟩
  · rename_i hfirst
    rw [if_neg hfirst]
    split at h
    · cases h
    · rename_i hstart
      rw [if_neg hstart]
      exact .inl rfl

theorem identifier_run (h : nameStop? ctx.text s.pos = some e) (what : String) :
    identifier what ctx s = .ok (nameAt ctx.text s.pos e) { s with pos := e } := by
  rw [identifier, bind_apply, identifier?_run h]
  rfl

end Parser

/-! ### What an expression begins with -/

/-- The parse has gone through a state in which the last token ended at `e`. -/
def Via (text : Array Char) (e : Nat) (s' : State) (c' : Nat) : Prop :=
  ∃ s, s.mode = .loose ∧ Onward text s e s' c'

namespace Via

theorem onward {s'' : State} {c'' : Nat} (h : Via text e s' c') (hon : Onward text s' c' s'' c'') :
    Via text e s'' c'' := by
  obtain ⟨s, hmode, hon'⟩ := h
  exact ⟨s, hmode, hon'.trans hon⟩

theorem mode_eq (h : Via text e s' c') : s'.mode = .loose := by
  obtain ⟨s, hmode, hon⟩ := h
  exact hon.mode_eq.trans hmode

/-- Either nothing was read behind, or something behind the trivia that follow. -/
theorem cases (h : Via text e s' c') : c' = e ∨ skipEnd text e < c' ∨ s'.HasError := by
  obtain ⟨s, hmode, hon⟩ := h
  rcases hon.moved with heq | hlt | ⟨-, herror⟩
  · exact .inl heq
  · rw [State.front, hmode] at hlt
    exact .inr (.inl hlt)
  · exact .inr (.inr herror)

end Via

/-- Neither a colon nor a comma nor a closing parenthesis goes on with an expression. -/
def halts (c : Char) : Bool := c == ':' || c == ',' || c == ')'

/-- What the beginning of an expression behind `c` says of a parse that has read it: the expression
begins with no closing parenthesis, and no name is left open. If it begins with a name, then either
it ends with the name, or it goes on behind the trivia that follow, but not with a sign that does
not go on with an expression. If it begins with a parenthesis it has gone on behind that, and also
behind a `this`. -/
structure Opened (text : Array Char) (c : Nat) (s' : State) (c' : Nat) : Prop where
  not_close : charAt text (skipEnd text c) ≠ ')'
  quoted : charAt text (skipEnd text c) = backtick → nameStop? text (skipEnd text c) ≠ none
  name : ∀ e, nameStop? text (skipEnd text c) = some e →
    wordOf text (skipEnd text c) ∉ constructWords →
      Via text e s' c' ∧ (halts (charAt text (skipEnd text e)) = true → c' = e)
  paren : charAt text (skipEnd text c) = '(' →
    Via text (skipEnd text c + 1) s' c' ∧ skipEnd text c + 1 < c' ∧
      (wordAt text "this" (skipEnd text (skipEnd text c + 1)) = true →
        Via text (skipEnd text (skipEnd text c + 1) + 4) s' c')

namespace Opened

/-- The beginning says nothing more. -/
theorem of_sign (h : charAt text (skipEnd text c) ≠ ')')
    (hquote : charAt text (skipEnd text c) ≠ backtick)
    (hstart : startsName (charAt text (skipEnd text c)) = false)
    (hparen : charAt text (skipEnd text c) ≠ '(') : Opened text c s' c' where
  not_close := h
  quoted := fun heq => absurd heq hquote
  name := fun e he => by
    rw [nameStop?_eq_none hquote hstart] at he
    cases he
  paren := fun heq => absurd heq hparen

/-- An expression that begins with a parenthesis and goes on behind it. -/
theorem of_paren (hopen : charAt text (skipEnd text c) = '(')
    (hvia : Via text (skipEnd text c + 1) s' c') (hlt : skipEnd text c + 1 < c')
    (hthis : wordAt text "this" (skipEnd text (skipEnd text c + 1)) = true →
      Via text (skipEnd text (skipEnd text c + 1) + 4) s' c') : Opened text c s' c' where
  not_close := by
    rw [hopen]
    decide
  quoted := fun heq => absurd (hopen.symm.trans heq) (by decide)
  name := fun e he => by
    rw [nameStop?_eq_none (by rw [hopen]; decide) (by rw [hopen]; decide)] at he
    cases he
  paren := fun _ => ⟨hvia, hlt, hthis⟩

/-- An expression that begins with a letter, and with a name or not. -/
theorem of_start (hstart : startsName (charAt text (skipEnd text c)) = true)
    (hname : ∀ e, nameStop? text (skipEnd text c) = some e →
      wordOf text (skipEnd text c) ∉ constructWords →
        Via text e s' c' ∧ (halts (charAt text (skipEnd text e)) = true → c' = e)) :
    Opened text c s' c' where
  not_close := by
    rintro heq
    rw [heq] at hstart
    exact absurd hstart (by decide)
  quoted := by
    rintro heq
    rw [heq] at hstart
    exact absurd hstart (by decide)
  name := hname
  paren := by
    rintro heq
    rw [heq] at hstart
    exact absurd hstart (by decide)

/-- An expression that begins with a name. -/
theorem of_name (hname : nameStop? text (skipEnd text c) = some e) (hvia : Via text e s' c')
    (hhalts : halts (charAt text (skipEnd text e)) = true → c' = e) : Opened text c s' c' := by
  have hne {d : Char} (hquote : d ≠ backtick) (hstart : startsName d = false) :
      charAt text (skipEnd text c) ≠ d := by
    rintro rfl
    rcases begins_of_nameStop? hname with h | h
    · exact hquote h
    · exact Bool.false_ne_true (hstart.symm.trans h)
  refine ⟨hne (by decide) (by decide), fun _ => by simp [hname], fun e' he _ => ?_,
    fun hopen => absurd hopen (hne (by decide) (by decide))⟩
  rw [hname] at he
  cases he
  exact ⟨hvia, hhalts⟩

/-- A construct that begins with a word of its own. -/
theorem of_construct (hword : wordOf text (skipEnd text c) ∈ constructWords) :
    Opened text c s' c' := by
  have hfirst : ∀ word ∈ constructWords, word.toList.head?.any startsName = true := by decide
  obtain ⟨first, hfirst, hstart⟩ := (Option.any_eq_true _ _).1 (hfirst _ hword)
  exact of_start (by rwa [charAt_of_wordOf rfl hfirst]) fun e _ hnot => absurd hword hnot

theorem of_word {word : String} (hword : word ∈ constructWords)
    (hat : wordAt text word (skipEnd text c) = true) : Opened text c s' c' := by
  have hname : ∀ word ∈ constructWords, isName word = true := by decide
  exact of_construct (by rwa [wordOf_eq (hname word hword) hat])

/-- Going on with the expression. -/
theorem step {s₁ s₂ : State} {c₁ c₂ : Nat} (h : Opened text c s₁ c₁)
    (hon : Onward text s₁ c₁ s₂ c₂) (hgo : halts (charAt text (skipEnd text c₁)) = false) :
    Opened text c s₂ c₂ where
  not_close := h.not_close
  quoted := h.quoted
  name := fun e he hword => by
    obtain ⟨hvia, hhalts⟩ := h.name e he hword
    refine ⟨hvia.onward hon, fun hat => ?_⟩
    obtain rfl := hhalts hat
    rw [hgo] at hat
    cases hat
  paren := fun heq => by
    obtain ⟨hvia, hlt, hthis⟩ := h.paren heq
    exact ⟨hvia.onward hon, Nat.lt_of_lt_of_le hlt hon.le, fun hat => (hthis hat).onward hon⟩

/-- Nothing more is read. -/
theorem rest {s₁ s₂ : State} {c₁ : Nat} (h : Opened text c s₁ c₁) (hon : Onward text s₁ c₁ s₂ c₁) :
    Opened text c s₂ c₁ where
  not_close := h.not_close
  quoted := h.quoted
  name := fun e he hword =>
    ⟨(h.name e he hword).1.onward hon, (h.name e he hword).2⟩
  paren := fun heq => by
    obtain ⟨hvia, hlt, hthis⟩ := h.paren heq
    exact ⟨hvia.onward hon, hlt, fun hat => (hthis hat).onward hon⟩

end Opened

namespace Overlap

variable {W : Overlap} {b : Bool}

/-- Where a parse is live that has gone through a place, the trivia behind that place lie in the
stretch. -/
theorem Live.inside_via (h : W.Live false s' c') (hvia : Via W.left.text e s' c') :
    W.Inside (skipEnd W.left.text e) := by
  rcases h with hw | ⟨herror, hlt | ⟨hb, -⟩⟩
  · exact .inr hw
  · rw [State.front, hvia.mode_eq] at hlt
    have hle := @le_skipEnd W.left.text c'
    rcases hvia.cases with rfl | hlt' | he
    · exact .inl hlt
    · simp only at hlt
      exact .inl (by omega)
    · exact absurd he herror
  · cases hb

/-- A name that ends in the stretch is the same name in both texts. -/
theorem nameStop?_place (h : W.lo ≤ i) (hi : W.Inside i)
    (hstop : ∀ e, nameStop? W.left.text i = some e → e ≤ W.stop ∨ W.whole = true)
    (hquoted : charAt W.left.text i = backtick → nameStop? W.left.text i = none → W.whole = true) :
    nameStop? W.right.text (W.place i) = (nameStop? W.left.text i).map W.place := by
  rw [nameStop?, charAt_place h hi]
  by_cases hfirst : (charAt W.left.text i == backtick) = true
  · have hle := le_skipWhile W.left.text isQuoted (i + 1)
    have hin : W.Inside (skipWhile W.left.text isQuoted (i + 1)) := by
      cases hname : nameStop? W.left.text i with
      | none => exact .inr (hquoted (by simpa using hfirst) hname)
      | some e =>
        refine (hstop e hname).imp_left fun hle' => ?_
        rw [nameStop?, if_pos hfirst] at hname
        split at hname
        · cases hname
          omega
        · cases hname
    rw [nameStop?, if_pos hfirst, if_pos hfirst, ← place_add h,
      skipWhile_place (by omega) (.inl hin)]
    rw [charAt_place (by omega) hin]
    split
    · rw [← place_add (by omega)]
      rfl
    · rfl
  · rw [if_neg hfirst, nameStop?, if_neg hfirst, (nameEnd_place h hi fun _ hc => hc).1]
    split <;> rfl

theorem nameAt_place (h : W.lo ≤ i) (hi : W.Inside i) (hname : nameStop? W.left.text i = some e)
    (hstop : e ≤ W.stop ∨ W.whole = true) :
    nameAt W.right.text (W.place i) (W.place e) = (nameAt W.left.text i e).placed W.shift := by
  have hlt := lt_nameStop? hname
  rw [nameAt, nameAt, charAt_place h hi]
  split
  · have hpred : W.place e - 1 = W.place (e - 1) := by
      have := place_add (W := W) (i := e - 1) (by omega) 1
      rw [Nat.sub_add_cancel (by omega)] at this
      omega
    rw [← place_add h, hpred,
      sliceOf_place (by omega) (by omega) (hstop.imp_left fun _ => by omega),
      ofNat_place h (by omega)]
    rfl
  · rw [sliceOf_place h (by omega) hstop, ofNat_place h (by omega)]
    rfl

end Overlap

end PklSyntax
