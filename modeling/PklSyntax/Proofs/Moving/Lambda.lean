import PklSyntax.Proofs.Moving.Heads
import PklSyntax.Proofs.Printing.Lookahead

/-!
# Looking for a lambda in two texts

At a parenthesis the parameters of a lambda are tried first. When none are found, the expression in
parentheses that is read instead has a closing parenthesis somewhere, and in front of that all that
was tried was a name with neither a colon nor a comma behind it. So it is known what is found in the
other text.

## Main definitions

* `Grammar.lambdaHead`: the parameters and the arrow of a lambda.
* `lambdaAt`: whether a name in parentheses is the parameter of a lambda.

## Main statements

* `Grammar.parenthesized_eq`: a lambda or an expression in parentheses, by reading ahead.
* `Grammar.lambdaHead_run`: what comes of looking for a lambda.
-/

namespace PklSyntax

open PklSyntax.Parser

/-- Where the parameter ends that is the name at the offset. -/
def paramStop? (text : Array Char) (i : Nat) : Option Nat :=
  (nameStop? text i).filter fun e => !(nameAt text i e).isReservedWord

/-- The name at the offset is the only parameter of a lambda. -/
def lambdaAt (text : Array Char) (i : Nat) : Bool :=
  (paramStop? text i).any fun e => charAt text (skipEnd text e) == ')' &&
    matchesAt text "->" (skipEnd text (skipEnd text e + 1))

/-- Neither a closing parenthesis stands behind `o`, nor a name with a colon or a comma behind
it. -/
structure PlainHead (text : Array Char) (o : Nat) : Prop where
  not_close : charAt text (skipEnd text o) ≠ ')'
  name : ∀ e, paramStop? text (skipEnd text o) = some e →
    charAt text (skipEnd text e) ≠ ':' ∧ charAt text (skipEnd text e) ≠ ','

/-! ### Steps from where a token ended -/

/-- The parse is behind a token that ends at `c`, where trivia may be skipped. -/
structure Loosely (text : Array Char) (s : State) (c : Nat) : Prop where
  stands : Stands text s c
  mode : s.mode = .loose

section Steps

variable {ctx : Context} {s : State} {c : Nat}

theorem Loosely.skip (h : Loosely ctx.text s c) :
    Parser.skip.Reads ctx s fun _ s' => Loosely ctx.text s' c ∧ s'.pos = skipEnd ctx.text c := by
  obtain ⟨hon, hpos, -⟩ := h.stands.skipTrivia h.mode
  exact ⟨(), s.skipTrivia ctx.text, rfl, ⟨hon.stands, hon.mode_eq.trans h.mode⟩, hpos⟩

theorem Loosely.atToken (h : Loosely ctx.text s c) (token : String) :
    (Parser.atToken token).Reads ctx s fun found s' =>
      found = matchesAt ctx.text token (skipEnd ctx.text c) ∧ Loosely ctx.text s' c ∧
        s'.pos = skipEnd ctx.text c :=
  h.skip.bind fun _ _ hskip => .value (startsWith_looks _) ⟨by rw [hskip.2], hskip⟩

theorem Loosely.at_pos (h : Loosely ctx.text s c) {pos : Nat} (hlt : s.pos < pos)
    (hsize : pos ≤ ctx.text.size) : Loosely ctx.text { s with pos } pos :=
  ⟨h.stands.at_pos hlt hsize, h.mode⟩

theorem Loosely.advance (h : Loosely ctx.text s c) {n : Nat} (hn : 0 < n)
    (hsize : s.pos + n ≤ ctx.text.size) :
    (Parser.advance n).Reads ctx s fun _ s' =>
      Loosely ctx.text s' (s.pos + n) ∧ s'.pos = s.pos + n := by
  refine ⟨(), { s with pos := s.pos + n }, ?_, h.at_pos (by omega) hsize, rfl⟩
  show Parser.moveTo (min ctx.text.size (s.pos + n)) ctx s = _
  rw [Nat.min_eq_right hsize]
  rfl

/-- A keyword that is looked for, and read if it is there. -/
theorem Loosely.acceptKeyword (h : Loosely ctx.text s c) (word : String) (hne : word ≠ "") :
    (Parser.acceptKeyword word).Reads ctx s fun found s' =>
      found = wordAt ctx.text word (skipEnd ctx.text c) ∧
        Loosely ctx.text s' (if found = true then skipEnd ctx.text c + word.length else c) := by
  refine Reads.bind (P := fun found s' => found = wordAt ctx.text word (skipEnd ctx.text c) ∧
    Loosely ctx.text s' c ∧ s'.pos = skipEnd ctx.text c) (h.skip.bind fun _ _ hskip =>
      .value (atWord_looks _) ⟨by rw [hskip.2], hskip⟩) fun found s₁ ⟨hfound, hskip, hpos⟩ => ?_
  cases found with
  | false => exact .pure ⟨hfound, hskip⟩
  | true =>
    have hsize := add_length_le_of_matchesAt (matchesAt_of_wordAt hfound.symm) hne
    have hlen : 0 < word.length := Nat.pos_of_ne_zero fun h => hne (String.length_eq_zero_iff.1 h)
    refine (hskip.advance hlen (by rwa [hpos])).bind fun _ _ hadv => .pure ⟨hfound, ?_⟩
    rw [if_pos rfl, ← hpos]
    exact hadv.1

/-- A token that is not there. -/
theorem Loosely.not_accept? (h : Loosely ctx.text s c) {token : String}
    (hnot : matchesAt ctx.text token (skipEnd ctx.text c) = false) :
    (Parser.accept? token).Reads ctx s fun span? s' => span? = none ∧ Loosely ctx.text s' c :=
  (h.atToken token).bind fun _ _ ⟨hfound, hskip, _⟩ =>
    .ite_false (hfound.trans hnot) (.pure ⟨rfl, hskip⟩)

theorem Loosely.not_accept (h : Loosely ctx.text s c) {token : String}
    (hnot : matchesAt ctx.text token (skipEnd ctx.text c) = false) :
    (Parser.accept token).Reads ctx s fun found s' => found = false ∧ Loosely ctx.text s' c :=
  (h.not_accept? hnot).bind fun _ _ ⟨hnone, hskip⟩ => .pure ⟨by rw [hnone]; rfl, hskip⟩

theorem Loosely.not_expect (h : Loosely ctx.text s c) {token : String}
    (hnot : matchesAt ctx.text token (skipEnd ctx.text c) = false) :
    (Parser.expect token).Fails ctx s :=
  (h.not_accept? hnot).bind_fails fun _ _ ⟨hnone, hskip⟩ => by
    rw [hnone]
    exact failExpected_fails _ hskip.mode

theorem matchesAt_of_charAt {text : Array Char} {i : Nat} {word : String} {first : Char}
    (hword : word.toList = [first]) (h : charAt text i = first) (hnul : first ≠ '\x00') :
    matchesAt text word i = true := by
  have hlt := @lt_size_of_charAt_ne text i (by rwa [h])
  rw [matchesAt, hword, charsMatchAt, charsMatchAt, Bool.and_true, beq_iff_eq,
    Array.getElem?_eq_getElem hlt, ← charAt_of_lt hlt, h]

/-- A token of one sign that is there. -/
theorem Loosely.expect_sign (h : Loosely ctx.text s c) (token : String) (sign : Char)
    (htoken : token.toList = [sign]) (hnul : sign ≠ '\x00')
    (hsign : charAt ctx.text (skipEnd ctx.text c) = sign) :
    (Parser.expect token).Reads ctx s fun _ s' =>
      Loosely ctx.text s' (skipEnd ctx.text c + 1) := by
  have hmatch := matchesAt_of_charAt htoken hsign hnul
  have hlen : token.length = 1 := by rw [← String.length_toList, htoken]; rfl
  have hne : token ≠ "" := by
    rintro rfl
    simp at hlen
  have hsize := add_length_le_of_matchesAt hmatch hne
  rw [hlen] at hsize
  refine Reads.bind (P := fun span? s' => span?.isSome = true ∧
    Loosely ctx.text s' (skipEnd ctx.text c + 1)) ?_ fun span? s' ⟨hsome, hloose⟩ => ?_
  · refine (h.atToken token).bind fun found s₁ ⟨hfound, hskip, hpos⟩ =>
      .ite_true (hfound.trans hmatch) (Reads.bind (P := fun _ s' =>
        Loosely ctx.text s' (skipEnd ctx.text c + 1)) ?_ fun _ _ h' => .pure ⟨rfl, h'⟩)
    rw [hlen]
    exact .look position_looks ((hskip.advance Nat.one_pos (by omega)).bind fun _ s₂ h₂ =>
      .value (spanFrom_looks _) (hpos ▸ h₂.1))
  · obtain ⟨span, rfl⟩ := Option.isSome_iff_exists.1 hsome
    exact .pure hloose

theorem Loosely.not_matches {text : Array Char} {i : Nat} {word : String} {first : Char}
    (hfirst : word.toList[0]? = some first) (h : charAt text i ≠ first) :
    matchesAt text word i = false :=
  Bool.eq_false_iff.2 fun hmatch => h (by simpa using charAt_of_matchesAt hmatch hfirst)

/-- A name that is no keyword is read where something has to be named. -/
theorem Loosely.expectName (h : Loosely ctx.text s c) {e : Nat}
    (hname : paramStop? ctx.text (skipEnd ctx.text c) = some e) (what : String) :
    (Parser.expectName what).Reads ctx s fun _ s' => Loosely ctx.text s' e := by
  rw [paramStop?, Option.filter_eq_some_iff, Bool.not_eq_true'] at hname
  obtain ⟨hstop, hreserved⟩ := hname
  refine h.skip.bind fun _ s₁ ⟨h₁, hpos⟩ => ?_
  rw [← hpos] at hstop hreserved
  exact .of_run (identifier_run hstop what) (.ite_false hreserved
    (.pure (h₁.at_pos (lt_nameStop? hstop) (nameStop?_le_size hstop))))

/-- Where no name stands, or a keyword, nothing is named. -/
theorem Loosely.expectName_fails (h : Loosely ctx.text s c)
    (hname : paramStop? ctx.text (skipEnd ctx.text c) = none) (what : String) :
    (Parser.expectName what).Fails ctx s := by
  refine h.skip.bind_fails fun _ s₁ ⟨h₁, hpos⟩ => ?_
  rw [← hpos] at hname
  cases hstop : nameStop? ctx.text s₁.pos with
  | none =>
    refine .bind (?_ : (Parser.identifier what).Fails ctx s₁)
    rcases identifier?_run_none hstop with hrun | ⟨-, s', hrun, hmode⟩
    · refine Reads.bind_fails (P := fun name? s' => name? = none ∧ s' = s₁)
        ⟨_, _, hrun, rfl, rfl⟩ ?_
      rintro _ _ ⟨rfl, rfl⟩
      exact failExpected_fails _ h₁.mode
    · exact .bind ⟨s', hrun, hmode.trans h₁.mode⟩
  | some e =>
    rw [paramStop?, hstop, Option.filter_eq_none_iff] at hname
    have hreserved := hname e rfl
    rw [Bool.not_eq_true', Bool.not_eq_false] at hreserved
    refine Reads.bind_fails (P := fun name s' => name.isReservedWord = true ∧ s'.mode = .loose)
      ⟨_, _, identifier_run hstop what, hreserved, h₁.mode⟩ fun name s' ⟨hreserved, hmode⟩ => ?_
    rw [if_pos hreserved]
    exact .bind (failWith_fails _ _ hmode)

end Steps

namespace Grammar

variable {g : Grammar} {ctx : Context} {s : State} {c : Nat}

/-! ### Parameters and an arrow -/

/-- The parameters of a lambda up to the arrow, which is not read, if both are there. -/
def lambdaHead (g : Grammar) : Parser (Option (List Param)) := do
  match ← attempt g.params with
  | none => return none
  | some (params, _) => if ← atToken "->" then return some params else return none

/-- A lambda or an expression in parentheses, whichever is found by reading ahead. -/
theorem parenthesized_eq (g : Grammar) :
    g.parenthesized = (do
      let start ← position
      reading g.lambdaHead (fun params => do
        advance 2
        let body ← g.expr
        return .lambda params body ⟨start, body.span.stop⟩) (do
        advance 1
        let inner ← g.expr
        let close ← expect ")"
        return .paren inner ⟨start, close.stop⟩)) := by
  funext ctx s
  rw [Grammar.parenthesized, position_looks.bind_apply, position_looks.bind_apply, bind_apply,
    Grammar.lambda?, mark_looks.bind_apply, position_looks.bind_apply, bind_apply, reading,
    mark_looks.bind_apply, bind_apply, lambdaHead, bind_apply]
  cases attempt g.params ctx s with
  | error stop s₁ => rfl
  | ok params? s₁ =>
    cases params? with
    | none => rfl
    | some params =>
      dsimp only
      rw [bind_apply, bind_apply]
      cases atToken "->" ctx s₁ with
      | error stop s₂ => rfl
      | ok arrow s₂ =>
        cases arrow with
        | false => rfl
        | true =>
          have hpure : (Pure.pure (some params.1) : Parser (Option (List Param))) ctx s₂ =
              .ok (some params.1) s₂ := rfl
          simp only [if_true, hpure, bind_apply]
          cases advance 2 ctx s₂ with
          | error stop s₃ => rfl
          | ok _ s₃ =>
            dsimp only
            cases g.expr ctx s₃ <;> rfl

/-- No lambda, when no parameters can be read. -/
theorem lambdaHead_of_fails (h : g.params.Fails ctx s) :
    g.lambdaHead.Reads ctx s fun head? _ => head? = none :=
  h.attempt.bind fun params? s₁ ⟨hnone, _⟩ => by
    rw [hnone]
    exact .pure rfl

/-- What comes of looking for a lambda at a parenthesis where a closing one does not follow, nor a
name with a colon or a comma behind it. -/
theorem lambdaHead_run (h : Loosely ctx.text s c) (hopen : charAt ctx.text s.pos = '(')
    (hplain : PlainHead ctx.text (s.pos + 1)) :
    g.lambdaHead.Reads ctx s fun head? _ =>
      head?.isSome = lambdaAt ctx.text (skipEnd ctx.text (s.pos + 1)) := by
  have hskip : skipEnd ctx.text c = s.pos :=
    ((h.stands.poised_of_opens (by rw [hopen]; decide)).pos_eq_front h.stands ▸ by
      rw [State.front, h.mode])
  have hopening : (expect "(").Reads ctx s fun _ s' => Loosely ctx.text s' (s.pos + 1) := by
    have := h.expect_sign "(" '(' (by decide) (by decide) (by rw [hskip, hopen])
    rwa [hskip] at this
  -- The first round is the only one.
  have hlist {Q : List Param → State → Prop} (s₁ : State) (h₁ : Loosely ctx.text s₁ (s.pos + 1))
      (hround : ∀ s', Loosely ctx.text s' (s.pos + 1) → g.param.Reads ctx s' fun param s' =>
        (accept ",").Reads ctx s' fun more s' => more = false ∧ Q [param] s') :
      (commaList ")" g.param).Reads ctx s₁ Q := by
    refine Reads.bind (P := fun items s' => Q items.toList s') (Loops.reads (.done ?_))
      fun _ _ hQ => .pure hQ
    refine (h₁.atToken ")").bind fun found s₂ hfound => .ite_false ?_ ?_
    · rw [hfound.1, Loosely.not_matches (by decide) hplain.not_close]
    · exact (hround s₂ hfound.2.1).bind fun param s₃ haccept =>
        haccept.bind fun more s₄ hmore => .ite_false hmore.1 (.pure ⟨_, rfl, hmore.2⟩)
  cases hname : paramStop? ctx.text (skipEnd ctx.text (s.pos + 1)) with
  | none =>
    rw [lambdaAt, hname]
    refine (lambdaHead_of_fails (hopening.bind_fails fun _ s₁ h₁ =>
      .bind (.bind (.repeating ?_)))).mono
      fun head? _ hnone => by rw [hnone]; rfl
    refine (h₁.atToken ")").bind_fails fun found s₂ hfound => ?_
    rw [hfound.1, Loosely.not_matches (by decide) hplain.not_close]
    exact .bind (.bind (hfound.2.1.expectName_fails hname _))
  | some e =>
    rw [lambdaAt, hname]
    have hnot := hplain.name e hname
    have hparams (s₁ : State) (h₁ : Loosely ctx.text s₁ (s.pos + 1)) :
        (commaList ")" g.param).Reads ctx s₁ fun _ s' => Loosely ctx.text s' e := by
      refine hlist s₁ h₁ fun s₂ h₂ => (h₂.expectName hname _).bind fun name s₃ h₃ =>
        (h₃.not_accept (Loosely.not_matches (by decide) hnot.1)).bind fun found s₄ hfound =>
          .ite_false hfound.1 (.of_run rfl (.pure ?_))
      exact hfound.2.not_accept (Loosely.not_matches (by decide) hnot.2)
    by_cases hlast : charAt ctx.text (skipEnd ctx.text e) = ')'
    · refine Reads.bind (P := fun params? s' => params? ≠ none ∧
        Loosely ctx.text s' (skipEnd ctx.text e + 1)) ?_ fun params? s' hparams? => ?_
      · refine (Reads.attempt (Q := fun _ s' => Loosely ctx.text s' (skipEnd ctx.text e + 1))
          (hopening.bind fun _ s₁ h₁ => (hparams s₁ h₁).bind fun params s₂ h₂ =>
            (h₂.expect_sign _ _ (by decide) (by decide) hlast).bind fun close s₃ h₃ =>
              .pure h₃)).mono ?_
        rintro _ s' ⟨params, rfl, h'⟩
        exact ⟨Option.some_ne_none _, h'⟩
      · obtain ⟨hsome, h'⟩ := hparams?
        obtain ⟨params, rfl⟩ := Option.ne_none_iff_exists'.1 hsome
        refine (h'.atToken "->").bind fun arrow s₄ harrow => ?_
        rw [Option.any_some, hlast, ← harrow.1]
        cases arrow with
        | false => exact .pure rfl
        | true => exact .pure rfl
    · refine (lambdaHead_of_fails (hopening.bind_fails fun _ s₁ h₁ =>
        (hparams s₁ h₁).bind_fails fun params s₂ h₂ =>
          .bind (h₂.not_expect (Loosely.not_matches (by decide) hlast)))).mono
            fun head? _ hnone => ?_
      rw [hnone, Option.any_some, beq_false_of_ne hlast]
      rfl

end Grammar

/-! ### In two texts -/

/-- Behind `o` stands an expression, and behind it a closing parenthesis that ends at `c'`. -/
def Enclosed (text : Array Char) (o : Nat) (s' : State) (c' : Nat) : Prop :=
  ∃ s₁ c₁, Opened text o s₁ c₁ ∧ Via text o s₁ c₁ ∧ o < c₁ ∧ Onward text s₁ c₁ s' c' ∧
    charAt text (skipEnd text c₁) = ')' ∧ c' = skipEnd text c₁ + 1

namespace Overlap

variable {W : Overlap} {o c' : Nat} {s' : State}

/-- What stands behind `o` may begin with a name, and then lies in the stretch together with the
trivia behind that. -/
structure Heading (W : Overlap) (o : Nat) : Prop where
  inside : W.Inside (skipEnd W.left.text o)
  quoted : charAt W.left.text (skipEnd W.left.text o) = backtick →
    nameStop? W.left.text (skipEnd W.left.text o) = none → W.whole = true
  name : ∀ e, nameStop? W.left.text (skipEnd W.left.text o) = some e →
    wordOf W.left.text (skipEnd W.left.text o) ∉ constructWords → W.Inside (skipEnd W.left.text e)

/-- How an expression in parentheses begins that ends in the stretch, where its closing parenthesis
ends at `c'`. -/
structure Opening (W : Overlap) (o : Nat) (c' : Nat) : Prop extends W.Heading o where
  not_close : charAt W.left.text (skipEnd W.left.text o) ≠ ')'
  closed : ∀ e, nameStop? W.left.text (skipEnd W.left.text o) = some e →
    wordOf W.left.text (skipEnd W.left.text o) ∉ constructWords →
      charAt W.left.text (skipEnd W.left.text e) ≠ ':' ∧
        charAt W.left.text (skipEnd W.left.text e) ≠ ',' ∧
        (charAt W.left.text (skipEnd W.left.text e) = ')' → skipEnd W.left.text e + 1 = c')

theorem opening_of_enclosed (h : Enclosed W.left.text o s' c') (hlive : W.Live true s' c') :
    W.Opening o c' := by
  obtain ⟨s₁, c₁, hopened, hvia, -, hon, hclose, rfl⟩ := h
  -- The closing parenthesis lies in the stretch.
  have hin : W.whole = true ∨ ¬ s'.HasError ∧ skipEnd W.left.text c₁ < W.stop := by
    refine hlive.imp_right fun ⟨herror, hor⟩ => ⟨herror, ?_⟩
    have := hon.stands.le_pos
    have := hon.stands.pos_le_front
    rcases hor with hlt' | ⟨-, heq⟩ <;> omega
  have hbehind {e : Nat} (hvia : Via W.left.text e s₁ c₁) : W.Inside (skipEnd W.left.text e) := by
    rcases hin with hw | ⟨herror, hstop⟩
    · exact .inr hw
    · have := @le_skipEnd W.left.text c₁
      rcases hvia.cases with rfl | hlt | he
      · exact .inl hstop
      · exact .inl (by omega)
      · exact absurd (hon.hasError he) herror
  refine ⟨⟨hbehind hvia, fun hquote hnone => absurd hnone (hopened.quoted hquote),
    fun e he hword => hbehind (hopened.name e he hword).1⟩, hopened.not_close, fun e he hword => ?_⟩
  have hhalts := (hopened.name e he hword).2
  refine ⟨fun hcolon => ?_, fun hcomma => ?_, fun hparen => ?_⟩
  · obtain rfl := hhalts (by rw [hcolon]; rfl)
    rw [hclose] at hcolon
    cases hcolon
  · obtain rfl := hhalts (by rw [hcomma]; rfl)
    rw [hclose] at hcomma
    cases hcomma
  · obtain rfl := hhalts (by rw [hparen]; rfl)
    rfl

/-- Where a sign that may follow a construct is looked for, behind a token that ends the
construct. -/
theorem Live.matchesAt_behind (h : W.Live true s' c') (hlo : W.lo ≤ c') (hmode : s'.mode = .loose)
    {word : String} (hmark : isMark word = true) :
    matchesAt W.right.text word (skipEnd W.right.text (W.place c')) =
      matchesAt W.left.text word (skipEnd W.left.text c') := by
  have hinside (hin : W.Inside (skipEnd W.left.text c')) :
      matchesAt W.right.text word (skipEnd W.right.text (W.place c')) =
        matchesAt W.left.text word (skipEnd W.left.text c') := by
    rw [isMark, Bool.and_eq_true] at hmark
    have := @le_skipEnd W.left.text c'
    rw [skipEnd_place hlo hin, matchesAt_place hmark.1 (by omega) hin]
  rcases Bool.eq_false_or_eq_true W.whole with hw | hw
  · exact hinside (.inr hw)
  · rcases h with hw' | ⟨-, hlt | ⟨-, rfl⟩⟩
    · exact hinside (.inr hw')
    · rw [State.front, hmode] at hlt
      exact hinside (.inl hlt)
    · obtain ⟨-, hleft, hright, -⟩ := W.cut hw
      rw [hleft.follows.matchesAt_mark hmark]
      exact hright.follows.matchesAt_mark hmark

namespace Heading

variable (h : W.Heading o) (hlo : W.lo ≤ o)
include h hlo

/-- The name at the beginning ends in the stretch. -/
theorem le_stop {e : Nat} (hname : nameStop? W.left.text (skipEnd W.left.text o) = some e) :
    e ≤ W.stop ∨ W.whole = true := by
  have hle := @le_skipEnd W.left.text o
  by_cases hquote : charAt W.left.text (skipEnd W.left.text o) = backtick
  · have := @le_skipEnd W.left.text e
    exact (h.name e hname (wordOf_quoted hquote)).imp_left fun _ => by omega
  · rw [nameStop?, if_neg (by simpa using hquote)] at hname
    split at hname
    · cases hname
      exact (nameEnd_place (p := continuesName) (by omega) h.inside fun _ hc => hc).2
    · cases hname

theorem nameStop?_eq :
    nameStop? W.right.text (skipEnd W.right.text (W.place o)) =
      (nameStop? W.left.text (skipEnd W.left.text o)).map W.place := by
  have hle := @le_skipEnd W.left.text o
  rw [skipEnd_place hlo h.inside]
  exact nameStop?_place (by omega) h.inside (fun e => h.le_stop hlo) h.quoted

theorem nameAt_eq {e : Nat} (hname : nameStop? W.left.text (skipEnd W.left.text o) = some e) :
    nameAt W.right.text (skipEnd W.right.text (W.place o)) (W.place e) =
      (nameAt W.left.text (skipEnd W.left.text o) e).placed W.shift := by
  have hle := @le_skipEnd W.left.text o
  rw [skipEnd_place hlo h.inside]
  exact nameAt_place (by omega) h.inside hname (h.le_stop hlo hname)

end Heading

namespace Opening

variable (h : W.Opening o c') (hlo : W.lo ≤ o)
include h hlo

theorem paramStop?_eq :
    paramStop? W.right.text (skipEnd W.right.text (W.place o)) =
      (paramStop? W.left.text (skipEnd W.left.text o)).map W.place := by
  rw [paramStop?, paramStop?, h.nameStop?_eq hlo]
  cases hname : nameStop? W.left.text (skipEnd W.left.text o) with
  | none => rfl
  | some e =>
    rw [Option.map_some, Option.filter_some, Option.filter_some, h.nameAt_eq hlo hname,
      isReservedWord_placed]
    split <;> rfl

omit hlo in
theorem plainHead_left : PlainHead W.left.text o where
  not_close := h.not_close
  name := fun e he => by
    rw [paramStop?, Option.filter_eq_some_iff, Bool.not_eq_true'] at he
    obtain ⟨hcolon, hcomma, -⟩ := h.closed e he.1 (wordOf_not_construct_of_name he.1 he.2)
    exact ⟨hcolon, hcomma⟩

theorem plainHead_right : PlainHead W.right.text (W.place o) := by
  have hle := @le_skipEnd W.left.text o
  refine ⟨?_, fun e' he' => ?_⟩
  · rw [skipEnd_place hlo h.inside, charAt_place (by omega) h.inside]
    exact h.not_close
  · rw [h.paramStop?_eq hlo, Option.map_eq_some_iff] at he'
    obtain ⟨e, he, rfl⟩ := he'
    rw [paramStop?, Option.filter_eq_some_iff, Bool.not_eq_true'] at he
    have hlt := lt_nameStop? he.1
    have hle' := @le_skipEnd W.left.text e
    have hword := wordOf_not_construct_of_name he.1 he.2
    have hin := h.name e he.1 hword
    obtain ⟨hcolon, hcomma, -⟩ := h.closed e he.1 hword
    rw [skipEnd_place (by omega) hin, charAt_place (by omega) hin]
    exact ⟨hcolon, hcomma⟩

theorem lambdaAt_eq (hlive : W.Live true s' c') (hmode : s'.mode = .loose) :
    lambdaAt W.right.text (skipEnd W.right.text (W.place o)) =
      lambdaAt W.left.text (skipEnd W.left.text o) := by
  have hle := @le_skipEnd W.left.text o
  rw [lambdaAt, lambdaAt, h.paramStop?_eq hlo]
  cases hparam : paramStop? W.left.text (skipEnd W.left.text o) with
  | none => rfl
  | some e =>
    rw [paramStop?, Option.filter_eq_some_iff, Bool.not_eq_true'] at hparam
    obtain ⟨hname, hreserved⟩ := hparam
    have hlt := lt_nameStop? hname
    have hle' := @le_skipEnd W.left.text e
    have hword := wordOf_not_construct_of_name hname hreserved
    have hin := h.name e hname hword
    obtain ⟨-, -, hclose⟩ := h.closed e hname hword
    rw [Option.map_some, Option.any_some, Option.any_some, skipEnd_place (by omega) hin,
      charAt_place (by omega) hin]
    cases hchar : charAt W.left.text (skipEnd W.left.text e) == ')' with
    | false => rfl
    | true =>
      have heq := hclose (beq_iff_eq.1 hchar)
      rw [Bool.true_and, Bool.true_and, ← place_add (by omega), heq]
      exact hlive.matchesAt_behind (by omega) hmode (by decide)

end Opening

end Overlap

end PklSyntax
