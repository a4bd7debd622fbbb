import PklSyntax.Grammar.Expression
import PklSyntax.Proofs.Printing.Grouping
import PklSyntax.Proofs.Printing.Openings

/-!
# Looking for a lambda

At every parenthesis parameters are tried first, and when no lambda comes of it, the parser goes
back. Of an expression in parentheses no parameters can be read, unless it is a single name; then no
arrow follows.

## Main definitions

* `Parser.Fails`: a parser gives up.

## Main statements

* `Begins.params`: what comes of reading parameters where an expression is written.
* `Begins.lambda?`: no lambda is found there.
-/

namespace PklSyntax

open PklSyntax.Parser

/-! ### Going back -/

/-- The parser gives up, in the mode in which trivia may be skipped. -/
def Parser.Fails {α : Type} (p : Parser α) (ctx : Context) (s : State) : Prop :=
  ∃ s', p ctx s = .error .failed s' ∧ s'.mode = .loose

section Fails

variable {α β : Type} {ctx : Context} {s : State} {tokens : List String} {rest : List Char}

theorem Parser.Fails.bind {p : Parser α} {f : α → Parser β} (h : p.Fails ctx s) :
    (p >>= f).Fails ctx s := by
  obtain ⟨s', hrun, hmode⟩ := h
  exact ⟨s', by rw [bind_apply, hrun], hmode⟩

theorem Parser.Reads.bind_fails {p : Parser α} {f : α → Parser β} {P : α → State → Prop}
    (h : p.Reads ctx s P) (hf : ∀ a s', P a s' → (f a).Fails ctx s') : (p >>= f).Fails ctx s := by
  obtain ⟨a, s', hrun, hP⟩ := h
  obtain ⟨s'', hrun', hmode⟩ := hf a s' hP
  exact ⟨s'', by rw [bind_apply, hrun]; exact hrun', hmode⟩

theorem failWith_fails (problem : Problem) (span : Span) (hmode : s.mode = .loose) :
    (failWith problem span : Parser α).Fails ctx s :=
  ⟨_, rfl, hmode⟩

theorem Parser.Fails.idle {p : Parser α} {f : α → Parser β} (hp : Idle p)
    (hf : ∀ a, (f a).Fails ctx s) : (p >>= f).Fails ctx s := by
  obtain ⟨a, ha⟩ := hp ctx s
  obtain ⟨s', hrun, hmode⟩ := hf a
  exact ⟨s', by rw [bind_apply, ha]; exact hrun, hmode⟩

theorem failExpected_fails (what : String) (hmode : s.mode = .loose) :
    (failExpected what : Parser α).Fails ctx s := by
  refine .idle peek_looks.idle fun c => .idle atEnd_looks.idle fun stop => ?_
  split
  · exact .idle here_idle fun _ => failWith_fails _ _ hmode
  · exact .idle describeCurrent_idle fun _ => .idle here_idle fun _ => failWith_fails _ _ hmode

/-- A loop gives up when its first round does. -/
theorem Parser.Fails.repeating {step : α → Parser (Round α β)} {value : α}
    (h : (step value).Fails ctx s) : (Parser.repeating step value).Fails ctx s :=
  .idle theText_looks.idle fun _ => .idle position_looks.idle fun _ => h.bind

theorem Parser.Fails.attempt {p : Parser α} (h : p.Fails ctx s) :
    (Parser.attempt p).Reads ctx s fun result s' => result = none ∧ s'.mode = .loose := by
  obtain ⟨s', hrun, hmode⟩ := h
  exact ⟨none, s', by rw [Parser.attempt, hrun], rfl, hmode⟩

theorem Parser.Reads.attempt {p : Parser α} {Q : α → State → Prop} (h : p.Reads ctx s Q) :
    (Parser.attempt p).Reads ctx s fun result s' => ∃ a, result = some a ∧ Q a s' := by
  obtain ⟨a, s', hrun, hQ⟩ := h
  exact ⟨some a, s', by rw [Parser.attempt, hrun], a, rfl, hQ⟩

/-- Going back leads to where the cursor was. -/
theorem Line.rewind {s' : State} (h : Line ctx.text s tokens rest) (hmode : s'.mode = .loose) :
    Line ctx.text (s'.rewind s.checkpoint) tokens rest := by
  refine ⟨⟨hmode, ?_, ?_, h.quiet.attached, h.quiet.runStart⟩, h.tokens, h.oneLine, h.pos_le,
    h.rest⟩
  · simp [State.rewind, State.checkpoint, h.quiet.diagnostics]
  · simp [State.rewind, State.checkpoint, h.quiet.docs]

end Fails

/-! ### Parameters and lambdas -/

section Lambda

variable {g : Grammar} {ctx : Context} {s : State} {tokens rest : List String} {name : Identifier}

theorem joined_paren (tokens : List String) : joined ("(" :: tokens) = '(' :: spaced tokens := by
  have hparen : "(".toList = ['('] := by decide
  show "(".toList ++ spaced tokens = _
  rw [hparen]
  rfl

/-- The callee of a call and then its parenthesis. -/
theorem Line.callee (h : At ctx.text s ((name.name ++ "(") :: tokens)) :
    Line ctx.text s ("(" :: tokens) (name.name.toList ++ joined ("(" :: tokens)) := by
  have hrest : joined ((name.name ++ "(") :: tokens) =
      name.name.toList ++ joined ("(" :: tokens) := by
    simp [joined, firstToken]
  rw [← hrest]
  exact h.with_tokens (List.forall_mem_cons.2
    ⟨by decide, fun t ht => h.tokens t (List.mem_cons_of_mem _ ht)⟩)

/-- The callee of a call is read up to its parenthesis. -/
theorem Line.identifier_callee (h : At ctx.text s ((name.name ++ "(") :: tokens))
    (hname : name.IsPlain) (what : String) :
    (Parser.identifier what).Reads ctx s fun found s' =>
      (∃ span, found = ⟨name.name, .plain, span⟩) ∧ At ctx.text s' ("(" :: tokens) :=
  h.callee.identifier hname.isName (by
    rw [joined_paren]
    exact (by decide : continuesName '(' = false)) what

/-- A plain name is read where something has to be named. -/
theorem Line.expectName {chars : List Char} {tokens' : List String} (h : At ctx.text s tokens')
    (hline : ∀ s', At ctx.text s' tokens' → Line ctx.text s' tokens (name.name.toList ++ chars))
    (hname : name.IsPlain) (hchars : continuesName (chars[0]?.getD '\x00') = false)
    (what : String) :
    (Parser.expectName what).Reads ctx s fun found s' =>
      found.Alike name ∧ Line ctx.text s' tokens chars := by
  refine h.skip_at.bind fun _ s₁ ⟨hat, _⟩ =>
    ((hline s₁ hat).identifier hname.isName hchars what).bind
      fun found s₂ ⟨⟨span, hfound⟩, hrest⟩ => ?_
  rw [hfound]
  refine .ite_false ?_ (.pure ⟨⟨rfl, hname.kind_eq.symm⟩, hrest⟩)
  rw [Identifier.isReservedWord, hname.notReserved, Bool.and_false]

/-- A parameter without a type. -/
theorem param_reads
    (h : (expectName "a parameter name").Reads ctx s fun _ s' => Near ctx.text s' tokens)
    (hnext : ":".toList.isPrefixOf (firstToken tokens).toList = false) :
    g.param.Reads ctx s fun _ s' => At ctx.text s' tokens :=
  h.bind fun _ _ hnear => (hnear.not_accept ":" (by decide) hnext).bind
    fun _ _ ⟨htyped, hat⟩ => .ite_false htyped (.of_run rfl (.pure hat))

/-- Parameters of which the first has no type and no comma behind it. -/
theorem Near.params {tokens' : List String} (h : Near ctx.text s tokens')
    (hclose : ")".toList.isPrefixOf (firstToken tokens').toList = false)
    (hname : ∀ s', At ctx.text s' tokens' →
      (expectName "a parameter name").Reads ctx s' fun _ s'' => Near ctx.text s'' tokens)
    (hcolon : ":".toList.isPrefixOf (firstToken tokens).toList = false)
    (hcomma : ",".toList.isPrefixOf (firstToken tokens).toList = false) :
    (commaList ")" g.param).Reads ctx s fun _ s' => At ctx.text s' tokens := by
  refine Reads.bind (P := fun _ s' => At ctx.text s' tokens) (Loops.reads (.done ?_))
    fun _ _ hat => .pure hat
  refine (h.atToken ")").bind fun found s₁ ⟨hfound, hat⟩ => ?_
  rw [hat.matchesAt_eq ")" (by decide), hclose] at hfound
  exact .ite_false hfound ((param_reads (hname s₁ hat) hcolon).bind fun _ _ hat =>
    (hat.near_at.not_accept "," (by decide) hcomma).bind fun _ _ ⟨hmore, hat⟩ =>
      .ite_false hmore (.pure ⟨_, rfl, hat⟩))

theorem Near.not_expect (h : Near ctx.text s tokens) (word : String) (hblank : ' ' ∉ word.toList)
    (hno : word.toList.isPrefixOf (firstToken tokens).toList = false) :
    (Parser.expect word).Fails ctx s := by
  refine (h.not_accept? word hblank hno).bind_fails fun span? s' ⟨hnone, hat⟩ => ?_
  rw [hnone]
  exact failExpected_fails _ hat.quiet.mode

/-- Where no name begins, no parameter does. -/
theorem Near.params_fails {token : String} {first : Char} (h : Near ctx.text s (token :: tokens))
    (hfirst : token.toList[0]? = some first)
    (hopens : first.isDigit = true ∨ first = '(' ∨ first = '-' ∨ first = '!') :
    (commaList ")" g.param).Fails ctx s := by
  have hparen := (Begins.sign hfirst hopens : Begins [] (token :: tokens)).not_close
  have hname : startsName first = false := by
    rw [← Bool.not_eq_true]
    intro hname
    rcases hopens with h | rfl | rfl | rfl
    · have hno := not_isDigitLike_of_startsName hname
      simp [isDigitLike_of_isDigit h] at hno
    all_goals exact absurd hname (by decide)
  refine Fails.bind (.repeating ((h.atToken ")").bind_fails fun found s₁ ⟨hfound, hat⟩ => ?_))
  rw [hat.matchesAt_eq ")" (by decide)] at hfound
  rw [hfound, hparen]
  refine .bind (.bind (hat.skip_at.bind_fails fun _ s₂ ⟨hat₂, _⟩ => .bind ?_))
  have hchar : charAt ctx.text s₂.pos = first := hat₂.charAt_token hfirst
  refine Reads.bind_fails (P := fun name? s' => name? = none ∧ s' = s₂)
    (.look peek_looks (.ite_false ?_ (.ite_false ?_ (.pure ⟨rfl, rfl⟩)))) ?_
  · rw [hchar]
    refine beq_false_of_ne ?_
    rintro rfl
    revert hopens
    decide
  · rw [hchar, hname]
  · rintro _ _ ⟨rfl, rfl⟩
    exact failExpected_fails _ hat₂.quiet.mode

/-- A name that is a token of its own is read as a parameter. -/
theorem Near.params_name (h : Near ctx.text s (name.name :: tokens)) (hname : name.IsPlain)
    (hcolon : ":".toList.isPrefixOf (firstToken tokens).toList = false)
    (hcomma : ",".toList.isPrefixOf (firstToken tokens).toList = false) :
    (commaList ")" g.param).Reads ctx s fun _ s' => At ctx.text s' tokens := by
  refine h.params (Begins.alone hname).not_close (fun s' hat => ?_) hcolon hcomma
  have hrest : continuesName ((spaced tokens)[0]?.getD '\x00') = false := by
    rcases spaced_getD tokens with hchar | hchar <;> rw [hchar] <;> decide
  have hline (s' : State) (hat : At ctx.text s' (name.name :: tokens)) :
      Line ctx.text s' tokens (name.name.toList ++ spaced tokens) :=
    hat.with_tokens fun t ht => hat.tokens t (List.mem_cons_of_mem _ ht)
  exact (hat.expectName hline hname hrest _).mono fun _ _ ⟨_, hbehind⟩ =>
    Line.near_behind hbehind

/-- The callee of a call is read as a parameter, up to its parenthesis. -/
theorem Near.params_callee (h : Near ctx.text s ((name.name ++ "(") :: tokens))
    (hname : name.IsPlain) :
    (commaList ")" g.param).Reads ctx s fun _ s' => At ctx.text s' ("(" :: tokens) := by
  refine h.params (Begins.callee hname : Begins [] _).not_close (fun s' hat => ?_)
    (show ":".toList.isPrefixOf "(".toList = false by decide)
    (show ",".toList.isPrefixOf "(".toList = false by decide)
  have hrest : continuesName ((joined ("(" :: tokens))[0]?.getD '\x00') = false := by
    rw [joined_paren]
    exact (by decide : continuesName '(' = false)
  exact (hat.expectName (fun _ hat => hat.callee) hname hrest _).mono fun _ _ ⟨_, hat⟩ =>
    Line.near_at hat

/-- Of what begins like an expression in parentheses, no parameters can be read, or only a name up
to the closing parenthesis. -/
theorem Begins.params (h : Begins (")" :: rest) tokens) (hs : At ctx.text s ("(" :: tokens)) :
    g.params.Fails ctx s ∨ g.params.Reads ctx s fun _ s' => Behind ctx.text s' rest := by
  have hopen := hs.near_at.expect (by decide)
  cases h with
  | sign hfirst hopens =>
    exact .inl (hopen.bind_fails fun _ _ hbehind =>
      .bind (hbehind.near_behind.params_fails hfirst hopens))
  | name hname hnext =>
    simp only [goesOnParam, List.any_cons, List.any_nil, Bool.or_false,
      Bool.or_eq_false_iff] at hnext
    obtain ⟨hcolon, hcomma, hclose⟩ := hnext
    exact .inl (hopen.bind_fails fun _ _ hbehind =>
      (hbehind.near_behind.params_name hname hcolon hcomma).bind_fails fun _ _ hat =>
        .bind (hat.near_at.not_expect ")" (by decide) hclose))
  | alone hname =>
    exact .inr (hopen.bind fun _ _ hbehind => (hbehind.near_behind.params_name hname
      (show ":".toList.isPrefixOf ")".toList = false by decide)
      (show ",".toList.isPrefixOf ")".toList = false by decide)).bind fun _ _ hat =>
        (hat.near_at.expect (by decide)).bind fun _ _ hbehind => .pure hbehind)
  | callee hname =>
    exact .inl (hopen.bind_fails fun _ _ hbehind =>
      (hbehind.near_behind.params_callee hname).bind_fails fun _ _ hat =>
        .bind (hat.near_at.not_expect ")" (by decide)
          (show ")".toList.isPrefixOf "(".toList = false by decide)))

/-- No lambda begins where an expression in parentheses is written that no arrow follows, and the
cursor is where it was. -/
theorem Begins.lambda? (h : Begins (")" :: rest) tokens) (hs : At ctx.text s ("(" :: tokens))
    (harrow : "->".toList.isPrefixOf (firstToken rest).toList = false) :
    g.lambda?.Reads ctx s fun lambda? s' =>
      lambda? = none ∧ At ctx.text s' ("(" :: tokens) := by
  refine .look mark_looks (.look position_looks ?_)
  have hattempt : (attempt g.params).Reads ctx s fun result s' =>
      s'.mode = .loose ∧ (result ≠ none → Behind ctx.text s' rest) := by
    rcases h.params (g := g) hs with hfails | hreads
    · exact hfails.attempt.mono fun _ _ ⟨hnone, hmode⟩ => ⟨hmode, fun hsome => absurd hnone hsome⟩
    · exact hreads.attempt.mono fun _ _ ⟨_, _, hbehind⟩ => ⟨hbehind.quiet.mode, fun _ => hbehind⟩
  refine hattempt.bind fun result s₁ ⟨hmode, hbehind⟩ => ?_
  cases result with
  | none => exact .of_run rfl (.pure ⟨rfl, hs.rewind hmode⟩)
  | some found =>
    refine ((hbehind nofun).near_behind.atToken "->").bind fun arrow s₂ ⟨hfound, hat⟩ => ?_
    rw [hat.matchesAt_eq "->" (by decide), harrow] at hfound
    exact .ite_false hfound (.of_run rfl (.pure ⟨rfl, hs.rewind hat.quiet.mode⟩))

end Lambda

end PklSyntax
