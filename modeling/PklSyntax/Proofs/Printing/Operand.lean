import PklSyntax.Proofs.Layout.Primary
import PklSyntax.Proofs.Printing.Grouping
import PklSyntax.Proofs.Printing.Lookahead

/-!
# Reading operands

An operand is read from the inside out: its primary expression first, then one selection after
another, then the type tests, and the prefix operators are put in front at the end. So a selection
is followed by induction on what it selects from: what the loop comes to from there on is known, and
the loop gets there by reading what stands in front.

## Main definitions

* `Grammar.ReadsPlain`: a grammar reads plain expressions up to some depth, and names as types.

## Main statements

* `Grammar.ReadsPlain.primary`, `Grammar.ReadsPlain.postfixes`, `Grammar.ReadsPlain.tests`: parts of
  operands.
* `Grammar.ReadsPlain.operand`: operands.
-/

namespace PklSyntax

open PklSyntax.Parser

/-- The grammar reads the plain expressions in which constructs lie in one another less deep than
the number says, and single names as types when that is one at least. -/
structure Grammar.ReadsPlain (g : Grammar) (ctx : Context) (depth : Nat) : Prop where
  expr : ∀ {e : Expr} {rest : List String} {s : State}, e.Plain → e.nesting < depth →
    Near ctx.text s (e.tokens ++ rest) → firstToken rest ∈ exprEnds →
      g.expr.Reads ctx s fun v s' => v.Alike e ∧ Near ctx.text s' rest
  type : ∀ {word : String} {rest : List String} {s : State}, 0 < depth → IsName word →
    Near ctx.text s (word :: rest) → EndsType rest →
      g.type.Reads ctx s fun type s' =>
        (∃ span span', type = .single ⟨word, .plain, span⟩ span') ∧ At ctx.text s' rest

/-- No parenthesis is closed where a plain expression is written. -/
theorem Near.not_closed {ctx : Context} {s : State} {e : Expr} {rest : List String}
    (h : Near ctx.text s (e.tokens ++ rest))
    (hplain : e.Plain) :
    (Parser.atToken ")").Reads ctx s fun closed s' =>
      closed = false ∧ At ctx.text s' (e.tokens ++ rest) :=
  (h.atToken ")").mono fun closed _ ⟨hclosed, hat⟩ =>
    ⟨by rw [hclosed, hat.matchesAt_eq ")" (by decide), (hplain.begins rest).not_close], hat⟩

namespace Grammar.ReadsPlain

variable {g : Grammar} {ctx : Context} {depth : Nat} {s : State} {rest : List String}

/-! ### Calls and members -/

/-- Arguments are read up to the parenthesis. -/
theorem arguments (hg : g.ReadsPlain ctx depth) {args : List Expr} (hplain : ∀ e ∈ args, e.Plain)
    (hdepth : argumentNesting args ≤ depth)
    (h : Near ctx.text s (argumentTokens args ++ ")" :: rest)) :
    (commaList ")" g.expr).Reads ctx s fun found s' =>
      List.Forall₂ Expr.Alike found args ∧ Near ctx.text s' (")" :: rest) := by
  -- What is found goes behind what was found before.
  refine Reads.bind (P := fun found s' => ∃ others, found.toList = #[].toList ++ others ∧
      List.Forall₂ Expr.Alike others args ∧ Near ctx.text s' (")" :: rest))
    (Loops.reads ?_) fun found s' ⟨others, hothers, halike, hnear⟩ =>
      .pure ⟨by rw [hothers]; exact halike, hnear⟩
  generalize (#[] : Array Expr) = found
  induction args generalizing s found with
  | nil =>
    refine .done ((h.atToken ")").bind fun closed s₁ ⟨hclosed, hat⟩ => ?_)
    rw [hat.matchesAt_eq ")" (by decide)] at hclosed
    exact .ite_true (hclosed.trans (show ")".toList.isPrefixOf ")".toList = true by decide))
      (.pure ⟨found, rfl, [], (List.append_nil _).symm, .nil, hat.near_at⟩)
  | cons e es ih =>
    obtain ⟨he, hes⟩ := List.forall_mem_cons.1 hplain
    rw [argumentNesting, Nat.max_le] at hdepth
    cases es with
    | nil =>
      refine .done ((h.not_closed he).bind fun closed s₁ ⟨hclosed, hat⟩ => .ite_false hclosed
        ((hg.expr he hdepth.1 hat.near_at (show ")" ∈ exprEnds by decide)).bind
          fun v s₂ ⟨hv, hnear⟩ => (hnear.not_accept "," (by decide) ?_).bind fun more s₃ ⟨hmore, hat⟩ =>
            .ite_false hmore (.pure ⟨_, rfl, [v], Array.toList_push, .cons hv .nil, hat.near_at⟩)))
      exact (show ",".toList.isPrefixOf ")".toList = false by decide)
    | cons e' es =>
      have htokens : argumentTokens (e :: e' :: es) ++ ")" :: rest =
          (e.tokens ++ [","]) ++ (argumentTokens (e' :: es) ++ ")" :: rest) := by
        show (e.tokens ++ "," :: argumentTokens (e' :: es)) ++ ")" :: rest = _
        simp
      rw [htokens] at h
      refine .next_near _ h (by simp) ?_
      rw [List.append_assoc] at h
      refine (h.not_closed he).bind fun closed s₁ ⟨hclosed, hat⟩ => .ite_false hclosed
        ((hg.expr he hdepth.1 hat.near_at (show "," ∈ exprEnds by decide)).bind
          fun v s₂ ⟨hv, hnear⟩ => (hnear.accept (by decide)).bind fun more s₃ ⟨hmore, hbehind⟩ =>
            .ite_true hmore (.pure ⟨_, rfl, hbehind.near_behind, ?_⟩))
      refine (ih hes hdepth.2 hbehind.near_behind (found.push v)).mono ?_
      rintro items s' ⟨others, hothers, halike, hnear⟩
      exact ⟨v :: others, by rw [hothers, Array.toList_push, List.append_assoc]; rfl,
        .cons hv halike, hnear⟩

/-- The arguments of a call are read with the parentheses around them. -/
theorem call (hg : g.ReadsPlain ctx depth) {args : List Expr} (hplain : ∀ e ∈ args, e.Plain)
    (hdepth : argumentNesting args ≤ depth) (callee : Identifier) (kind : CallKind)
    (h : At ctx.text s ("(" :: (argumentTokens args ++ ")" :: rest))) :
    (g.call callee kind).Reads ctx s fun call s' =>
      (call.callee = callee ∧ call.kind = kind ∧ List.Forall₂ Expr.Alike call.args args) ∧
        Behind ctx.text s' rest := by
  refine (h.advance_token (by decide)).bind fun _ s₁ hbehind =>
    (hg.arguments hplain hdepth hbehind.near_behind).bind fun found s₂ ⟨halike, hnear⟩ =>
      (hnear.expect (by decide)).bind fun close s₃ hbehind => .pure ⟨⟨rfl, rfl, halike⟩, hbehind⟩

/-- A name in front of a blank is a member. -/
theorem member_identifier {name : Identifier} (hname : name.IsPlain)
    (h : Near ctx.text s (name.name :: rest)) :
    g.member.Reads ctx s fun m s' =>
      m.Alike (.identifier name) ∧ Behind ctx.text s' rest := by
  refine h.skip.bind fun _ s₁ hat => (hat.identifier_token hname.isName _).bind
    fun found s₂ ⟨⟨span, hfound⟩, hbehind⟩ => .look peek_looks (.ite_false ?_ ?_)
  · rcases hbehind.charAt_behind with hchar | hchar <;> rw [hchar] <;> rfl
  · rw [hfound]
    exact .pure ⟨.identifier ⟨rfl, hname.kind_eq.symm⟩, hbehind⟩

/-- The parenthesis of a call stands behind its callee. -/
theorem charAt_paren {tokens : List String} (h : At ctx.text s ("(" :: tokens)) :
    charAt ctx.text s.pos = '(' := by
  have hchar := h.charAt_eq 0
  rw [joined_paren] at hchar
  exact hchar

theorem member_call (hg : g.ReadsPlain ctx depth) {callee : Identifier} {args : List Expr}
    {span : Span} (hcallee : callee.IsPlain) (hplain : ∀ e ∈ args, e.Plain)
    (hdepth : argumentNesting args ≤ depth)
    (h : Near ctx.text s ((Call.mk callee .identifier args span).tokens ++ rest)) :
    g.member.Reads ctx s fun m s' =>
      m.Alike (.call ⟨callee, .identifier, args, span⟩) ∧ Behind ctx.text s' rest := by
  rw [Call.tokens, List.cons_append, List.append_assoc] at h
  refine h.skip.bind fun _ s₁ hat => (hat.identifier_callee hcallee _).bind
    fun found s₂ ⟨⟨span', hfound⟩, hat⟩ => .look peek_looks (.ite_true ?_ ?_)
  · rw [charAt_paren hat]
    rfl
  · rw [hfound]
    exact (hg.call hplain hdepth _ _ hat).bind fun c s₃ ⟨⟨hcall, hkind, hargs⟩, hbehind⟩ =>
      .pure ⟨.call ⟨hcall ▸ ⟨rfl, hcallee.kind_eq.symm⟩, hkind, hargs⟩, hbehind⟩

/-- A plain member is read, with its arguments when it has any. -/
theorem member (hg : g.ReadsPlain ctx depth) {m : Member} (hplain : m.toExpr.Plain)
    (hdepth : m.nesting ≤ depth) (h : Near ctx.text s (m.tokens ++ rest)) :
    g.member.Reads ctx s fun found s' => found.Alike m ∧ Behind ctx.text s' rest := by
  cases m with
  | identifier name =>
    cases hplain with
    | identifier hname => exact member_identifier hname h
  | call c =>
    cases hplain with
    | call hcallee hargs => exact hg.member_call hcallee hargs hdepth h

/-! ### Primary expressions -/

/-- What a number is selected from ends before the cursor. -/
def Settled (v : Expr) (s : State) : Prop :=
  ∀ amount, v = .number amount → amount.span.stop ≤ s.pos

/-- No keyword stands where a plain name does. -/
theorem not_keywordAt {name : Identifier} {tokens : List String} (hname : name.IsPlain)
    (hat : At ctx.text s tokens) (hword : firstWord tokens = name.name) (word : String)
    (hchars : word.toList.all continuesName = true) (hreserved : isReserved word = true) :
    wordAt ctx.text word s.pos = false := by
  rw [hat.wordAt_eq word hchars, hword]
  refine beq_false_of_ne ?_
  rintro rfl
  rw [hname.notReserved] at hreserved
  cases hreserved

/-- A primary expression that begins with a plain name is a name or a call. -/
theorem primary_of_name {name : Identifier} {tokens : List String} {Q : Expr → State → Prop}
    (hname : name.IsPlain) (h : Near ctx.text s tokens) (hword : firstWord tokens = name.name)
    (hletter : ∃ first, (firstToken tokens).toList[0]? = some first ∧ isLetter first = true)
    (hQ : ∀ s', At ctx.text s' tokens → g.nameExpression.Reads ctx s' Q) :
    g.primary.Reads ctx s Q := by
  obtain ⟨first, hfirst, hletter⟩ := hletter
  refine h.skip.bind fun _ s₁ hat => ?_
  have hchar : isLetter (charAt ctx.text s₁.pos) = true := by
    rw [show charAt ctx.text s₁.pos = first from hat.charAt_token hfirst, hletter]
  have hkeyword := not_keywordAt hname hat hword
  have hnumber : numberAt ctx.text s₁.pos = false := by
    have hpoint := ne_of_isLetter hchar (by decide : isLetter '.' = false)
    rw [numberAt, not_isDigitLike_of_isLetter hchar, beq_false_of_ne hpoint,
      hat.wordAt_eq "NaN" (by decide), hat.wordAt_eq "Infinity" (by decide), hword,
      beq_false_of_ne hname.notFloat.1, beq_false_of_ne hname.notFloat.2]
    rfl
  have hkind : readKindAt? ctx.text s₁.pos = none := by
    have hread : (name.name == "read") = false := beq_false_of_ne fun heq => by
      have := hname.notReserved
      rw [heq] at this
      exact absurd this (by decide)
    have hslice : sliceOf ctx.text s₁.pos (skipWhile ctx.text continuesName s₁.pos) = name.name := by
      rw [wordSlice_of_drop hat.rest, joined, takeWhile_spaced (by decide), ← hword, firstWord]
    rw [readKindAt?, hslice, hread]
    rfl
  refine .look (atWord_looks "if") (.ite_false (hkeyword "if" (by decide) (by decide)) ?_)
  refine .look (atWord_looks "let") (.ite_false (hkeyword "let" (by decide) (by decide)) ?_)
  refine .look (startsWith_looks "(") (.ite_false (not_matchesAt isLetter hchar rfl (by decide)) ?_)
  refine .look (atWord_looks "new") (.ite_false (hkeyword "new" (by decide) (by decide)) ?_)
  refine .look atNumber_looks (.ite_false hnumber ?_)
  refine .look atString_looks (.ite_false (not_stringAt isLetter hchar (by decide) (by decide)) ?_)
  refine Reads.bind (P := fun constant? s' => constant? = none ∧ s' = s₁) ?_ ?_
  · refine .look (atWord_looks "true") (.ite_false (hkeyword "true" (by decide) (by decide)) ?_)
    refine .look (atWord_looks "false") (.ite_false (hkeyword "false" (by decide) (by decide)) ?_)
    refine .look (atWord_looks "null") (.ite_false (hkeyword "null" (by decide) (by decide)) ?_)
    exact .pure ⟨rfl, rfl⟩
  · rintro _ _ ⟨rfl, rfl⟩
    refine .look atIdentifier_looks (.ite_true (by simp [startsName, hchar]) ?_)
    refine .look readKind?_looks ?_
    rw [hkind]
    exact hQ _ hat

theorem firstWord_name {name : Identifier} (hname : name.IsPlain) (tokens : List String) :
    firstWord (name.name :: tokens) = name.name := by
  have h : (name.name.toList ++ []).takeWhile continuesName = name.name.toList :=
    hname.isName.takeWhile_append (by decide)
  rw [List.append_nil] at h
  rw [firstWord, show firstToken (name.name :: tokens) = name.name from rfl, h, String.ofList_toList]

theorem firstWord_callee {name : Identifier} (hname : name.IsPlain) (tokens : List String) :
    firstWord ((name.name ++ "(") :: tokens) = name.name := by
  have hparen : "(".toList = ['('] := by decide
  rw [firstWord, show firstToken ((name.name ++ "(") :: tokens) = name.name ++ "(" from rfl,
    String.toList_append, hname.isName.takeWhile_append (by rw [hparen]; exact (by decide :
      continuesName '(' = false)), String.ofList_toList]

/-- A plain name is read as an expression. -/
theorem primary_identifier {name : Identifier} (hname : name.IsPlain)
    (h : Near ctx.text s (name.name :: rest)) :
    g.primary.Reads ctx s fun v s' =>
      v.Alike (.identifier name) ∧ Behind ctx.text s' rest ∧ Settled v s' := by
  refine primary_of_name hname h (firstWord_name hname rest) hname.isName.first fun s₁ hat => ?_
  refine (hat.identifier_token hname.isName _).bind fun found s₂ ⟨⟨span, hfound⟩, hbehind⟩ =>
    .look peek_looks (.ite_false ?_ ?_)
  · rcases hbehind.charAt_behind with hchar | hchar <;> rw [hchar] <;> rfl
  · rw [hfound]
    refine .ite_false ?_ (.pure ⟨.identifier ⟨rfl, hname.kind_eq.symm⟩, hbehind, nofun⟩)
    rw [Identifier.isReservedWord, hname.notReserved, Bool.and_false, Bool.false_and]

/-- A call is read with its arguments. -/
theorem primary_call (hg : g.ReadsPlain ctx depth) {callee : Identifier} {args : List Expr}
    {span : Span} (hcallee : callee.IsPlain) (hplain : ∀ e ∈ args, e.Plain)
    (hdepth : argumentNesting args ≤ depth)
    (h : Near ctx.text s ((Call.mk callee .identifier args span).tokens ++ rest)) :
    g.primary.Reads ctx s fun v s' =>
      v.Alike (.call ⟨callee, .identifier, args, span⟩) ∧ Behind ctx.text s' rest ∧
        Settled v s' := by
  rw [Call.tokens, List.cons_append, List.append_assoc] at h
  refine primary_of_name hcallee h (firstWord_callee hcallee _) (hcallee.isName.first_append "(")
    fun s₁ hat => ?_
  refine (hat.identifier_callee hcallee _).bind fun found s₂ ⟨⟨span', hfound⟩, hat⟩ =>
    .look peek_looks (.ite_true ?_ ?_)
  · rw [charAt_paren hat]
    rfl
  · rw [hfound]
    refine .ite_false ?_ ((hg.call hplain hdepth _ _ hat).bind
      fun c s₃ ⟨⟨hcall, hkind, hargs⟩, hbehind⟩ =>
        .pure ⟨.call ⟨hcall ▸ ⟨rfl, hcallee.kind_eq.symm⟩, hkind, hargs⟩, hbehind, nofun⟩)
    rw [Identifier.isReservedWord, hcallee.notReserved, Bool.and_false, Bool.false_and]

/-- A decimal integer is read as an expression. -/
theorem primary_number {literal : IntLiteral} (hliteral : literal.IsPlain)
    (h : Near ctx.text s (literal.digits :: rest)) :
    g.primary.Reads ctx s fun v s' =>
      v.Alike (.number (.int literal)) ∧ Behind ctx.text s' rest ∧ Settled v s' := by
  obtain ⟨first, others, hchars, hfirst⟩ := hliteral.first
  refine h.skip.bind fun _ s₁ hat => ?_
  have hdigit : (charAt ctx.text s₁.pos).isDigit = true := by
    have htoken : (firstToken (literal.digits :: rest)).toList[0]? = some first := by
      rw [show firstToken (literal.digits :: rest) = literal.digits from rfl, hchars]
      rfl
    rw [show charAt ctx.text s₁.pos = first from hat.charAt_token htoken, hfirst]
  have hnumber : numberAt ctx.text s₁.pos = true := by
    simp [numberAt, isDigitLike_of_isDigit hdigit]
  refine .look (atWord_looks "if") (.ite_false (not_wordAt _ hdigit rfl (by decide)) ?_)
  refine .look (atWord_looks "let") (.ite_false (not_wordAt _ hdigit rfl (by decide)) ?_)
  refine .look (startsWith_looks "(") (.ite_false (not_matchesAt _ hdigit rfl (by decide)) ?_)
  refine .look (atWord_looks "new") (.ite_false (not_wordAt _ hdigit rfl (by decide)) ?_)
  refine .look atNumber_looks (.ite_true hnumber (.look theOptions_looks ?_))
  refine (hat.number hliteral _).bind ?_
  rintro _ s₂ ⟨rfl, hbehind⟩
  refine .pure ⟨.number hliteral.base_eq, hbehind, ?_⟩
  rintro _ ⟨rfl⟩
  exact Int.le_refl _

/-- An expression is read with the parentheses around it. -/
theorem primary_paren (hg : g.ReadsPlain ctx depth) {inner : Expr} {span : Span}
    (hinner : inner.Plain) (hdepth : inner.nesting < depth)
    (harrow : "->".toList.isPrefixOf (firstToken rest).toList = false)
    (h : Near ctx.text s ("(" :: (inner.tokens ++ ")" :: rest))) :
    g.primary.Reads ctx s fun v s' =>
      v.Alike (.paren inner span) ∧ Behind ctx.text s' rest ∧ Settled v s' := by
  refine h.skip.bind fun _ s₁ hat => ?_
  have hparen : (charAt ctx.text s₁.pos == '(') = true := by
    rw [charAt_paren hat]
    rfl
  have hno (word : String) {c : Char} (hword : word.toList[0]? = some c) (hc : (c == '(') = false) :
      wordAt ctx.text word s₁.pos = false := not_wordAt (· == '(') hparen hword hc
  have hopen : matchesAt ctx.text "(" s₁.pos = true := by
    rw [hat.matchesAt_eq "(" (by decide)]
    exact (by decide : "(".toList.isPrefixOf "(".toList = true)
  refine .look (atWord_looks "if") (.ite_false (hno "if" rfl (by decide)) ?_)
  refine .look (atWord_looks "let") (.ite_false (hno "let" rfl (by decide)) ?_)
  refine .look (startsWith_looks "(") (.ite_true hopen (.look position_looks ?_))
  refine ((hinner.begins _).lambda? hat harrow).bind ?_
  rintro _ s₂ ⟨rfl, hat⟩
  refine (hat.advance_token (by decide)).bind fun _ s₃ hbehind =>
    (hg.expr hinner hdepth hbehind.near_behind (show ")" ∈ exprEnds by decide)).bind
      fun v s₄ ⟨hv, hnear⟩ => (hnear.expect (by decide)).bind fun close s₅ hbehind =>
        .pure ⟨hv.paren, hbehind, nofun⟩

/-! ### Selections -/

/-- The loop over selections ends where a primary expression ends with its selections. -/
theorem postfixStep_done {v : Expr} (h : Near ctx.text s rest)
    (hrest : firstToken rest ∈ selectedEnds) :
    (g.postfixStep v).Reads ctx s fun round s' => round = .done v ∧ At ctx.text s' rest := by
  refine h.skip.bind fun _ s₁ hat => ?_
  have hno (sign : String)
      (hsign : sign ∈ ["?.", ".", "[", "!!", "\x7b", "->"] ∧ ' ' ∉ sign.toList) :
      matchesAt ctx.text sign s₁.pos = false := by
    rw [hat.matchesAt_eq sign hsign.2]
    exact not_postfix_of_selectedEnds _ hrest sign hsign.1
  refine .look (startsWith_looks "?.") (.ite_false (hno "?." (by decide)) ?_)
  refine .look (startsWith_looks ".") (.look (startsWith_looks "...") (.ite_false ?_ ?_))
  · rw [hno "." (by decide), Bool.false_and]
  refine .look (startsWith_looks "[") (.look (newlineSince_looks _) (.ite_false ?_ ?_))
  · rw [hno "[" (by decide), Bool.false_and]
  refine .look (startsWith_looks "!!") (.ite_false (hno "!!" (by decide)) ?_)
  refine .look (startsWith_looks "\x7b") (.ite_false ?_ (.pure ⟨rfl, hat⟩))
  rw [hno "\x7b" (by decide), Bool.false_and]

/-- A unit stands directly behind its amount. -/
theorem unitLiteral?_of_settled {v : Expr} (h : Settled v s) (m : Member) :
    (if v.span.stop = (s.pos + 1 : Nat) then unitLiteral? v m else none) = none := by
  split
  · rename_i hstop
    cases v with
    | number amount =>
      have hle := h amount rfl
      have : amount.span.stop = (s.pos + 1 : Nat) := hstop
      omega
    | _ => rfl
  · rfl

theorem postfixStep_dot (hg : g.ReadsPlain ctx depth) {v e : Expr} {m : Member} {span span' : Span}
    (hv : v.Alike e) (hsettled : Settled v s) (hplain : m.toExpr.Plain) (hdepth : m.nesting ≤ depth)
    (h : Behind ctx.text s ("." :: (m.tokens ++ rest))) :
    (g.postfixStep v).Reads ctx s fun round s' => ∃ v', round = .next v' ∧
      v'.Alike (.index e (.dot m span) span') ∧ Behind ctx.text s' rest ∧ Settled v' s' := by
  refine h.skip_behind.bind fun _ s₁ ⟨hat, hpos⟩ => ?_
  refine .look (startsWith_looks "?.") (.ite_false (hat.sign "?." (by decide)) ?_)
  refine .look (startsWith_looks ".") (.look (startsWith_looks "...") (.ite_true ?_ ?_))
  · rw [hat.sign "." (by decide : _ ∧ _ = true), hat.sign "..." (by decide : _ ∧ _ = false)]
    rfl
  refine Reads.bind (P := fun v' s' => v'.Alike (.index e (.dot m span) span') ∧
    Behind ctx.text s' rest ∧ Settled v' s') ?_ fun v' s' hv' => .pure ⟨v', rfl, hv'⟩
  refine .look position_looks ((hat.advance_token (by decide)).bind fun _ s₂ hbehind =>
    (hg.member hplain hdepth hbehind.near_behind).bind fun found s₃ ⟨hfound, hbehind⟩ => ?_)
  have hunit := unitLiteral?_of_settled hsettled found
  rw [← hpos] at hunit
  dsimp only
  rw [hunit]
  exact .pure ⟨hv.dot hfound, hbehind, nofun⟩

theorem postfixStep_nullSafe (hg : g.ReadsPlain ctx depth) {v e : Expr} {m : Member}
    {span span' : Span} (hv : v.Alike e) (hplain : m.toExpr.Plain) (hdepth : m.nesting ≤ depth)
    (h : Behind ctx.text s ("?." :: (m.tokens ++ rest))) :
    (g.postfixStep v).Reads ctx s fun round s' => ∃ v', round = .next v' ∧
      v'.Alike (.index e (.nullSafe m span) span') ∧ Behind ctx.text s' rest ∧ Settled v' s' := by
  refine h.near_behind.skip.bind fun _ s₁ hat => ?_
  refine .look (startsWith_looks "?.") (.ite_true (hat.sign "?." (by decide)) ?_)
  refine Reads.bind (P := fun v' s' => v'.Alike (.index e (.nullSafe m span) span') ∧
    Behind ctx.text s' rest ∧ Settled v' s') ?_ fun v' s' hv' => .pure ⟨v', rfl, hv'⟩
  exact .look position_looks ((hat.advance_token (by decide)).bind fun _ s₂ hbehind =>
    (hg.member hplain hdepth hbehind.near_behind).bind fun found s₃ ⟨hfound, hbehind⟩ =>
      .pure ⟨hv.nullSafe hfound, hbehind, nofun⟩)

theorem postfixStep_bracket (hg : g.ReadsPlain ctx depth) {v e index : Expr} {span span' : Span}
    (hv : v.Alike e) (hplain : index.Plain) (hdepth : index.nesting < depth)
    (h : Behind ctx.text s ("[" :: (index.tokens ++ "]" :: rest))) :
    (g.postfixStep v).Reads ctx s fun round s' => ∃ v', round = .next v' ∧
      v'.Alike (.index e (.bracket index span) span') ∧ Behind ctx.text s' rest ∧
        Settled v' s' := by
  refine h.near_behind.skip.bind fun _ s₁ hat => ?_
  refine .look (startsWith_looks "?.") (.ite_false (hat.sign "?." (by decide)) ?_)
  refine .look (startsWith_looks ".") (.look (startsWith_looks "...") (.ite_false ?_ ?_))
  · rw [hat.sign "." (by decide : _ ∧ _ = false), Bool.false_and]
  refine .look (startsWith_looks "[") (.look (newlineSince_looks _) (.ite_true ?_ ?_))
  · rw [hat.sign "[" (by decide : _ ∧ _ = true), hat.hasLineFeed_eq]
    rfl
  refine Reads.bind (P := fun v' s' => v'.Alike (.index e (.bracket index span) span') ∧
    Behind ctx.text s' rest ∧ Settled v' s') ?_ fun v' s' hv' => .pure ⟨v', rfl, hv'⟩
  exact .look position_looks ((hat.advance_token (by decide)).bind fun _ s₂ hbehind =>
    (hg.expr hplain hdepth hbehind.near_behind (show "]" ∈ exprEnds by decide)).bind
      fun found s₃ ⟨hfound, hnear⟩ => (hnear.expect (by decide)).bind fun close s₄ hbehind =>
        .pure ⟨hv.bracket hfound, hbehind, nofun⟩)

theorem postfixStep_nonNull {v e : Expr} {span : Span} (hv : v.Alike e)
    (h : Behind ctx.text s ("!!" :: rest)) :
    (g.postfixStep v).Reads ctx s fun round s' => ∃ v', round = .next v' ∧
      v'.Alike (.nonNull e span) ∧ Behind ctx.text s' rest ∧ Settled v' s' := by
  refine h.near_behind.skip.bind fun _ s₁ hat => ?_
  refine .look (startsWith_looks "?.") (.ite_false (hat.sign "?." (by decide)) ?_)
  refine .look (startsWith_looks ".") (.look (startsWith_looks "...") (.ite_false ?_ ?_))
  · rw [hat.sign "." (by decide : _ ∧ _ = false), Bool.false_and]
  refine .look (startsWith_looks "[") (.look (newlineSince_looks _) (.ite_false ?_ ?_))
  · rw [hat.sign "[" (by decide : _ ∧ _ = false), Bool.false_and]
  refine .look (startsWith_looks "!!") (.ite_true (hat.sign "!!" (by decide)) ?_)
  exact (hat.advance_token (by decide)).bind fun _ s₂ hbehind =>
    .look position_looks (.pure ⟨_, rfl, hv.nonNull, hbehind, nofun⟩)

/-- A primary expression is read with its selections. What the loop over selections comes to behind
the expression, it comes to from its beginning: by induction on what is selected from. -/
theorem postfixes (hg : g.ReadsPlain ctx depth) {e : Expr} (hplain : e.Plain) (hform : e.IsPostfix)
    (hdepth : e.nesting ≤ depth) {Q : Expr → State → Prop}
    (h : Near ctx.text s (e.tokens ++ rest))
    (harrow : "->".toList.isPrefixOf (firstToken rest).toList = false)
    (hnext : ∀ v s', v.Alike e → Behind ctx.text s' rest → Settled v s' →
      Loops g.postfixStep ctx Q v s') :
    g.primary.Reads ctx s fun v s' => Loops g.postfixStep ctx Q v s' := by
  induction hplain generalizing rest s with
  | number hliteral =>
    exact (primary_number hliteral h).mono fun v s' ⟨hv, hbehind, hsettled⟩ =>
      hnext v s' hv hbehind hsettled
  | identifier hname =>
    exact (primary_identifier hname h).mono fun v s' ⟨hv, hbehind, hsettled⟩ =>
      hnext v s' hv hbehind hsettled
  | @paren inner span hinner =>
    have htokens : (Expr.paren inner span).tokens ++ rest =
        "(" :: (inner.tokens ++ ")" :: rest) := by simp [Expr.tokens]
    rw [htokens] at h
    exact (hg.primary_paren hinner hdepth harrow h).mono fun v s' ⟨hv, hbehind, hsettled⟩ =>
      hnext v s' hv hbehind hsettled
  | call hcallee hargs =>
    exact (hg.primary_call hcallee hargs hdepth h).mono fun v s' ⟨hv, hbehind, hsettled⟩ =>
      hnext v s' hv hbehind hsettled
  | @dot target member span span' _ htarget hmember ih =>
    obtain ⟨htargetDepth, hmemberDepth⟩ := Nat.max_le.1 hdepth
    rw [Expr.tokens, List.append_assoc] at h
    refine ih htarget htargetDepth h (show "->".toList.isPrefixOf ".".toList = false by decide)
      fun v s₁ hv hbehind hsettled => ?_
    refine .next_near (Access.dot member span).tokens hbehind.near_behind nofun ?_
    exact (hg.postfixStep_dot hv hsettled hmember hmemberDepth hbehind).mono
      fun _ s₂ ⟨v', hround, hv', hbehind', hsettled'⟩ =>
        ⟨v', hround, hbehind'.near_behind, hnext v' s₂ hv' hbehind' hsettled'⟩
  | @nullSafe target member span span' _ htarget hmember ih =>
    obtain ⟨htargetDepth, hmemberDepth⟩ := Nat.max_le.1 hdepth
    rw [Expr.tokens, List.append_assoc] at h
    refine ih htarget htargetDepth h (show "->".toList.isPrefixOf "?.".toList = false by decide)
      fun v s₁ hv hbehind _ => ?_
    refine .next_near (Access.nullSafe member span).tokens hbehind.near_behind nofun ?_
    exact (hg.postfixStep_nullSafe hv hmember hmemberDepth hbehind).mono
      fun _ s₂ ⟨v', hround, hv', hbehind', hsettled'⟩ =>
        ⟨v', hround, hbehind'.near_behind, hnext v' s₂ hv' hbehind' hsettled'⟩
  | @bracket target index span span' _ htarget hindex ih =>
    obtain ⟨htargetDepth, hindexDepth⟩ := Nat.max_le.1 hdepth
    rw [Expr.tokens, List.append_assoc] at h
    refine ih htarget htargetDepth h (show "->".toList.isPrefixOf "[".toList = false by decide)
      fun v s₁ hv hbehind _ => ?_
    refine .next_near (Access.bracket index span).tokens hbehind.near_behind nofun ?_
    have htokens : (Access.bracket index span).tokens ++ rest =
        "[" :: (index.tokens ++ "]" :: rest) := by simp [Access.tokens]
    rw [htokens] at hbehind
    exact (hg.postfixStep_bracket hv hindex hindexDepth hbehind).mono
      fun _ s₂ ⟨v', hround, hv', hbehind', hsettled'⟩ =>
        ⟨v', hround, hbehind'.near_behind, hnext v' s₂ hv' hbehind' hsettled'⟩
  | @nonNull operand span _ htarget ih =>
    rw [Expr.tokens, List.append_assoc] at h
    refine ih htarget hdepth h (show "->".toList.isPrefixOf "!!".toList = false by decide)
      fun v s₁ hv hbehind _ => ?_
    refine .next_near ["!!"] hbehind.near_behind nofun ?_
    exact (postfixStep_nonNull hv hbehind).mono fun _ s₂ ⟨v', hround, hv', hbehind', hsettled'⟩ =>
      ⟨v', hround, hbehind'.near_behind, hnext v' s₂ hv' hbehind' hsettled'⟩
  | typeTest => exact hform.elim
  | typeCast => exact hform.elim
  | unary => exact hform.elim
  | binary => exact hform.elim

/-! ### Type tests -/

theorem typeTestStep_done {v : Expr} (h : Near ctx.text s rest)
    (hrest : firstToken rest ∈ operandEnds) :
    (g.typeTestStep v).Reads ctx s fun round s' => round = .done v ∧ At ctx.text s' rest := by
  refine h.skip.bind fun _ s₁ hat => ?_
  have hno (word : String) (hword : word ∈ ["is", "as"])
      (hchars : word.toList.all continuesName = true) :
      wordAt ctx.text word s₁.pos = false := by
    rw [hat.wordAt_eq word hchars]
    exact beq_false_of_ne (not_test_of_operandEnds _ hrest word hword)
  refine .look (atWord_looks "is") (.ite_false (hno "is" (by decide) (by decide)) ?_)
  exact .look (atWord_looks "as") (.ite_false (hno "as" (by decide) (by decide))
    (.pure ⟨rfl, hat⟩))

theorem typeTestStep_is (hg : g.ReadsPlain ctx depth) {v e : Expr} {name : Identifier}
    {span span' : Span} (hv : v.Alike e) (hname : name.IsPlain) (hdepth : 0 < depth)
    (hrest : EndsType rest) (h : Near ctx.text s ("is" :: name.name :: rest)) :
    (g.typeTestStep v).Reads ctx s fun round s' => ∃ v', round = .next v' ∧
      v'.Alike (.typeTest e (.single name span) span') ∧ At ctx.text s' rest := by
  refine h.skip.bind fun _ s₁ hat => ?_
  have hword : wordAt ctx.text "is" s₁.pos = true := by
    rw [hat.wordAt_eq "is" (by decide)]
    exact (by decide : (firstWord ["is"] == "is") = true)
  refine .look (atWord_looks "is") (.ite_true hword ((hat.advance_token (by decide)).bind
    fun _ s₂ hbehind => (hg.type hdepth hname.isName hbehind.near_behind hrest).bind ?_))
  rintro _ s₃ ⟨⟨_, _, rfl⟩, hat'⟩
  exact .pure ⟨_, rfl, hv.typeTest ⟨rfl, hname.kind_eq.symm⟩, hat'⟩

theorem typeTestStep_as (hg : g.ReadsPlain ctx depth) {v e : Expr} {name : Identifier}
    {span span' : Span} (hv : v.Alike e) (hname : name.IsPlain) (hdepth : 0 < depth)
    (hrest : EndsType rest) (h : Near ctx.text s ("as" :: name.name :: rest)) :
    (g.typeTestStep v).Reads ctx s fun round s' => ∃ v', round = .next v' ∧
      v'.Alike (.typeCast e (.single name span) span') ∧ At ctx.text s' rest := by
  refine h.skip.bind fun _ s₁ hat => ?_
  have hother : wordAt ctx.text "is" s₁.pos = false := by
    rw [hat.wordAt_eq "is" (by decide)]
    exact (by decide : (firstWord ["as"] == "is") = false)
  have hword : wordAt ctx.text "as" s₁.pos = true := by
    rw [hat.wordAt_eq "as" (by decide)]
    exact (by decide : (firstWord ["as"] == "as") = true)
  refine .look (atWord_looks "is") (.ite_false hother (.look (atWord_looks "as")
    (.ite_true hword ((hat.advance_token (by decide)).bind fun _ s₂ hbehind =>
      (hg.type hdepth hname.isName hbehind.near_behind hrest).bind ?_))))
  rintro _ s₃ ⟨⟨_, _, rfl⟩, hat'⟩
  exact .pure ⟨_, rfl, hv.typeCast ⟨rfl, hname.kind_eq.symm⟩, hat'⟩

/-- An operand without prefix operators is read: its primary expression, the selections and the type
tests. What the last loop comes to behind the expression, it comes to altogether. -/
theorem tests (hg : g.ReadsPlain ctx depth) {e : Expr} (hplain : e.Plain) (htested : e.IsTested)
    (hdepth : e.nesting ≤ depth) {Q : Expr → State → Prop} (h : Near ctx.text s (e.tokens ++ rest))
    (hrest : firstToken rest ∈ selectedEnds)
    (hnext : ∀ v s', v.Alike e → Near ctx.text s' rest → Loops g.typeTestStep ctx Q v s') :
    (g.primary >>= repeating g.postfixStep).Reads ctx s fun v s' =>
      Loops g.typeTestStep ctx Q v s' := by
  have hselected {e : Expr} {rest : List String} {s : State} (hplain : e.Plain)
      (hform : e.IsPostfix) (hdepth : e.nesting ≤ depth) (h : Near ctx.text s (e.tokens ++ rest))
      (hrest : firstToken rest ∈ selectedEnds)
      (hnext : ∀ v s', v.Alike e → Near ctx.text s' rest → Loops g.typeTestStep ctx Q v s') :
      (g.primary >>= repeating g.postfixStep).Reads ctx s fun v s' =>
        Loops g.typeTestStep ctx Q v s' := by
    have harrow := not_postfix_of_selectedEnds _ hrest "->" (by decide)
    refine (hg.postfixes hplain hform hdepth h harrow fun v s₁ hv hbehind _ => .done ?_).bind
      fun v s₁ hloop => hloop.reads
    exact (postfixStep_done hbehind.near_behind hrest).mono fun _ s₂ ⟨hround, hat⟩ =>
      ⟨v, hround, hnext v s₂ hv hat.near_at⟩
  induction hplain generalizing rest s with
  | @typeTest e name span span' _ he hname ih =>
    rw [Expr.tokens_typeTest, List.append_assoc] at h
    obtain ⟨hinner, hpos⟩ := Nat.max_le.1 hdepth
    refine ih he hinner h (show "is" ∈ selectedEnds by decide) fun v s₁ hv hnear => ?_
    refine .next_near ["is", name.name] hnear nofun ?_
    exact (hg.typeTestStep_is hv hname hpos (endsType_of_selectedEnds _ hrest) hnear).mono
      fun _ s₂ ⟨v', hround, hv', hat⟩ => ⟨v', hround, hat.near_at, hnext v' s₂ hv' hat.near_at⟩
  | @typeCast e name span span' _ he hname ih =>
    rw [Expr.tokens_typeCast, List.append_assoc] at h
    obtain ⟨hinner, hpos⟩ := Nat.max_le.1 hdepth
    refine ih he hinner h (show "as" ∈ selectedEnds by decide) fun v s₁ hv hnear => ?_
    refine .next_near ["as", name.name] hnear nofun ?_
    exact (hg.typeTestStep_as hv hname hpos (endsType_of_selectedEnds _ hrest) hnear).mono
      fun _ s₂ ⟨v', hround, hv', hat⟩ => ⟨v', hround, hat.near_at, hnext v' s₂ hv' hat.near_at⟩
  | unary => exact htested.elim
  | binary => exact htested.elim
  | number hliteral => exact hselected (.number hliteral) htested hdepth h hrest hnext
  | identifier hname => exact hselected (.identifier hname) htested hdepth h hrest hnext
  | paren hinner => exact hselected (.paren hinner) htested hdepth h hrest hnext
  | call hcallee hargs => exact hselected (.call hcallee hargs) htested hdepth h hrest hnext
  | dot ht hf hm => exact hselected (.dot ht hf hm) htested hdepth h hrest hnext
  | nullSafe ht hf hm => exact hselected (.nullSafe ht hf hm) htested hdepth h hrest hnext
  | bracket ht hf hi => exact hselected (.bracket ht hf hi) htested hdepth h hrest hnext
  | nonNull ho hf => exact hselected (.nonNull ho hf) htested hdepth h hrest hnext

/-! ### Prefix operators -/

/-- What is left of an operand behind its prefix operators. Those found, put in front of it, make the
whole. -/
structure Unprefixed (e : Expr) (operators found : List (UnaryOperator × Nat)) (inner : Expr) :
    Prop where
  plain : inner.Plain
  tested : inner.IsTested
  nesting_eq : inner.nesting = e.nesting
  whole : ∀ v, v.Alike inner →
    ∃ w, w.Alike e ∧ applyPrefixes found v = applyPrefixes operators w

theorem prefixStep_done {e : Expr} (hplain : e.Plain) (htested : e.IsTested)
    (operators : List (UnaryOperator × Nat)) (h : Near ctx.text s (e.tokens ++ rest)) :
    (prefixStep operators).Reads ctx s fun round s' =>
      round = .done operators ∧ At ctx.text s' (e.tokens ++ rest) := by
  obtain ⟨token, tokens, first, htokens, hfirst, hopens⟩ := hplain.opens htested
  refine h.skip.bind fun _ s₁ hat => ?_
  have hchar : opensOperand (charAt ctx.text s₁.pos) = true := by
    have htoken : (firstToken (e.tokens ++ rest)).toList[0]? = some first := by
      rw [htokens]
      exact hfirst
    rw [show charAt ctx.text s₁.pos = first from hat.charAt_token htoken, hopens]
  have hno (sign : String) {c : Char} (hsign : sign.toList[0]? = some c)
      (hc : opensOperand c = false) : matchesAt ctx.text sign s₁.pos = false :=
    not_matchesAt opensOperand hchar hsign hc
  refine .look position_looks (.look (startsWith_looks "-") (.look (startsWith_looks "->")
    (.ite_false ?_ (.look (startsWith_looks "!") (.look (startsWith_looks "!=")
      (.ite_false ?_ (.pure ⟨rfl, hat⟩)))))))
  · rw [hno "-" rfl (by decide), Bool.false_and]
  · rw [hno "!" rfl (by decide), Bool.false_and]

theorem prefixStep_next (op : UnaryOperator) {tokens : List String}
    (operators : List (UnaryOperator × Nat)) (h : Near ctx.text s (op.symbol :: tokens)) :
    (prefixStep operators).Reads ctx s fun round s' =>
      (∃ start, round = .next ((op, start) :: operators)) ∧ Behind ctx.text s' tokens := by
  refine h.skip.bind fun _ s₁ hat => .look position_looks ?_
  cases op with
  | negate =>
    refine .look (startsWith_looks "-") (.look (startsWith_looks "->") (.ite_true ?_ ?_))
    · rw [hat.sign "-" (by decide : _ ∧ _ = true), hat.sign "->" (by decide : _ ∧ _ = false)]
      rfl
    · exact (hat.advance_token (by decide)).bind fun _ _ hbehind => .pure ⟨⟨_, rfl⟩, hbehind⟩
  | not =>
    refine .look (startsWith_looks "-") (.look (startsWith_looks "->") (.ite_false ?_ ?_))
    · rw [hat.sign "-" (by decide : _ ∧ _ = false), Bool.false_and]
    refine .look (startsWith_looks "!") (.look (startsWith_looks "!=") (.ite_true ?_ ?_))
    · rw [hat.sign "!" (by decide : _ ∧ _ = true), hat.sign "!=" (by decide : _ ∧ _ = false)]
      rfl
    · exact (hat.advance_token (by decide)).bind fun _ _ hbehind => .pure ⟨⟨_, rfl⟩, hbehind⟩

theorem prefixes {e : Expr} (hplain : e.Plain) (hroot : e.rootOperator? = none)
    (operators : List (UnaryOperator × Nat)) (h : Near ctx.text s (e.tokens ++ rest)) :
    Loops prefixStep ctx (fun found s' => ∃ inner, Unprefixed e operators found inner ∧
      At ctx.text s' (inner.tokens ++ rest)) operators s := by
  have hdone {e : Expr} {s : State} (hplain : e.Plain) (htested : e.IsTested)
      (operators : List (UnaryOperator × Nat)) (h : Near ctx.text s (e.tokens ++ rest)) :
      Loops prefixStep ctx (fun found s' => ∃ inner, Unprefixed e operators found inner ∧
        At ctx.text s' (inner.tokens ++ rest)) operators s :=
    .done ((prefixStep_done hplain htested operators h).mono fun _ _ ⟨hround, hat⟩ =>
      ⟨operators, hround, e, ⟨hplain, htested, rfl, fun v hv => ⟨v, hv, rfl⟩⟩, hat⟩)
  induction hplain generalizing operators s with
  | @unary op operand span _ hinner ih =>
    have h : Near ctx.text s ([op.symbol] ++ (operand.tokens ++ rest)) := h
    refine .next_near _ h nofun ?_
    refine (prefixStep_next op operators h).mono fun _ s₁ ⟨⟨start, hround⟩, hbehind⟩ =>
      ⟨_, hround, hbehind.near_behind, (ih hinner _ hbehind.near_behind).mono ?_⟩
    rintro found s₂ ⟨inner, hfound, hat⟩
    refine ⟨inner, ⟨hfound.plain, hfound.tested, hfound.nesting_eq, fun v hv => ?_⟩, hat⟩
    obtain ⟨w, hw, happly⟩ := hfound.whole v hv
    exact ⟨_, hw.unary op, happly⟩
  | binary => cases hroot
  | number hliteral => exact hdone (.number hliteral) trivial operators h
  | identifier hname => exact hdone (.identifier hname) trivial operators h
  | paren hinner => exact hdone (.paren hinner) trivial operators h
  | call hcallee hargs => exact hdone (.call hcallee hargs) trivial operators h
  | dot ht hf hm => exact hdone (.dot ht hf hm) trivial operators h
  | nullSafe ht hf hm => exact hdone (.nullSafe ht hf hm) trivial operators h
  | bracket ht hf hi => exact hdone (.bracket ht hf hi) trivial operators h
  | nonNull ho hf => exact hdone (.nonNull ho hf) trivial operators h
  | typeTest he ht hn => exact hdone (.typeTest he ht hn) trivial operators h
  | typeCast he ht hn => exact hdone (.typeCast he ht hn) trivial operators h

/-- An operand is read, up to where it ends. -/
theorem operand (hg : g.ReadsPlain ctx depth) {e : Expr} (hplain : e.Plain)
    (hroot : e.rootOperator? = none) (hdepth : e.nesting ≤ depth)
    (hrest : firstToken rest ∈ operandEnds) (h : Near ctx.text s (e.tokens ++ rest)) :
    g.operand.Reads ctx s fun v s' => v.Alike e ∧ At ctx.text s' rest := by
  refine (prefixes hplain hroot [] h).reads.bind fun found s₁ ⟨inner, hinner, hat⟩ => ?_
  have hselected : firstToken rest ∈ selectedEnds := List.mem_append_left _ hrest
  have htests := hg.tests hinner.plain hinner.tested (hinner.nesting_eq ▸ hdepth) hat.near_at
    hselected fun v s' hv hnear => .done ((typeTestStep_done hnear hrest).mono
      fun _ _ ⟨hround, hat⟩ => ⟨v, hround, (⟨hv, hat⟩ : v.Alike inner ∧ At ctx.text _ rest)⟩)
  show ((g.primary >>= fun p => repeating g.postfixStep p >>= fun v =>
    repeating g.typeTestStep v >>= fun tested => pure (applyPrefixes found tested))).Reads ctx s₁ _
  rw [← bind_assoc]
  refine htests.bind fun v s₂ hloop => hloop.reads.bind fun tested s₃ ⟨hv, hat⟩ => .pure ⟨?_, hat⟩
  obtain ⟨w, hw, happly⟩ := hinner.whole tested hv
  rw [happly]
  exact hw

end Grammar.ReadsPlain

end PklSyntax
