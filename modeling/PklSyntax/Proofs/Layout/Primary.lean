import PklSyntax.Grammar.Expression
import PklSyntax.Proofs.Layout.Type

/-!
# How primary expressions lie in the text

A call begins with its callee, a lambda with the parenthesis of its parameters, and all else with a
token of its own. What was tried as the parameters of a lambda and given up leaves nothing behind, so
that an expression in parentheses is read as if it had not been tried.

## Main statements

* `Grammar.Places.call`, `Grammar.Places.member`, `Grammar.Places.params`: parts of expressions.
* `Grammar.Places.lambda?`: a lambda, or nothing has been read.
* `Grammar.Places.primary`: a primary expression is placed when what stands inside it is.
-/

namespace PklSyntax

namespace Grammar

open PklSyntax.Parser

variable {g : Grammar} {ctx : Context} {s : State} {c : Nat}

/-! ### Calls and members -/

/-- The arguments behind a callee. -/
theorem Places.call (hg : g.Places ctx) {callee : Identifier} {kind : CallKind}
    (hcallee : (Node.identifier callee).Sound) (hstop : callee.span.stop ≤ s.pos)
    (hp : Poised ctx.text s c) (hopen : charAt ctx.text s.pos = '(') :
    (g.call callee kind).Yields ctx s c fun call _ c' =>
      Placed ctx.text callee.span.start (.call call) c' := by
  have hlt := lt_size_of_charAt_ne (by rw [hopen]; decide)
  refine (advance_yields hp Nat.one_pos hlt).bind fun _ s₁ c₁ h₁ _ =>
    (commaList_yields hg.expr).bind fun args s₂ c₂ h₂ hargs =>
      (expect_yields (by decide)).bind fun close s₃ c₃ _ hclose => .pure ?_
  have hle₁ := h₁.pos_le
  have hle₂ := h₂.pos_le
  have hlt₃ := hclose.lt (by decide)
  have hstart : callee.span.start < callee.span.stop := hcallee.start_lt_stop
  refine .of_row callee.span.start callee.span.start s₂.pos ?_ ?_
    (Int.le_refl _) (by omega) (by omega)
    (hclose.tokenEnd ')' rfl (by decide) (by decide))
  · show Span.mk _ _ = _
    rw [hclose.stop_eq]
  · have hrow : Row callee.span.start (Node.identifier callee :: args.map Node.expr) s₂.pos :=
      .cons (Int.le_refl _) hcallee
        (hargs.1.mono (by show callee.span.stop ≤ (s₁.pos : Int); omega) (Int.le_refl _))
    simpa [Node.children, Node.fields, Call.fields] using hrow

theorem Places.member (hg : g.Places ctx) :
    g.member.Yields ctx s c fun member _ c' => Placed ctx.text s.pos (.ofMember member) c' := by
  refine skip_yields.bind fun _ s₁ c₁ h₁ _ => identifier_yields.bind fun name s₂ c₂ h₂ hname =>
    .look peek_looks ?_
  have hle₁ := h₁.pos_le
  have hplaced := hname.placed
  have hstart : name.span.start = s₁.pos := by rw [hname.span]; rfl
  split
  · rename_i hopen
    rw [beq_iff_eq] at hopen
    have hstop : name.span.stop = c₂ := hplaced.stop_eq
    have hpos := hname.pos_eq
    refine .of_stands fun hs => (hg.call hplaced.sound (by omega)
      (hs.poised_of_opens (by rw [hopen]; decide)) hopen).bind fun call s₃ c₃ _ hcall => .pure ?_
    exact hcall.mono (by omega)
  · exact .pure (hplaced.mono (by omega))

/-! ### Parameters and lambdas -/

/-- A tree that is read when something that announces it was found. -/
theorem tail_yields {α β : Type} {node : α → Node} {announced : Parser Bool} {p : Parser α}
    {k : Option α → Parser β} {Q : β → State → Nat → Prop}
    (hannounced : announced.Yields ctx s c fun found _ c' => found = false → c' = c)
    (hp : ∀ s' c', p.Yields ctx s' c' fun a _ c'' => Placed ctx.text s'.pos (node a) c'')
    (hk : ∀ a? s' c', Onward ctx.text s c s' c' → Tail ctx.text c node a? c' →
      (k a?).Yields ctx s' c' Q) :
    (do
      let found ← announced
      if found = true then do
        let a ← some <$> p
        k a
      else do
        let a ← pure none
        k a : Parser β).Yields ctx s c Q := by
  refine .of_stands fun hs => hannounced.bind fun found s₁ c₁ h₁ hfound => ?_
  have hpos := hs.le_pos
  have hle₁ := h₁.pos_le
  refine .branch (P := fun a? _ c' => Tail ctx.text c node a? c') (fun _ => ?_)
    (fun hnone => .pure (hfound hnone ▸ .none)) fun a? s₂ c₂ h₂ ha => hk a? s₂ c₂ (h₁.trans h₂) ha
  exact .map ((hp s₁ c₁).mono fun a s₂ c₂ _ ha => .some ha (by omega))

theorem eq_of_accept {token : String} (hne : token ≠ "") :
    (accept token).Yields ctx s c fun found _ c' => found = false → c' = c :=
  (accept_yields hne).mono fun found _ _ _ h hnone => by
    subst hnone
    exact h.1.eq

/-- A type behind a colon, if there is one. -/
theorem Places.annotatedType (hg : g.Places ctx) {β : Type} {k : Option TypeExpr → Parser β}
    {Q : β → State → Nat → Prop}
    (hk : ∀ type? s' c', Onward ctx.text s c s' c' → Tail ctx.text c Node.type type? c' →
      (k type?).Yields ctx s' c' Q) :
    (do
      let found ← accept ":"
      if found = true then do
        let type ← some <$> g.type
        k type
      else do
        let type ← pure none
        k type : Parser β).Yields ctx s c Q :=
  tail_yields (eq_of_accept (by decide)) hg.type hk

theorem Places.param (hg : g.Places ctx) :
    g.param.Yields ctx s c fun param _ c' => Placed ctx.text s.pos (.param param) c' := by
  refine expectName_yields.bind fun name s₁ c₁ h₁ hname =>
    hg.annotatedType fun type? s₂ c₂ h₂ htype => .pure ?_
  obtain ⟨hname, -⟩ := hname
  have hstop : name.span.stop = c₁ := hname.stop_eq
  have hlt := hname.sound.start_lt_stop
  have hle := htype.le
  refine .mono (.of_row name.span.start name.span.start c₂ ?_ ?_
    (Int.le_refl _) (Int.le_refl _) ?_ (htype.tokenEnd hname.tokenEnd)) hname.le_start
  · show Span.mk _ _ = _
    rw [hstop]
    exact congrArg (Span.mk _) htype.stop_eq
  · have hrow : Row name.span.start (Node.identifier name :: type?.toList.map Node.type) c₂ :=
      .cons (Int.le_refl _) hname.sound (htype.row.mono (Int.le_of_eq hname.stop_eq) (Int.le_refl _))
    simpa [Node.children, Node.fields, Param.fields] using hrow
  · have : (Node.identifier name).span.start = name.span.start := rfl
    have : (Node.identifier name).span.stop = name.span.stop := rfl
    omega

/-- Parameters in parentheses, with the offset behind them. -/
theorem Places.params (hg : g.Places ctx) :
    g.params.Yields ctx s c fun result s' c' =>
      Row s.pos (result.1.map Node.param) c' ∧ result.2 = c' ∧ TokenEnd ctx.text c' ∧
        s.pos < c' ∧ s'.pos = c' := by
  refine (expect_yields (by decide)).bind fun _ s₁ c₁ h₁ _ =>
    (commaList_yields fun s c => hg.param).bind fun params s₂ c₂ h₂ hparams =>
      (expect_yields (by decide)).bind fun close s₃ c₃ _ hclose => .pure ?_
  have hle₁ := h₁.pos_le
  have hle₂ := h₂.pos_le
  have hlt := hclose.lt (by decide)
  exact ⟨hparams.1.mono (by omega) (by omega), hclose.stop_eq,
    hclose.tokenEnd ')' rfl (by decide) (by decide), by omega, hclose.pos_eq⟩

theorem Places.lambda? (hg : g.Places ctx) :
    g.lambda?.Yields ctx s c fun lambda? s' c' =>
      match lambda? with
      | some lambda => Placed ctx.text s.pos (.expr lambda) c'
      | none => s' = s ∧ c' = c := by
  refine fun hs => .look mark_looks (.look position_looks
    (.bind (attempt_yields hg.params) (.refl hs) fun params? s₁ c₁ h₁ _ hparams => ?_))
  cases params? with
  | none => exact .rewind h₁ (.pure (.refl hs) ⟨rfl, rfl⟩)
  | some params =>
    obtain ⟨hrow, -, -, hlt, hpos⟩ := hparams
    refine .bind (atToken_yields "->") h₁ fun arrow s₂ c₂ h₂ h₂' harrow => ?_
    have hle₂ := h₂.pos_le
    cases arrow with
    | false => exact .rewind h₂' (.pure (.refl hs) ⟨rfl, rfl⟩)
    | true =>
      refine .bind (advance_token "->" harrow.2.symm (by decide)) h₂' fun _ s₃ c₃ h₃ h₃' _ =>
        .bind (hg.expr s₃ c₃) h₃' fun body s₄ c₄ _ h₄ hbody => .pure h₄ ?_
      have hle₃ := h₃.pos_le
      have hlt₄ := hbody.lt
      refine .of_row s.pos s.pos c₄ ?_ ?_ (Int.le_refl _)
        (Int.le_refl _) (by omega) hbody.tokenEnd
      · show Span.mk _ _ = _
        rw [show body.span.stop = c₄ from hbody.stop_eq]
      · have hall := hrow.snoc hbody (by omega)
        simpa [Node.children, Node.fields, Expr.fields] using hall

/-! ### Primary expressions -/

theorem Places.parenthesized (hg : g.Places ctx) (hopen : matchesAt ctx.text "(" s.pos = true) :
    g.parenthesized.Yields ctx s c fun e _ c' => Placed ctx.text s.pos (.expr e) c' := by
  refine .look position_looks (hg.lambda?.bind fun lambda? s₁ c₁ h₁ hlambda => ?_)
  cases lambda? with
  | some lambda => exact .pure hlambda
  | none =>
    obtain ⟨rfl, rfl⟩ := hlambda
    refine .bind (advance_token "(" hopen (by decide)) fun _ s₂ c₂ h₂ _ =>
      (hg.expr s₂ c₂).bind fun inner s₃ c₃ h₃ hinner =>
        (expect_yields (by decide)).bind fun close s₄ c₄ _ hclose => .pure ?_
    have hle₂ := h₂.pos_le
    have hle₃ := h₃.stands.le_pos
    have hlt := hinner.lt
    have hlt₄ := hclose.lt (by decide)
    refine .of_row s₁.pos s₂.pos c₃ ?_ hinner.row (by omega) (by omega)
      (by omega) (hclose.tokenEnd ')' rfl (by decide) (by decide))
    show Span.mk _ _ = _
    rw [hclose.stop_eq]

theorem Places.conditional (hg : g.Places ctx) (hword : matchesAt ctx.text "if" s.pos = true) :
    g.conditional.Yields ctx s c fun e _ c' => Placed ctx.text s.pos (.expr e) c' := by
  refine .look position_looks (.bind (advance_token "if" hword (by decide)) fun _ s₁ c₁ h₁ _ =>
    (expect_yields (by decide)).bind fun _ s₂ c₂ h₂ _ =>
      (hg.expr s₂ c₂).bind fun condition s₃ c₃ h₃ hcondition =>
        (expect_yields (by decide)).bind fun _ s₄ c₄ h₄ _ =>
          (hg.expr s₄ c₄).bind fun thenBranch s₅ c₅ h₅ hthen =>
            (expectKeyword_yields (by decide)).bind fun _ s₆ c₆ h₆ _ =>
              (hg.expr s₆ c₆).bind fun elseBranch s₇ c₇ _ helse => .pure ?_)
  have hle₁ := h₁.pos_le
  have hle₂ := h₂.pos_le
  have hle₃ := h₃.stands.le_pos
  have hle₄ := h₄.pos_le
  have hle₅ := h₅.stands.le_pos
  have hle₆ := h₆.pos_le
  have hlt₃ := hcondition.lt
  have hlt₅ := hthen.lt
  have hlt₇ := helse.lt
  refine .of_row s.pos s₂.pos c₇ ?_ ?_ (by omega) (Int.le_refl _)
    (by omega) helse.tokenEnd
  · show Span.mk _ _ = _
    rw [show elseBranch.span.stop = c₇ from helse.stop_eq]
  · exact hcondition.cons ((hthen.mono (by omega)).cons (helse.mono (by omega)).row)

theorem Places.letExpression (hg : g.Places ctx) (hword : matchesAt ctx.text "let" s.pos = true) :
    g.letExpression.Yields ctx s c fun e _ c' => Placed ctx.text s.pos (.expr e) c' := by
  refine .look position_looks (.bind (advance_token "let" hword (by decide)) fun _ s₁ c₁ h₁ _ =>
    (expect_yields (by decide)).bind fun _ s₂ c₂ h₂ _ =>
      expectName_yields.bind fun name s₃ c₃ h₃ hname =>
        hg.annotatedType fun type? s₄ c₄ h₄ htype => ?_)
  refine atAssign_yields.bind fun assign s₅ c₅ h₅ hassign =>
    .guard (fun _ => failExpected_yields) fun hfound => ?_
  have hmatch : matchesAt ctx.text "=" s₅.pos = true := by
    have := hassign.2
    simp_all
  refine .bind (advance_token "=" hmatch (by decide)) fun _ s₆ c₆ h₆ _ =>
    (hg.expr s₆ c₆).bind fun value s₇ c₇ h₇ hvalue =>
      (expect_yields (by decide)).bind fun _ s₈ c₈ h₈ _ =>
        (hg.expr s₈ c₈).bind fun body s₉ c₉ _ hbody => .pure ?_
  obtain ⟨hname, -⟩ := hname
  have hle₁ := h₁.pos_le
  have hle₂ := h₂.pos_le
  have hle₄ := h₄.stands.le_pos
  have hle₅ := h₅.pos_le
  have hle₆ := h₆.pos_le
  have hle₇ := h₇.stands.le_pos
  have hle₈ := h₈.pos_le
  have hlt₃ := hname.lt
  have hlt₇ := hvalue.lt
  have hlt₉ := hbody.lt
  have hle := htype.le
  refine .of_row s.pos s₂.pos c₉ ?_ ?_ (by omega) (Int.le_refl _)
    (by omega) hbody.tokenEnd
  · show Span.mk _ _ = _
    rw [show body.span.stop = c₉ from hbody.stop_eq]
  · have hrow := hname.cons (htype.row.append
      ((hvalue.mono (by omega)).cons (hbody.mono (by omega)).row))
    simpa [Node.children, Node.fields, Expr.fields] using hrow

theorem Places.newExpression (hg : g.Places ctx) (hword : matchesAt ctx.text "new" s.pos = true) :
    g.newExpression.Yields ctx s c fun e _ c' => Placed ctx.text s.pos (.expr e) c' := by
  refine .look position_looks (.bind (advance_token "new" hword (by decide)) fun _ s₁ c₁ h₁ hadv =>
    (atToken_yields "\x7b").bind fun found s₂ c₂ h₂ hfound => ?_)
  have hle₁ := h₁.pos_le
  have hle₂ := h₂.pos_le
  have hpos₁ := h₁.stands.le_pos
  refine .branch (P := fun type? _ c' => Tail ctx.text c₁ Node.type type? c')
    (fun _ => .pure (hfound.1.eq ▸ .none))
    (fun _ => .map ((hg.type s₂ c₂).mono fun type s₃ c₃ _ htype => .some htype (by omega)))
    fun type? s₃ c₃ h₃ htype => (hg.body s₃ c₃).bind fun body s₄ c₄ _ hbody => .pure ?_
  have hle₃ := h₃.stands.le_pos
  have hlt₄ := hbody.lt
  have hle := htype.le
  have hlt₁ : s.pos < c₁ := hadv.2 ▸ Nat.lt_add_of_pos_right (by decide)
  refine .of_row s.pos c₁ c₄ ?_ ?_ (by omega) (Int.le_refl _)
    (by omega) hbody.tokenEnd
  · show Span.mk _ _ = _
    rw [show body.span.stop = c₄ from hbody.stop_eq]
  · have hrow := htype.row.append (hbody.mono (by omega)).row
    simpa [Node.children, Node.fields, Expr.fields] using hrow

/-- The form of `read` with a sign and a parenthesis behind it that stands at the offset. -/
def readKindAt? (text : Array Char) (i : Nat) : Option CallKind :=
  if sliceOf text i (skipWhile text continuesName i) == "read" && charAt text (i + 5) == '(' then
    if charAt text (i + 4) == '?' then some .nullableRead
    else if charAt text (i + 4) == '*' then some .globbedRead
    else none
  else none

theorem readKind?_looks : Looks readKind? fun ctx s => readKindAt? ctx.text s.pos := by
  intro ctx s
  show (if sliceOf ctx.text s.pos (skipWhile ctx.text continuesName s.pos) == "read" &&
      charAt ctx.text (s.pos + 5) == '(' then
    if charAt ctx.text (s.pos + 4) == '?' then return some .nullableRead
    else if charAt ctx.text (s.pos + 4) == '*' then return some .globbedRead
    else return none
  else return none : Parser (Option CallKind)) ctx s = .ok (readKindAt? ctx.text s.pos) s
  rw [readKindAt?]
  split
  · split
    · rfl
    · split <;> rfl
  · rfl

theorem charAt_of_readKindAt? {text : Array Char} {i : Nat} {kind : CallKind}
    (h : readKindAt? text i = some kind) : charAt text (i + 5) = '(' := by
  rw [readKindAt?] at h
  split at h
  · rename_i hcond
    rw [Bool.and_eq_true, beq_iff_eq] at hcond
    simpa using hcond.2
  · simp at h

theorem Places.nameExpression (hg : g.Places ctx) :
    g.nameExpression.Yields ctx s c fun e _ c' => Placed ctx.text s.pos (.expr e) c' := by
  refine identifier_yields.bind fun name s₁ c₁ h₁ hname => .look peek_looks ?_
  have hplaced := hname.placed
  have hstart : name.span.start = s.pos := by rw [hname.span]; rfl
  split
  · rename_i hopen
    rw [beq_iff_eq] at hopen
    refine .guard (fun _ => failWith_yields rfl) fun _ => ?_
    have hstop : name.span.stop = c₁ := hplaced.stop_eq
    have hpos := hname.pos_eq
    refine .of_stands fun hs => (hg.call hplaced.sound (by omega)
      (hs.poised_of_opens (by rw [hopen]; decide)) hopen).bind fun call s₂ c₂ _ hcall => .pure ?_
    exact (hcall.mono (by omega)).recast rfl rfl
  · exact .guard (fun _ => failWith_yields rfl) fun _ => .pure (hplaced.recast rfl rfl)

theorem Places.identifierExpression (hg : g.Places ctx) (hp : Poised ctx.text s c) :
    g.identifierExpression.Yields ctx s c fun e _ c' => Placed ctx.text s.pos (.expr e) c' := by
  refine .look readKind?_looks ?_
  split
  · rename_i kind hkind
    have hopen := charAt_of_readKindAt? hkind
    have hlt := lt_size_of_charAt_ne (by rw [hopen]; decide)
    refine .look position_looks ((advance_yields hp (by omega) (by omega)).bind
      fun _ s₁ c₁ _ hadv => ?_)
    obtain ⟨rfl, rfl⟩ := hadv
    refine .of_stands fun hs => .bind (hg.call (Node.sound_leaf rfl ?_) ?_
      (hs.poised_of_opens (by rw [hopen]; decide)) hopen) fun call s₂ c₂ _ hcall =>
        .pure (hcall.recast rfl rfl)
    · show (s.pos : Int) < (s.pos + 4 : Nat)
      omega
    · show ((s.pos + 4 : Nat) : Int) ≤ (s.pos + 5 : Nat)
      omega
  · exact hg.nameExpression

theorem constant?_yields (hp : Poised ctx.text s c) :
    constant?.Yields ctx s c fun constant? s' c' =>
      match constant? with
      | some e => Placed ctx.text s.pos (.expr e) c'
      | none => s' = s ∧ c' = c := by
  -- A leaf of the length of a word.
  have hleaf : ∀ {word : String} {last : Char} {e : Expr} {c' : Nat},
      wordAt ctx.text word s.pos = true → word.toList[word.length - 1]? = some last →
      continuesName last = true → c' = s.pos + word.length → e.span = .ofNat s.pos c' →
      (Node.expr e).children = [] → Placed ctx.text s.pos (.expr e) c' := by
    intro word last e c' hword hlast hname hc hspan hchildren
    have hlen : 0 < word.length := by
      rw [← String.length_toList]
      have := (List.getElem?_eq_some_iff.1 hlast).1
      omega
    exact ⟨by rw [show (Node.expr e).span = _ from hspan]; exact Int.le_refl _,
      by rw [show (Node.expr e).span = _ from hspan]; rfl,
      Node.sound_leaf hchildren (by
        rw [show (Node.expr e).span = _ from hspan]
        show (s.pos : Int) < (c' : Int)
        omega),
      hc ▸ tokenEnd_of_wordAt hword hlast hname⟩
  refine .look (atWord_looks _) (.ite (fun hword => ?_) fun _ => ?_)
  · exact .bind (takeToken_yields "true" hp (matchesAt_of_wordAt hword) (by decide))
      fun span s₁ c₁ _ h => .pure (hleaf hword rfl (by decide) h.2.1 h.1 rfl)
  refine .look (atWord_looks _) (.ite (fun hword => ?_) fun _ => ?_)
  · exact .bind (takeToken_yields "false" hp (matchesAt_of_wordAt hword) (by decide))
      fun span s₁ c₁ _ h => .pure (hleaf hword rfl (by decide) h.2.1 h.1 rfl)
  refine .look (atWord_looks _) (.ite (fun hword => ?_) fun _ => .pure ⟨rfl, rfl⟩)
  exact .bind (takeToken_yields "null" hp (matchesAt_of_wordAt hword) (by decide))
    fun span s₁ c₁ _ h => .pure (hleaf hword rfl (by decide) h.2.1 h.1 rfl)

/-- A primary expression is placed when what stands inside it is. -/
theorem Places.primary (hg : g.Places ctx) :
    g.primary.Yields ctx s c fun e _ c' => Placed ctx.text s.pos (.expr e) c' := by
  refine skip_yields.bind fun _ s₁ c₁ h₁ hskip => ?_
  have hle₁ := h₁.pos_le
  have hp : Poised ctx.text s₁ c₁ := hskip.eq ▸ hskip.poised
  refine .mono (P := fun e _ c' => Placed ctx.text s₁.pos (.expr e) c') ?_
    fun _ _ _ _ h => h.mono (by omega)
  refine .look (atWord_looks _) (.ite (fun hword => hg.conditional (matchesAt_of_wordAt hword))
    fun _ => ?_)
  refine .look (atWord_looks _) (.ite (fun hword => hg.letExpression (matchesAt_of_wordAt hword))
    fun _ => ?_)
  refine .look (startsWith_looks _) (.ite (fun hopen => hg.parenthesized hopen) fun _ => ?_)
  refine .look (atWord_looks _) (.ite (fun hword => hg.newExpression (matchesAt_of_wordAt hword))
    fun _ => ?_)
  refine .look atNumber_looks (.ite (fun hnum => .look theOptions_looks
    ((number_yields hnum).bind fun literal s₂ c₂ _ h => .pure (h.recast rfl rfl))) fun _ => ?_)
  refine .look atString_looks (.ite (fun hstring =>
    (hg.string hstring).bind fun literal s₂ c₂ _ h => .pure (h.recast rfl rfl)) fun _ => ?_)
  refine (constant?_yields hp).bind fun constant? s₂ c₂ _ hconstant => ?_
  cases constant? with
  | some e => exact .pure hconstant
  | none =>
    obtain ⟨rfl, rfl⟩ := hconstant
    exact .look atIdentifier_looks (.ite (fun _ => hg.identifierExpression hp)
      fun _ => failExpected_yields)

end Grammar

end PklSyntax
