import PklSyntax.Proofs.Layout.Primary
import PklSyntax.Proofs.Moving.Lambda
import PklSyntax.Proofs.Moving.Type

/-!
# Primary expressions in two texts

Most primary expressions begin with a sign or a word of their own. A name may be the last token of
the stretch; behind it a parenthesis is found in neither text then.

## Main statements

* `Grammar.Mirrored.call`, `Grammar.Mirrored.member`, `Grammar.Mirrored.params`.
* `Grammar.Mirrored.parenthesized`: lambdas and expressions in parentheses.
* `Grammar.Mirrored.primary`: primary expressions.
-/

namespace PklSyntax

open PklSyntax.Parser

/-- Where the cursor has arrived it stands behind no other token. -/
theorem Arrived.eq_of_stands {text : Array Char} {s : State} {c d : Nat} (h : Arrived s c)
    (h' : Stands text s d) : c = d := by
  rw [← h'.of_fresh h.2, h.1]

namespace Parser

variable {α β : Type} [Movable α] [Movable β] {W : Overlap} {mode : Mode} {b : Bool}
  {s s' t : State}
  {c c' : Nat}

/-- A name is read only where one stands. -/
theorem nameStop?_of_identifier {ctx : Context} {what : String} {name : Identifier}
    (hmode : s.mode = .loose) (h : identifier what ctx s = .ok name s') :
    nameStop? ctx.text s.pos = some s'.pos := by
  cases hstop : nameStop? ctx.text s.pos with
  | some e =>
    rw [identifier_run hstop] at h
    cases h
    rfl
  | none =>
    rw [identifier, bind_apply] at h
    rcases identifier?_run_none hstop with hrun | ⟨-, s₁, hrun, -⟩
    · obtain ⟨s₁, hfails, -⟩ : (failExpected what : Parser Identifier).Fails ctx s :=
        failExpected_fails what hmode
      rw [hrun] at h
      have h : (failExpected what : Parser Identifier) ctx s = .ok name s' := h
      rw [hfails] at h
      cases h
    · rw [hrun] at h
      cases h

/-- A token of one sign, and where it stands. -/
theorem expect_sign_mirrors {token : String} (sign : Char) (htoken : token.toList = [sign])
    (hsign : isSign sign = true) :
    Mirrors W .loose b (fun _ => true) (expect token) (expect token) s c t fun span s' c' =>
      (ReadTo span c c' ∧ Arrived s' c') ∧
        charAt W.left.text (skipEnd W.left.text c) = sign ∧ c' = skipEnd W.left.text c + 1 := by
  have hmark : isMark token = true := by
    rw [isMark, htoken]
    simp [glued, hsign]
  have hnul : sign ≠ '\x00' := by
    rintro rfl
    exact absurd hsign (by decide)
  refine .of_linked fun hlink => (expect_mirrors hmark).with_run.mono fun span s' c' _ h => ?_
  have hloose : Loosely W.left.text s c := ⟨hlink.stands, hlink.mode_eq⟩
  by_cases hchar : charAt W.left.text (skipEnd W.left.text c) = sign
  · refine ⟨h.2, hchar, ?_⟩
    obtain ⟨span', s'', hrun, hloose'⟩ := hloose.expect_sign _ _ htoken hnul hchar
    rw [h.1] at hrun
    cases hrun
    exact h.2.2.eq_of_stands hloose'.stands
  · obtain ⟨s'', hrun, -⟩ := hloose.not_expect
      (Loosely.not_matches (by rw [htoken]; rfl) hchar)
    rw [h.1] at hrun
    cases hrun

/-- Moving over a word that was found. -/
theorem advance_word_mirrors (word : String) (hword : isName word = true)
    (hat : wordAt W.left.text word s.pos = true) :
    Mirrors W mode b (fun _ => true) (advance word.length) (advance word.length) s c t
      fun _ s' c' => c' = s.pos + word.length ∧ Arrived s' c' := by
  refine (advance_token_mirrors word (matchesAt_of_wordAt hat) ?_).mono fun _ _ _ _ h => h.2
  rw [isName, Bool.and_eq_true, List.all_eq_true, Bool.not_eq_true'] at hword
  cases hchars : word.toList with
  | nil => simp [hchars] at hword
  | cons first rest =>
    exact opensToken_of_continuesName (hword.2 first (by rw [hchars]; exact List.mem_cons_self))

theorem eq_of_not_found {text : Array Char} {token : String} (found : Bool)
    (h : if found = true then c < c' ∧ Arrived s' c'
      else Skipped text c s' c' ∧ matchesAt text token s'.pos = false) (hnot : found = false) :
    c' = c := by
  rw [hnot] at h
  exact h.1.eq

/-- The construct ends with what stands at its end, or where a token ended before it. -/
def EndsWith (span : α → Span) (c : Nat) (a? : Option α) (c' : Nat) : Prop :=
  match a? with
  | some a => ReadTo (span a) c c'
  | none => c' = c

/-- What is read when something that announces it was found. -/
theorem announced_mirrors {announced announced' : Parser Bool} {p p' : Parser α}
    {k k' : Option α → Parser β} {last : β → Bool} {Q : β → State → Nat → Prop} (span : α → Span)
    (hannounced : Mirrors W mode b (fun _ => true) announced announced' s c t
      fun found _ c' => found = false → c' = c)
    (hp : ∀ s c t,
      Mirrors W mode true (fun _ => true) p p' s c t fun a _ c' => ReadTo (span a) c c')
    (hk : ∀ a? s' c' t', Onward W.left.text s c s' c' → EndsWith span c a? c' →
      Mirrors W mode true last (k a?) (k' (move W.shift a?)) s' c' t' Q) :
    Mirrors W mode b last
      (do
        let found ← announced
        if found = true then do
          let a ← some <$> p
          k a
        else do
          let a ← pure none
          k a)
      (do
        let found ← announced'
        if found = true then do
          let a ← some <$> p'
          k' a
        else do
          let a ← pure none
          k' a) s c t Q := by
  refine hannounced.bind fun found s₁ c₁ t₁ h₁ hfound => ?_
  cases found with
  | true =>
    refine .bind (P := fun a? _ c' => ∃ a, a? = some a ∧ ReadTo (span a) c c')
      (.map (hp s₁ c₁ t₁) (fun _ => rfl) fun a _ _ h => ⟨a, rfl, h.mono h₁.le⟩)
      fun a? s₂ c₂ t₂ h₂ ha => hk a? s₂ c₂ t₂ (h₁.trans h₂) ?_
    obtain ⟨a, rfl, ha⟩ := ha
    exact ha
  | false =>
    obtain rfl := hfound rfl
    exact hk none s₁ c₁ t₁ h₁ rfl

end Parser

namespace Grammar

variable {g : Grammar} {W : Overlap} {s t : State} {c : Nat} {b : Bool}

/-! ### Calls and members -/

theorem Mirrored.call (hg : g.Mirrored W) (callee : Identifier) {kind : CallKind}
    (hopen : charAt W.left.text s.pos = '(') :
    Mirrors W .loose true (fun _ => true) (g.call callee kind) (g.call (move W.shift callee) kind)
      s c t fun call _ c' => ReadTo call.span c c' := by
  refine (advance_sign_mirrors (by rw [hopen]; decide)).bind fun _ s₁ c₁ t₁ h₁ _ =>
    (commaList_mirrors (by decide) fun s c t => (hg.expr s c t).mono fun _ _ _ _ h => h.lt).bind
      fun args s₂ c₂ t₂ h₂ _ => (expect_mirrors (by decide)).bind fun close s₃ c₃ t₃ _ hclose =>
        .pure ?_ ⟨?_, hclose.1.stop_eq⟩
  · simp [move, Call.placed, Identifier.placed, Placement.span]
  · have := h₁.le
    have := h₂.le
    have := hclose.1.lt
    omega

theorem Mirrored.member (hg : g.Mirrored W) :
    Mirrors W .loose b (fun _ => true) g.member g.member s c t
      fun member _ c' => ReadTo member.span c c' := by
  refine .of_lt (fun _ _ _ h _ => h.lt) (skip_mirrors.bind fun _ s₁ c₁ t₁ h₁ hskip =>
    identifier_mirrors.bind fun name s₂ c₂ t₂ _ hname => ?_)
  obtain rfl := hskip.1.eq
  have hle := h₁.stands.le_pos
  have hlt := hname.1.lt
  refine .peel peek_looks peek_looks (.cond (fun h => h.charAt_beq (by decide)) (fun hopen => ?_)
    fun _ => .pure ?_ ⟨by omega, ?_⟩)
  · refine (hg.call _ (beq_iff_eq.1 hopen)).bind fun call s₃ c₃ t₃ _ hcall => .pure ?_ ?_
    · simp [move, Member.placed]
    · exact hcall.mono (by omega)
  · simp [move, Member.placed]
  · show name.span.stop = _
    rw [hname.1.span]
    rfl

/-! ### Parameters and lambdas -/

theorem Mirrored.param (hg : g.Mirrored W) :
    Mirrors W .loose true (fun _ => true) g.param g.param s c t fun _ _ c' => c < c' := by
  refine expectName_mirrors.bind fun name s₁ c₁ t₁ h₁ hname => announced_mirrors
    TypeExpr.span ((accept_mirrors (by decide)).mono fun found _ _ _ => eq_of_not_found found)
    hg.type fun type? s₂ c₂ t₂ h₂ _ => .pure ?_ (Nat.lt_of_lt_of_le hname.1.lt h₂.le)
  cases type? <;> simp [move, Param.placed, Identifier.placed, Placement.span]

/-- Parameters begin with a parenthesis and go on behind it. -/
theorem Mirrored.params (hg : g.Mirrored W) :
    Mirrors W .loose b (fun _ => true) g.params g.params s c t fun result s' c' =>
      c < c' ∧ result.2 = c' ∧ skipEnd W.left.text c + 1 < c' ∧
        Via W.left.text (skipEnd W.left.text c + 1) s' c' := by
  refine .of_linked fun hlink => (expect_sign_mirrors '(' (by decide) (by decide)).bind
    fun _ s₁ c₁ t₁ h₁ hopen =>
      (commaList_mirrors (by decide) fun _ _ _ => hg.param).bind fun params s₂ c₂ t₂ h₂ _ =>
        (expect_mirrors (by decide)).bind fun close s₃ c₃ t₃ h₃ hclose => .pure rfl ?_
  obtain ⟨⟨hread, -⟩, -, rfl⟩ := hopen
  have := hread.lt
  have := h₂.le
  have := hclose.1.lt
  exact ⟨by omega, hclose.1.stop_eq, by omega, s₁, h₁.mode_eq.trans hlink.mode_eq, h₂.trans h₃⟩

/-- The parameters of a lambda with the arrow behind them are found in both texts, or in neither. -/
theorem Mirrored.lambdaHead (hg : g.Mirrored W) :
    Mirrors W .loose true (fun head? => head?.isSome) g.lambdaHead g.lambdaHead s c t
      fun head? s' c' =>
      head?.isSome = true → matchesAt W.left.text "->" s'.pos = true ∧
        skipEnd W.left.text c + 1 < c' ∧ Via W.left.text (skipEnd W.left.text c + 1) s' c' := by
  refine .bind_level (attempt_mirrors hg.params) fun params? s₁ c₁ t₁ _ hparams => ?_
  cases params? with
  | none => exact .pure_of rfl ⟨nofun, nofun⟩ nofun
  | some result =>
    refine (atToken_mirrors (by decide)).bind fun arrow s₂ c₂ t₂ h₂ harrow => ?_
    obtain ⟨hskip, rfl⟩ := harrow
    obtain rfl := hskip.eq
    exact .ite (fun hfound => .pure rfl
      ⟨nofun, fun _ => ⟨hfound, hparams.2.2.1, hparams.2.2.2.onward h₂⟩⟩)
      fun _ => .pure rfl ⟨nofun, nofun⟩

theorem lambdaHead_yields {ctx : Context} (hg : g.Places ctx) :
    g.lambdaHead.Yields ctx s c fun _ _ _ => True := by
  refine (attempt_yields hg.params).bind fun params? s₁ c₁ _ _ => ?_
  cases params? with
  | none => exact .pure trivial
  | some result =>
    exact (atToken_yields "->").bind fun arrow s₂ c₂ _ _ =>
      .ite (fun _ => .pure trivial) fun _ => .pure trivial

/-- A `this` in parentheses is no parameter. -/
theorem lambdaHead_of_this {ctx : Context} (h : Loosely ctx.text s c)
    (hopen : charAt ctx.text s.pos = '(')
    (hthis : wordAt ctx.text "this" (skipEnd ctx.text (s.pos + 1)) = true) :
    g.lambdaHead.Reads ctx s fun head? _ => head? = none := by
  have hfirst := charAt_of_matchesAt (n := 0) (c := 't') (matchesAt_of_wordAt hthis) (by decide)
  rw [Nat.add_zero] at hfirst
  have hnone : paramStop? ctx.text (skipEnd ctx.text (s.pos + 1)) = none := by
    rw [paramStop?, Option.filter_eq_none_iff]
    intro e he
    rw [nameAt_of_word (by rw [hfirst]; decide) he, wordOf_eq (by decide) hthis, hfirst]
    show ¬ (!(IdentifierKind.ofName 't' "this" == .plain && isReserved "this")) = true
    decide
  refine (lambdaHead_run h hopen ⟨by rw [hfirst]; decide, fun e he => ?_⟩).mono
    fun head? _ hhead => ?_
  · rw [hnone] at he
    cases he
  · rw [lambdaAt, hnone] at hhead
    simpa using hhead

theorem Mirrored.parenthesized (hg : g.Mirrored W) (hopen : charAt W.left.text s.pos = '(') :
    Mirrors W .loose true (fun _ => true) g.parenthesized g.parenthesized s c t fun e s' c' =>
      ReadTo e.span c c' ∧ Opened W.left.text c s' c' := by
  have hsign : isSign (charAt W.left.text s.pos) = true := by
    rw [hopen]
    decide
  refine .of_linked fun hlink => ?_
  have hloose : Loosely W.left.text s c := ⟨hlink.stands, hlink.mode_eq⟩
  have hpos : skipEnd W.left.text c = s.pos := by
    have := (hlink.stands.poised_of_opens (opensToken_of_isSign hsign)).pos_eq_front hlink.stands
    rw [this, State.front, hlink.mode_eq]
  have hlo := Nat.le_trans hlink.lo_le hlink.stands.le_pos
  have hle := hlink.stands.le_pos
  rw [parenthesized_eq]
  refine .look position_looks position_looks (fun h => (h.strict hsign).pos_eq) ?_
  -- Without a lambda it is known how the expression in the parentheses begins.
  refine (reading_mirrors (Q := fun e s' c' => (ReadTo e.span c c' ∧ Opened W.left.text c s' c') ∧
    ((∃ s₁, g.lambdaHead W.left s = .ok none s₁) → Enclosed W.left.text (s.pos + 1) s' c'))
    hg.lambdaHead.with_run ?_ ?_ ?_).mono fun _ _ _ _ h => h.1
  · intro params s₁ c₁ t₁ h₁ hhead
    obtain ⟨hrun, hhead⟩ := hhead
    obtain ⟨harrow, hlt, hvia⟩ := hhead rfl
    refine (advance_token_mirrors "->" harrow (by decide)).bind fun _ s₂ c₂ t₂ h₂ _ =>
      (hg.expr s₂ c₂ t₂).bind fun body s₃ c₃ t₃ h₃ hbody =>
        .pure ?_ ⟨(fun h => by cases h), ⟨?_, ?_⟩, ?_⟩
    · simp [move, Expr.placed, Placement.span, Overlap.cast_place hlo]
    · have := h₁.le
      have := h₂.le
      exact ⟨by have := hbody.lt; omega, hbody.stop_eq⟩
    · have := h₂.le
      have := h₃.le
      refine .of_paren (by rw [hpos, hopen]) ((hvia.onward h₂).onward h₃) (by omega) fun hthis => ?_
      obtain ⟨head?, s', hrun', rfl⟩ :=
        lambdaHead_of_this (g := g) hloose hopen (by rwa [hpos] at hthis)
      rw [hrun] at hrun'
      cases hrun'
    · rintro ⟨s', hrun'⟩
      rw [hrun] at hrun'
      cases hrun'
  · refine (advance_sign_mirrors (opensToken_of_isSign hsign)).bind fun _ s₁ c₁ t₁ h₁ hadv =>
      (hg.exprOpened s₁ c₁ t₁).bind fun inner s₂ c₂ t₂ h₂ hinner =>
        (expect_sign_mirrors ')' (by decide) (by decide)).bind
          fun close s₃ c₃ t₃ h₃ hclose => .pure ?_ ⟨⟨⟨?_, hclose.1.1.stop_eq⟩, ?_⟩, fun _ => ?_⟩
    · simp [move, Expr.placed, Placement.span, Overlap.cast_place hlo]
    · have := h₁.le
      have := hinner.1.lt
      have := hclose.1.1.lt
      omega
    · obtain ⟨-, rfl, -⟩ := hadv
      have := hinner.1.lt
      have := hclose.1.1.lt
      refine .of_paren (by rw [hpos, hopen]) ?_ (by omega) fun hthis => ?_
      · rw [hpos]
        exact ⟨s₁, h₁.mode_eq.trans hlink.mode_eq, h₂.trans h₃⟩
      · rw [hpos] at hthis ⊢
        have hname := nameStop?_of_word (by decide) (by decide) hthis
        exact (hinner.2.name _ hname (by rw [wordOf_eq (by decide) hthis]; decide)).1.onward h₃
    · obtain ⟨-, rfl, -⟩ := hadv
      exact ⟨s₂, c₂, hinner.2, ⟨s₁, h₁.mode_eq.trans hlink.mode_eq, h₂⟩, hinner.1.lt, h₃, hclose.2⟩
  · intro s₁ c₁ hrun _ _ hlinked hjoined hope hlast
    rcases hope with hw | ⟨e, s', c', hon, ⟨-, henclosed⟩, hlive⟩
    · obtain ⟨t₁, hrun', -⟩ := hlast (.inl hw)
      exact ⟨t₁, hrun', rewind_of_yields (lambdaHead_yields hg.right) (hjoined (.inl hw)).stands
        hrun'⟩
    · have hl := hlive.back hon
      have hopening := Overlap.opening_of_enclosed (henclosed ⟨s₁, hrun⟩) hlive
      have ht : W.Together true s c t := ⟨hlinked.lo_le, hlinked.stands, hl, hjoined hl⟩
      have hplace : t.pos + 1 = W.place (s.pos + 1) := by
        rw [(ht.strict hsign).pos_eq, Overlap.place_add hlo]
      have hopen' : charAt W.right.text t.pos = '(' := (ht.charAt_sign (by decide)).2 hopen
      -- No lambda was found on the left.
      obtain ⟨head?, s₂, hrun', hhead⟩ :=
        lambdaHead_run (g := g) hloose hopen hopening.plainHead_left
      rw [hrun] at hrun'
      cases hrun'
      obtain ⟨head?, t₁, hrun', hhead'⟩ := lambdaHead_run (g := g)
        ⟨ht.abreast.stands, hlinked.mode_right⟩
        hopen' (hplace ▸ hopening.plainHead_right (by omega))
      rw [hplace, hopening.lambdaAt_eq (by omega) hlive (hon.mode_eq.trans hlink.mode_eq), ← hhead]
        at hhead'
      obtain rfl := Option.isSome_eq_false_iff.1 hhead' |> Option.isNone_iff_eq_none.1
      exact ⟨t₁, hrun', rewind_of_yields (lambdaHead_yields hg.right) ht.abreast.stands hrun'⟩

/-! ### Constructs with a word of their own -/

theorem Mirrored.conditional (hg : g.Mirrored W) (hword : wordAt W.left.text "if" s.pos = true) :
    Mirrors W .loose true (fun _ => true) g.conditional g.conditional s c t
      fun e _ c' => ReadTo e.span c c' := by
  refine .of_linked fun hlink => .look_inside (fun _ _ _ h _ => ReadTo.lt h) position_looks
    position_looks (fun h => h.pos_eq) ?_
  have hlo := Nat.le_trans hlink.lo_le hlink.stands.le_pos
  refine (advance_word_mirrors "if" (by decide) hword).bind fun _ s₁ c₁ t₁ h₁ _ =>
    (expect_mirrors (by decide)).bind fun _ s₂ c₂ t₂ h₂ _ => (hg.expr s₂ c₂ t₂).bind
      fun condition s₃ c₃ t₃ h₃ _ => (expect_mirrors (by decide)).bind fun _ s₄ c₄ t₄ h₄ _ =>
        (hg.expr s₄ c₄ t₄).bind fun thenBranch s₅ c₅ t₅ h₅ _ =>
          (expectKeyword_mirrors (by decide)).bind
          fun _ s₆ c₆ t₆ h₆ _ => (hg.expr s₆ c₆ t₆).bind fun elseBranch s₇ c₇ t₇ _ helse =>
            .pure ?_ ?_
  · simp [move, Expr.placed, Placement.span, Overlap.cast_place hlo]
  · exact ⟨(helse.mono (h₁.trans (h₂.trans (h₃.trans (h₄.trans (h₅.trans h₆))))).le).lt,
      helse.stop_eq⟩

theorem Mirrored.letExpression (hg : g.Mirrored W) (hword : wordAt W.left.text "let" s.pos = true) :
    Mirrors W .loose true (fun _ => true) g.letExpression g.letExpression s c t
      fun e _ c' => ReadTo e.span c c' := by
  refine .of_linked fun hlink => .look_inside (fun _ _ _ h _ => ReadTo.lt h) position_looks
    position_looks (fun h => h.pos_eq) ?_
  have hlo := Nat.le_trans hlink.lo_le hlink.stands.le_pos
  refine (advance_word_mirrors "let" (by decide) hword).bind fun _ s₁ c₁ t₁ h₁ _ =>
    (expect_mirrors (by decide)).bind fun _ s₂ c₂ t₂ h₂ _ => expectName_mirrors.bind
      fun name s₃ c₃ t₃ h₃ _ => announced_mirrors TypeExpr.span
        ((accept_mirrors (by decide)).mono fun found _ _ _ => eq_of_not_found found) hg.type
        fun type? s₄ c₄ t₄ h₄ _ => atAssign_mirrors.bind fun assign s₅ c₅ t₅ h₅ hassign =>
          .guard (fun _ => failExpected_mirrors) fun hfound => ?_
  rw [Bool.not_eq_false'] at hfound
  obtain ⟨hskip, rfl⟩ := hassign
  rw [Bool.and_eq_true] at hfound
  refine (advance_token_mirrors "=" hfound.1 (by decide)).bind fun _ s₆ c₆ t₆ h₆ _ =>
    (hg.expr s₆ c₆ t₆).bind fun value s₇ c₇ t₇ h₇ _ => (expect_mirrors (by decide)).bind
      fun _ s₈ c₈ t₈ h₈ _ => (hg.expr s₈ c₈ t₈).bind fun body s₉ c₉ t₉ _ hbody => .pure ?_ ?_
  · cases type? <;> simp [move, Expr.placed, Identifier.placed, Placement.span,
      Overlap.cast_place hlo]
  · exact ⟨(hbody.mono (h₁.trans (h₂.trans (h₃.trans (h₄.trans (h₅.trans (h₆.trans
      (h₇.trans h₈))))))).le).lt, hbody.stop_eq⟩

theorem Mirrored.newExpression (hg : g.Mirrored W) (hword : wordAt W.left.text "new" s.pos = true) :
    Mirrors W .loose true (fun _ => true) g.newExpression g.newExpression s c t
      fun e _ c' => ReadTo e.span c c' := by
  refine .of_linked fun hlink => .look_inside (fun _ _ _ h _ => ReadTo.lt h) position_looks
    position_looks (fun h => h.pos_eq) ?_
  have hlo := Nat.le_trans hlink.lo_le hlink.stands.le_pos
  refine (advance_word_mirrors "new" (by decide) hword).bind fun _ s₁ c₁ t₁ h₁ _ =>
    (atToken_mirrors (by decide)).bind fun untyped s₂ c₂ t₂ h₂ _ =>
      .branch (P := fun _ _ _ => True) (fun _ => .pure rfl trivial)
        (fun _ => .map (hg.type s₂ c₂ t₂) (fun _ => rfl) fun _ _ _ _ => trivial)
        fun type? s₃ c₃ t₃ h₃ _ => (hg.body s₃ c₃ t₃).bind fun body s₄ c₄ t₄ _ hbody => .pure ?_ ?_
  · cases type? <;> simp [move, Expr.placed, Placement.span, Overlap.cast_place hlo]
  · exact ⟨(hbody.mono (h₁.trans (h₂.trans h₃)).le).lt, hbody.stop_eq⟩

/-! ### Names -/

theorem skipEnd_of_sign {text : Array Char} {i : Nat} (h : isSign (charAt text i) = true) :
    skipEnd text i = i := by
  simp only [isSign, mayFollow, Bool.and_eq_true, Bool.not_eq_true', Bool.or_eq_false_iff,
    beq_eq_false_iff_ne] at h
  exact skipEnd_of_none (triviaAt?_eq_none h.1.1.1 h.1.1.2)

theorem Mirrored.nameExpression (hg : g.Mirrored W) (hskip : skipEnd W.left.text c = s.pos) :
    Mirrors W .loose b (fun _ => true) g.nameExpression g.nameExpression s c t fun e s' c' =>
      ReadTo e.span c c' ∧ Opened W.left.text c s' c' := by
  refine .of_linked fun hlink => identifier_mirrors.with_run.bind fun name s₁ c₁ t₁ h₁ hname => ?_
  obtain ⟨hrun, hread, harrived⟩ := hname
  have hlt := hread.lt
  have hle := hlink.stands.le_pos
  have hstop : nameStop? W.left.text (skipEnd W.left.text c) = some c₁ := by
    rw [hskip, nameStop?_of_identifier hlink.mode_eq hrun, harrived.1]
  have hvia : Via W.left.text c₁ s₁ c₁ := ⟨s₁, h₁.mode_eq.trans hlink.mode_eq, .refl h₁.stands⟩
  refine .peel peek_looks peek_looks (.cond (fun h => h.charAt_beq (by decide)) (fun hopen => ?_)
    fun _ => ?_)
  · rw [beq_iff_eq] at hopen
    refine .guard (fun _ => failWith_mirrors rfl rfl fun _ => rfl) fun _ => (hg.call _ hopen).bind
      fun call s₂ c₂ t₂ h₂ hcall => .pure ?_ ⟨?_, ?_⟩
    · simp [move, Expr.placed]
    · exact hcall.mono (by omega)
    · refine .of_name hstop (hvia.onward h₂) fun hhalts => ?_
      rw [harrived.1] at hopen
      rw [skipEnd_of_sign (by rw [hopen]; decide), hopen] at hhalts
      cases hhalts
  · refine .guard (fun _ => failWith_mirrors rfl rfl fun _ => rfl) fun _ => .pure ?_
      ⟨⟨by omega, ?_⟩, .of_name hstop hvia fun _ => rfl⟩
    · simp [move, Expr.placed]
    · show name.span.stop = _
      rw [hread.span]
      rfl

theorem wordOf_of_readKindAt? {text : Array Char} {i : Nat} {kind : CallKind}
    (h : readKindAt? text i = some kind) : wordOf text i = "read" := by
  rw [readKindAt?] at h
  split at h
  next hread =>
    rw [Bool.and_eq_true, beq_iff_eq] at hread
    exact hread.1
  next => cases h

/-- A form of `read` with a sign behind it stands at both cursors, or at none. -/
theorem readKindAt?_eq (h : W.Together false s c t) :
    readKindAt? W.right.text t.pos = readKindAt? W.left.text s.pos := by
  have hlo := h.lo_le_pos
  have hle := le_skipWhile W.left.text continuesName s.pos
  have hsize := skipWhile_le_size W.left.text continuesName h.stands.pos_le_size
  obtain ⟨hend, hin⟩ := Overlap.nameEnd_place (p := continuesName) hlo h.inside fun _ hc => hc
  rw [readKindAt?, readKindAt?, h.pos_eq, hend, Overlap.sliceOf_place hlo (by omega) hin,
    ← Overlap.place_add hlo, ← Overlap.place_add hlo]
  by_cases hread : sliceOf W.left.text s.pos (skipWhile W.left.text continuesName s.pos) = "read"
  · have hlength : skipWhile W.left.text continuesName s.pos = s.pos + 4 := by
      have hlength := congrArg (fun word : String => word.toList.length) hread
      have hfour : "read".toList.length = 4 := by decide
      simp only [sliceOf, String.toList_ofList, Array.length_toList, Array.size_extract] at hlength
      omega
    rw [hlength] at hin
    -- The parenthesis lies in the stretch when the sign in front of it does.
    have hbehind {d : Char} (hd : isSign d = true) (hmark : charAt W.left.text (s.pos + 4) = d) :
        charAt W.right.text (W.place (s.pos + 5)) = '(' ↔ charAt W.left.text (s.pos + 5) = '(' := by
      refine Overlap.charAt_place_eq (by decide) (by omega) ?_
      rcases Bool.eq_false_or_eq_true W.whole with hw | hw
      · exact .inr hw
      · refine .inl (Nat.lt_of_le_of_ne (hin.resolve_right (by simp [hw])) fun heq => ?_)
        exact (W.cut hw).2.1.charAt_ne hd (heq ▸ hmark)
    have hmark {d : Char} (hd : isSign d = true) :
        (charAt W.right.text (W.place (s.pos + 4)) == d) =
          (charAt W.left.text (s.pos + 4) == d) := by
      rw [Bool.eq_iff_iff, beq_iff_eq, beq_iff_eq]
      exact Overlap.charAt_place_eq hd (by omega) hin
    rw [hmark (by decide), hmark (by decide), hread, beq_self_eq_true, Bool.true_and, Bool.true_and]
    by_cases hquestion : charAt W.left.text (s.pos + 4) = '?'
    · simp only [beq_iff_eq, hbehind (by decide) hquestion]
    · by_cases hstar : charAt W.left.text (s.pos + 4) = '*'
      · simp only [beq_iff_eq, hbehind (by decide) hstar]
      · simp [hquestion, hstar]
  · rw [beq_false_of_ne hread, Bool.false_and, Bool.false_and]
    rfl

theorem Mirrored.identifierExpression (hg : g.Mirrored W) (hskip : skipEnd W.left.text c = s.pos) :
    Mirrors W .loose b (fun _ => true) g.identifierExpression g.identifierExpression s c t
      fun e s' c' => ReadTo e.span c c' ∧ Opened W.left.text c s' c' := by
  refine .of_linked fun hlink => .look_inside (fun _ _ _ h _ => h.1.lt) readKind?_looks
    readKind?_looks
    readKindAt?_eq ?_
  have hlo := Nat.le_trans hlink.lo_le hlink.stands.le_pos
  have hle := hlink.stands.le_pos
  cases hkind : readKindAt? W.left.text s.pos with
  | none => exact hg.nameExpression hskip
  | some kind =>
    have hopen := charAt_of_readKindAt? hkind
    have hsize : s.pos + 5 < W.left.text.size :=
      lt_size_of_charAt_ne (by rw [hopen]; decide)
    have hp : Poised W.left.text s c := by
      rw [Poised, State.front, hlink.mode_eq]
      exact Nat.le_of_eq hskip
    refine .look_inside (fun _ _ _ h _ => h.1.lt) position_looks position_looks
      (fun h => h.pos_eq) ?_
    refine (advance_mirrors hp (by omega) (by omega)).bind fun _ s₁ c₁ t₁ h₁ hadv => ?_
    obtain ⟨rfl, rfl, -⟩ := hadv
    rw [← Overlap.place_add hlo, Overlap.ofNat_place hlo (by omega)]
    refine (hg.call ⟨"read", .plain, .ofNat s.pos (s.pos + 4)⟩ hopen).bind
      fun call s₂ c₂ t₂ h₂ hcall => .pure ?_ ⟨hcall.mono (by omega), .of_construct ?_⟩
    · simp [move, Expr.placed]
    · rw [hskip, wordOf_of_readKindAt? hkind]
      decide

/-! ### Literals -/

/-- A number begins at both cursors, or at none. -/
theorem numberAt_eq (h : W.Together false s c t) :
    numberAt W.right.text t.pos = numberAt W.left.text s.pos := by
  rw [numberAt, numberAt, h.charAt_eq, h.wordAt_eq (by decide), h.wordAt_eq (by decide)]
  cases hpoint : charAt W.left.text s.pos == '.' with
  | false => rfl
  | true =>
    rw [beq_iff_eq] at hpoint
    rw [h.charAt_add (Overlap.inside_succ h.inside (by rw [hpoint]; decide))]

/-- A word that stands for a number is all of it. -/
theorem number_of_word {ctx : Context} (styleWarnings : Bool) {word : String}
    (hmem : word ∈ ["NaN", "Infinity"]) (hat : wordAt ctx.text word s.pos = true) :
    (number styleWarnings).Reads ctx s fun _ s' =>
      s' = { s with pos := min ctx.text.size (s.pos + word.length) } := by
  have hfloat {p : Parser NumberLiteral}
      (hp : p ctx { s with mode := .tight } = floatWord s.pos word ctx { s with mode := .tight })
      (hnumber : number styleWarnings ctx s = inMode .tight p ctx s) :
      (number styleWarnings).Reads ctx s fun _ s' =>
        s' = { s with pos := min ctx.text.size (s.pos + word.length) } :=
    ⟨_, _, by rw [hnumber, inMode_apply, hp]; rfl, rfl⟩
  rw [List.mem_cons, List.mem_singleton] at hmem
  rcases hmem with rfl | rfl
  · refine hfloat ?_ rfl
    rw [position_looks.bind_apply, (atWord_looks _).bind_apply]
    dsimp only
    rw [if_pos hat]
  · have hnot : wordAt ctx.text "NaN" s.pos = false :=
      wordAt_of_wordOf_ne (by decide) (by rw [wordOf_eq (by decide) hat]; decide)
    refine hfloat ?_ rfl
    rw [position_looks.bind_apply, (atWord_looks _).bind_apply]
    dsimp only
    rw [hnot, if_neg (by decide), (atWord_looks _).bind_apply]
    dsimp only
    rw [if_pos hat]

theorem constant?_mirrors (hp : Poised W.left.text s c) :
    Mirrors W .loose b (fun constant? => constant?.isSome) constant? constant? s c t
      fun constant? s' c' =>
        match constant? with
        | some e => ReadTo e.span c c' ∧ wordOf W.left.text s.pos ∈ constructWords
        | none => s' = s ∧ c' = c := by
  have hQ : ∀ (constant? : Option Expr) (s' : State) (c' : Nat),
      (match constant? with
        | some e => ReadTo e.span c c' ∧ wordOf W.left.text s.pos ∈ constructWords
        | none => s' = s ∧ c' = c) → constant?.isSome = true → c < c' := by
    intro constant? s' c' h hsome
    cases constant? with
    | none => cases hsome
    | some e => exact h.1.lt
  refine .look_inside hQ (atWord_looks _) (atWord_looks _) (fun h => h.wordAt_eq (by decide))
    (.ite (fun hword => ?_) fun _ => ?_)
  · refine (takeToken_mirrors "true" hp (matchesAt_of_wordAt hword) (by decide)).bind
      fun span s₁ c₁ t₁ _ hspan => .pure ?_ ⟨hspan.1, by rw [wordOf_eq (by decide) hword]; decide⟩
    simp [move, Expr.placed]
  refine .look_inside hQ (atWord_looks _) (atWord_looks _) (fun h => h.wordAt_eq (by decide))
    (.ite (fun hword => ?_) fun _ => ?_)
  · refine (takeToken_mirrors "false" hp (matchesAt_of_wordAt hword) (by decide)).bind
      fun span s₁ c₁ t₁ _ hspan => .pure ?_ ⟨hspan.1, by rw [wordOf_eq (by decide) hword]; decide⟩
    simp [move, Expr.placed]
  refine .look_inside hQ (atWord_looks _) (atWord_looks _) (fun h => h.wordAt_eq (by decide))
    (.ite (fun hword => ?_) fun _ => .pure_of rfl ⟨rfl, rfl⟩ fun h => by cases h)
  refine (takeToken_mirrors "null" hp (matchesAt_of_wordAt hword) (by decide)).bind
    fun span s₁ c₁ t₁ _ hspan => .pure ?_ ⟨hspan.1, by rw [wordOf_eq (by decide) hword]; decide⟩
  simp [move, Expr.placed]

/-- A string begins with a quotation mark or with pounds. -/
theorem charAt_of_stringAt {text : Array Char} {i : Nat} (h : stringAt text i = true) :
    charAt text i = '#' ∨ charAt text i = '"' := by
  rcases Nat.lt_or_eq_of_le (le_skipWhile text (· == '#') i) with hlt | heq
  · have hpound := ((@skipWhile_spec text i (· == '#')).1 i (Nat.le_refl _) hlt).2
    exact .inl (by simpa using hpound)
  · rw [stringAt, ← heq] at h
    exact .inr (by simpa using charAt_of_matchesAt (n := 0) (c := '"') h (by decide))

/-- Numbers begin with digits or a point, or they are words. -/
theorem number_opens_mirrors (hnum : numberAt W.left.text s.pos = true)
    (hskip : skipEnd W.left.text c = s.pos) :
    Mirrors W .loose b (fun _ => true) (Parser.number W.left.options.styleWarnings)
      (Parser.number W.right.options.styleWarnings) s c t fun literal s' c' =>
        ReadTo literal.span c c' ∧ Opened W.left.text c s' c' := by
  refine .of_linked fun hlink => (number_mirrors hnum).with_run.mono fun literal s' c' hon h => ?_
  refine ⟨h.2, ?_⟩
  have hword {word : String} (hmem : word ∈ ["NaN", "Infinity"])
      (hat : wordAt W.left.text word s.pos = true) : Opened W.left.text c s' c' := by
    have hspec : ∀ word ∈ ["NaN", "Infinity"], isName word = true ∧
        word.toList.head?.any startsName = true ∧ 0 < word.length := by decide
    obtain ⟨hname, hfirst, hpositive⟩ := hspec word hmem
    have hsize := add_length_le_of_matchesAt (matchesAt_of_wordAt hat) (ne_empty_of_isName hname)
    obtain ⟨_, _, hrun, rfl⟩ := number_of_word W.left.options.styleWarnings hmem hat
    rw [h.1] at hrun
    cases hrun
    rw [Nat.min_eq_right hsize] at hon ⊢
    have heq : c' = s.pos + word.length :=
      ((fresh_at_pos hlink.stands (by omega)).eq_of_stands hon.stands).symm
    refine .of_name (e := c') (by rw [hskip, nameStop?_of_word hname hfirst hat, heq])
      ⟨_, hon.mode_eq.trans hlink.mode_eq, .refl hon.stands⟩ fun _ => rfl
  have hsign (hstart : startsName (charAt W.left.text s.pos) = false)
      (hne : ∀ d ∈ [')', backtick, '('], charAt W.left.text s.pos ≠ d) :
      Opened W.left.text c s' c' := by
    rw [← hskip] at hstart hne
    exact .of_sign (hne _ (by decide)) (hne _ (by decide)) hstart (hne _ (by decide))
  simp only [numberAt, Bool.or_eq_true, Bool.and_eq_true, beq_iff_eq] at hnum
  rcases hnum with ((hdigit | ⟨hpoint, -⟩) | hnan) | hinfinity
  · refine hsign (Bool.eq_false_iff.2 fun hstart => ?_) fun d hd heq => ?_
    · rw [not_isDigitLike_of_startsName hstart] at hdigit
      cases hdigit
    · simp only [List.mem_cons, List.not_mem_nil, or_false] at hd
      rw [heq] at hdigit
      rcases hd with rfl | rfl | rfl <;> cases hdigit
  · refine hsign (by rw [hpoint]; decide) fun d hd heq => ?_
    simp only [List.mem_cons, List.not_mem_nil, or_false] at hd
    rw [hpoint] at heq
    rcases hd with rfl | rfl | rfl <;> cases heq
  · exact hword (by decide) hnan
  · exact hword (by decide) hinfinity

/-! ### All of them -/

theorem Mirrored.primary (hg : g.Mirrored W) :
    Mirrors W .loose b (fun _ => true) g.primary g.primary s c t fun e s' c' =>
      ReadTo e.span c c' ∧ Opened W.left.text c s' c' := by
  have hQ {c₁ : Nat} (e : Expr) (s' : State) (c' : Nat)
      (h : ReadTo e.span c₁ c' ∧ Opened W.left.text c₁ s' c') (_ : true = true) : c₁ < c' := h.1.lt
  refine .of_lt hQ (.of_linked fun hlink => skip_mirrors.bind fun _ s₁ c₁ t₁ h₁ hskip => ?_)
  obtain ⟨hskipped, hend⟩ := hskip
  obtain rfl := hskipped.eq
  have hpos : skipEnd W.left.text c₁ = s₁.pos := (h₁.stands.of_skipped hend).1.symm
  have hopened {word : String} (hmem : word ∈ constructWords)
      (hat : wordAt W.left.text word s₁.pos = true) {s' : State} {c' : Nat} :
      Opened W.left.text c₁ s' c' := .of_word hmem (by rwa [hpos])
  refine .look_inside hQ (atWord_looks _) (atWord_looks _) (fun h => h.wordAt_eq (by decide))
    (.ite (fun hword => ?_) fun _ => ?_)
  · exact (hg.conditional hword).mono fun _ _ _ _ h => ⟨h, hopened (by decide) hword⟩
  refine .look_inside hQ (atWord_looks _) (atWord_looks _) (fun h => h.wordAt_eq (by decide))
    (.ite (fun hword => ?_) fun _ => ?_)
  · exact (hg.letExpression hword).mono fun _ _ _ _ h => ⟨h, hopened (by decide) hword⟩
  refine .look_inside hQ (startsWith_looks _) (startsWith_looks _)
    (fun h => h.matchesAt_eq (by decide))
    (.ite (fun hparen => ?_) fun _ => ?_)
  · exact hg.parenthesized
      (by simpa using charAt_of_matchesAt (n := 0) (c := '(') hparen (by decide))
  refine .look_inside hQ (atWord_looks _) (atWord_looks _) (fun h => h.wordAt_eq (by decide))
    (.ite (fun hword => ?_) fun _ => ?_)
  · exact (hg.newExpression hword).mono fun _ _ _ _ h => ⟨h, hopened (by decide) hword⟩
  refine .look_inside hQ atNumber_looks atNumber_looks numberAt_eq
    (.ite (fun hnum => ?_) fun _ => ?_)
  · refine .peel theOptions_looks theOptions_looks ((number_opens_mirrors hnum hpos).bind
      fun literal s₂ c₂ t₂ _ h => .pure ?_ h)
    simp [move, Expr.placed]
  refine .look_inside hQ atString_looks atString_looks stringAt_eq
    (.ite (fun hstring => ?_) fun _ => ?_)
  · refine (hg.string hstring).bind fun literal s₂ c₂ t₂ _ h => .pure ?_ ⟨h, ?_⟩
    · simp [move, Expr.placed]
    · rcases charAt_of_stringAt hstring with hfirst | hfirst <;> rw [← hpos] at hfirst <;>
        exact .of_sign (by rw [hfirst]; decide) (by rw [hfirst]; decide) (by rw [hfirst]; decide)
          (by rw [hfirst]; decide)
  refine .bind_level (constant?_mirrors hskipped.poised) fun constant? s₂ c₂ t₂ _ h => ?_
  cases constant? with
  | some e => exact .pure rfl ⟨(fun h => by cases h), h.1, .of_construct (hpos ▸ h.2)⟩
  | none =>
    obtain ⟨rfl, rfl⟩ := h
    refine .mono (P := fun e s' c' => ReadTo e.span c₂ c' ∧ Opened W.left.text c₂ s' c') ?_
      fun _ _ _ _ h => ⟨fun _ _ => h.1.lt, h⟩
    exact .look_inside hQ atIdentifier_looks atIdentifier_looks atIdentifier_eq
      (.ite (fun _ => hg.identifierExpression hpos) fun _ => failExpected_mirrors)

end Grammar

end PklSyntax
