import PklSyntax.Proofs.Layout.Primary

/-!
# How expressions lie in the text

Selections, amendments and type tests extend an operand to the right, prefix operators to the left.
The infix operators stand between operands that make up a row, and grouping keeps the order of the
operands: the tree of a part of a row spans that part.

## Main definitions

* `PrefixesIn`: prefix operators that stand in front of an operand.
* `lastStop`: where the last operand of a sequence ends.

## Main statements

* `Grammar.Places.postfixStep`, `Grammar.Places.operand`: operands.
* `climb_spec`: how the trees of grouped operators lie.
* `Grammar.Places.expressionRule`: an expression is placed when what stands inside it is.
-/

namespace PklSyntax

namespace Grammar

open PklSyntax.Parser

variable {g : Grammar} {ctx : Context} {s : State} {c : Nat} {text : Array Char}

/-! ### Selections -/

theorem placed_select {target : Expr} {access : Access} {lo start : Int} {mid hi : Nat}
    (htarget : Placed text lo (.expr target) mid) (haccess : Placed text start (.access access) hi)
    (hle : mid ≤ start) : Placed text lo (.expr (select target access)) hi := by
  have hstop : target.span.stop = mid := htarget.stop_eq
  have hstop' : access.span.stop = hi := haccess.stop_eq
  have hstart : start ≤ access.span.start := haccess.le_start
  have hlt : target.span.start < target.span.stop := htarget.sound.start_lt_stop
  have hlt' : access.span.start < access.span.stop := haccess.sound.start_lt_stop
  refine .mono (.of_row target.span.start target.span.start hi ?_ ?_
    (Int.le_refl _) (Int.le_refl _) (by omega) haccess.tokenEnd) htarget.le_start
  · show target.span.cover access.span = _
    rw [Span.cover_eq (by omega) (by omega), hstop']
  · exact .cons (Int.le_refl _) htarget.sound
      (haccess.row.mono (by show target.span.stop ≤ start; omega) (Int.le_refl _))

/-- An access that begins with a token of its own and ends with a tree. -/
theorem placed_access {access : Access} {n : Node} {start lo : Int} {hi : Nat}
    (hspan : access.span = ⟨start, hi⟩) (hchildren : (Node.access access).children = [n])
    (hn : Placed text lo n hi) (hle : start ≤ lo) : Placed text start (.access access) hi := by
  have hlt := hn.lt
  exact .of_row start lo hi hspan (hchildren ▸ hn.row) hle (Int.le_refl _) (by omega) hn.tokenEnd

/-- The unit literal that an amount and a member make together. -/
theorem placed_unitLiteral {target e : Expr} {member : Member} {lo start : Int} {mid hi : Nat}
    (htarget : Placed text lo (.expr target) mid) (hmember : Placed text start (.ofMember member) hi)
    (hle : mid ≤ start) (hunit : unitLiteral? target member = some e) :
    Placed text lo (.expr e) hi := by
  cases target with
  | number amount =>
    cases member with
    | identifier name =>
      have hstop : amount.span.stop = mid := htarget.stop_eq
      have hstop' : name.span.stop = hi := hmember.stop_eq
      have hstart : start ≤ name.span.start := hmember.le_start
      have hlt : amount.span.start < amount.span.stop := htarget.sound.start_lt_stop
      have hlt' : name.span.start < name.span.stop := hmember.sound.start_lt_stop
      have hcover := Span.cover_eq (a := amount.span) (b := name.span) (by omega) (by omega)
      have hnumber : (Node.number amount).Sound :=
        htarget.sound.widen (n := .expr (.number amount)) rfl (Int.le_refl _) (Int.le_refl _)
      have hrow : Row amount.span.start [.number amount] hi :=
        .cons (Int.le_refl _) hnumber (.nil (by show amount.span.stop ≤ hi; omega))
      simp only [unitLiteral?] at hunit
      split at hunit
      · simp at hunit
      · split at hunit
        · obtain rfl := Option.some.inj hunit
          exact .mono (.of_row _ _ _ (hcover.trans (by rw [hstop'])) hrow (Int.le_refl _) (Int.le_refl _)
            (by omega) hmember.tokenEnd) htarget.le_start
        · obtain rfl := Option.some.inj hunit
          exact .mono (.of_row _ _ _ (hcover.trans (by rw [hstop'])) hrow (Int.le_refl _) (Int.le_refl _)
            (by omega) hmember.tokenEnd) htarget.le_start
        · simp at hunit
    | call => simp [unitLiteral?] at hunit
  | _ => simp [unitLiteral?] at hunit

theorem Places.dotAccess (hg : g.Places ctx) {target : Expr} {lo : Int} {mid : Nat}
    (htarget : Placed ctx.text lo (.expr target) mid) (hle : mid ≤ s.pos)
    (hdot : matchesAt ctx.text "." s.pos = true) :
    (g.dotAccess target).Yields ctx s c fun e _ c' =>
      Placed ctx.text lo (.expr e) c' ∧ s.pos < c' := by
  refine .look position_looks (.bind (advance_token "." hdot (by decide)) fun _ s₁ c₁ h₁ _ =>
    hg.member.bind fun member s₂ c₂ _ hmember => .pure ?_)
  have hle₁ := h₁.pos_le
  have hlt := hmember.lt
  have hstop : (Node.ofMember member).span = member.span := by cases member <;> rfl
  have haccess : Placed ctx.text s.pos (.access (.dot member ⟨s.pos, member.span.stop⟩)) c₂ := by
    refine placed_access ?_ rfl hmember (by omega)
    show Span.mk _ _ = _
    rw [← hstop, hmember.stop_eq]
  refine ⟨?_, by omega⟩
  split
  · cases hunit : unitLiteral? target member with
    | some e => exact placed_unitLiteral htarget hmember (by omega) hunit
    | none => exact placed_select htarget haccess (by omega)
  · exact placed_select htarget haccess (by omega)

theorem Places.nullSafeAccess (hg : g.Places ctx) {target : Expr} {lo : Int} {mid : Nat}
    (htarget : Placed ctx.text lo (.expr target) mid) (hle : mid ≤ s.pos)
    (hmark : matchesAt ctx.text "?." s.pos = true) :
    (g.nullSafeAccess target).Yields ctx s c fun e _ c' =>
      Placed ctx.text lo (.expr e) c' ∧ s.pos < c' := by
  refine .look position_looks (.bind (advance_token "?." hmark (by decide)) fun _ s₁ c₁ h₁ _ =>
    hg.member.bind fun member s₂ c₂ _ hmember => .pure ?_)
  have hle₁ := h₁.pos_le
  have hlt := hmember.lt
  have hstop : (Node.ofMember member).span = member.span := by cases member <;> rfl
  have haccess : Placed ctx.text s.pos (.access (.nullSafe member ⟨s.pos, member.span.stop⟩)) c₂ := by
    refine placed_access ?_ rfl hmember (by omega)
    show Span.mk _ _ = _
    rw [← hstop, hmember.stop_eq]
  exact ⟨placed_select htarget haccess (by omega), by omega⟩

theorem Places.bracketAccess (hg : g.Places ctx) {target : Expr} {lo : Int} {mid : Nat}
    (htarget : Placed ctx.text lo (.expr target) mid) (hle : mid ≤ s.pos)
    (hopen : matchesAt ctx.text "[" s.pos = true) :
    (g.bracketAccess target).Yields ctx s c fun e _ c' =>
      Placed ctx.text lo (.expr e) c' ∧ s.pos < c' := by
  refine .look position_looks (.bind (advance_token "[" hopen (by decide)) fun _ s₁ c₁ h₁ _ =>
    (hg.expr s₁ c₁).bind fun index s₂ c₂ h₂ hindex =>
      (expect_yields (by decide)).bind fun close s₃ c₃ _ hclose => .pure ?_)
  have hle₁ := h₁.pos_le
  have hle₂ := h₂.stands.le_pos
  have hlt := hindex.lt
  have hlt₃ := hclose.lt (by decide)
  have haccess : Placed ctx.text s.pos (.access (.bracket index ⟨s.pos, close.stop⟩)) c₃ := by
    refine .of_row s.pos s₁.pos c₂ ?_ hindex.row (by omega) (by omega) (by omega)
      (hclose.tokenEnd ']' rfl (by decide) (by decide))
    show Span.mk _ _ = _
    rw [hclose.stop_eq]
  exact ⟨placed_select htarget haccess (by omega), by omega⟩

/-! ### Amendments -/

theorem Places.moreBodies (hg : g.Places ctx) {first : ObjectBody} {lo : Int}
    (hfirst : Placed ctx.text lo (.objectBody first) c) :
    (g.moreBodies first).Yields ctx s c fun bodies _ c' =>
      Series ctx.text lo Node.objectBody first bodies c' := by
  refine .repeating (fun bodies _ c' => Series ctx.text lo Node.objectBody first bodies c')
    (.singleton hfirst) fun bodies s₁ c₁ h₁ hseries =>
      (atToken_yields "\x7b").bind fun found s₂ c₂ h₂ hfound => ?_
  obtain ⟨hskip, -⟩ := hfound
  obtain rfl := hskip.eq
  have hle := h₂.start.le_pos
  have hle₂ := h₂.pos_le
  split
  · refine (hg.body s₂ c₂).bind fun body s₃ c₃ h₃ hbody => .pure ?_
    have hlt := hbody.lt
    have hle₃ := h₃.stands.le_pos
    exact ⟨by omega, hseries.push hbody (by omega)⟩
  · exact .pure hseries

/-- An amendment lies from the start of its base to the end of its last body. -/
theorem placed_amend {base : Expr} {first : ObjectBody} {bodies : Array ObjectBody} {lo lo' : Int}
    {mid hi : Nat} (hbase : Placed text lo (.expr base) mid)
    (hseries : Series text lo' Node.objectBody first bodies hi) (hle : mid ≤ lo') :
    Placed text lo (.expr (amend base first (bodies.toList.drop 1)
      ⟨base.span.start, (bodies.back?.getD first).span.stop⟩)) hi := by
  have hstop : base.span.stop = mid := hbase.stop_eq
  have hlt : base.span.start < base.span.stop := hbase.sound.start_lt_stop
  have hlast : (bodies.back?.getD first).span.stop = hi := hseries.stop_eq
  have hrow := hseries.row.mono hle (Int.le_refl _)
  have hle' := hrow.le
  rw [hseries.toList_eq, List.map_cons] at hrow
  have hbaseRow : Row base.span.start (.expr base :: .objectBody first ::
      (bodies.toList.drop 1).map Node.objectBody) hi :=
    .cons (Int.le_refl _) hbase.sound (hrow.mono (Int.le_of_eq hbase.stop_eq) (Int.le_refl _))
  have hplain : Placed text base.span.start (.expr (.amended base
      (first :: bodies.toList.drop 1) ⟨base.span.start, (bodies.back?.getD first).span.stop⟩)) hi := by
    refine .of_row base.span.start base.span.start hi ?_ ?_
      (Int.le_refl _) (Int.le_refl _) (by omega) hseries.tokenEnd
    · show Span.mk _ _ = _
      rw [hlast]
    · simpa [Node.children, Node.fields, Expr.fields] using hbaseRow
  refine .mono ?_ hbase.le_start
  rw [hlast] at hplain ⊢
  cases base with
  | paren inner span =>
    -- The base and the first body make up a row within the span of both.
    have hinner := hbase.sound.child (m := .expr inner) (by
      simp [Node.children, Node.fields, Expr.fields])
    have hwithin := hbase.sound.tidy.within (.expr inner) (by
      simp [Node.children, Node.fields, Expr.fields])
    obtain ⟨hstart, hend⟩ := hwithin
    cases hrow with
    | cons hlo hsound hrest =>
      have hfirst : (Node.expr (.amend inner first ⟨span.start, first.span.stop⟩)).Sound := by
        refine Node.sound_of_row
          (.cons hstart hinner (.cons (Int.le_trans hend (Int.le_trans (Int.le_of_eq hstop) hlo))
            hsound (.nil (Int.le_refl _)))) (Int.le_refl _) (Int.le_refl _) ?_
        have : first.span.start < first.span.stop := hsound.start_lt_stop
        have : (Expr.paren inner span).span.stop ≤ first.span.start := by
          rw [hstop]
          exact hlo
        show span.start < first.span.stop
        have : (Expr.paren inner span).span.start < (Expr.paren inner span).span.stop := hlt
        have : (Expr.paren inner span).span.start = span.start := rfl
        omega
      cases hothers : bodies.toList.drop 1 with
      | nil =>
        have hlist := hseries.toList_eq
        rw [hothers] at hlist
        have hback : bodies.back?.getD first = first := by
          rw [← Array.getLast?_toList, hlist]
          rfl
        rw [hback] at hlast
        exact ⟨Int.le_refl _, hlast, hfirst, hseries.tokenEnd⟩
      | cons second others =>
        rw [hothers] at hrest
        refine .of_row span.start span.start hi rfl ?_ (Int.le_refl _)
          (Int.le_refl _) ?_ hseries.tokenEnd
        · have hall : Row span.start (.expr (.amend inner first ⟨span.start, first.span.stop⟩) ::
              (second :: others).map Node.objectBody) hi :=
            .cons (Int.le_refl _) hfirst hrest
          simpa [Node.children, Node.fields, Expr.fields, amend, Expr.span] using hall
        · have := hfirst.start_lt_stop
          have := hrest.le
          exact Int.lt_of_lt_of_le hfirst.start_lt_stop hrest.le
  | _ => exact hplain

theorem Places.amendments (hg : g.Places ctx) {base : Expr} {lo : Int} {mid : Nat}
    (hbase : Placed ctx.text lo (.expr base) mid) (hle : mid ≤ s.pos) :
    (g.amendments base).Yields ctx s c fun e _ c' =>
      Placed ctx.text lo (.expr e) c' ∧ s.pos < c' := by
  refine (hg.body s c).bind fun first s₁ c₁ h₁ hfirst =>
    (hg.moreBodies hfirst).bind fun bodies s₂ c₂ h₂ hseries => .pure ?_
  have hlt := hfirst.lt
  have hle₂ := h₂.le
  exact ⟨placed_amend hbase hseries (by omega), by omega⟩

/-- One more selection or amendment of an expression, or none. -/
theorem Places.postfixStep (hg : g.Places ctx) {target : Expr} {lo : Int}
    (htarget : Placed ctx.text lo (.expr target) c) :
    (g.postfixStep target).Yields ctx s c fun round s' c' =>
      round.Meets (fun e => s.pos < s'.pos ∧ Placed ctx.text lo (.expr e) c')
        fun e => Placed ctx.text lo (.expr e) c' := by
  refine skip_yields.bind fun _ s₁ c₁ h₁ hskip => ?_
  obtain rfl := hskip.eq
  have hle := h₁.pos_le
  have hle₁ := h₁.stands.le_pos
  -- A step that reads something behind the target.
  have hnext : ∀ {e : Expr} {s₂ : State} {c₂ : Nat}, Stands ctx.text s₂ c₂ →
      Placed ctx.text lo (.expr e) c₂ ∧ s₁.pos < c₂ →
      s.pos < s₂.pos ∧ Placed ctx.text lo (.expr e) c₂ := by
    intro e s₂ c₂ hs h
    have := hs.le_pos
    exact ⟨by omega, h.1⟩
  refine .look (startsWith_looks _) (.ite (fun hmark =>
    (hg.nullSafeAccess htarget hle₁ hmark).bind fun e s₂ c₂ h₂ h => .pure (hnext h₂.stands h))
    fun _ => ?_)
  refine .look (startsWith_looks _) (.look (startsWith_looks _) (.ite (fun hdot => ?_) fun _ => ?_))
  · rw [Bool.and_eq_true] at hdot
    exact (hg.dotAccess htarget hle₁ hdot.1).bind fun e s₂ c₂ h₂ h => .pure (hnext h₂.stands h)
  refine .look (startsWith_looks _) (.look (newlineSince_looks _) (.ite (fun hopen => ?_)
    fun _ => ?_))
  · rw [Bool.and_eq_true] at hopen
    exact (hg.bracketAccess htarget hle₁ hopen.1).bind fun e s₂ c₂ h₂ h => .pure (hnext h₂.stands h)
  refine .look (startsWith_looks _) (.ite (fun hmarks => ?_) fun _ => ?_)
  · refine .bind (advance_token "!!" hmarks (by decide)) fun _ s₂ c₂ h₂ hadv =>
      .look position_looks (.pure ?_)
    have hend := tokenEnd_of_matchesAt (c := '!') hmarks rfl (by decide) (by decide)
    obtain ⟨rfl, rfl⟩ := hadv
    have hlen : "!!".length = 2 := rfl
    have hstop := htarget.stop_eq
    have hlt := htarget.sound.start_lt_stop
    refine ⟨by simp only; omega, .mono (.of_row target.span.start target.span.start c₁ rfl ?_
      (Int.le_refl _) (by omega) ?_ hend) htarget.le_start⟩
    · exact .cons (Int.le_refl _) htarget.sound (.nil (Int.le_of_eq hstop))
    · have : (Node.expr target).span.start = target.span.start := rfl
      omega
  refine .look (startsWith_looks _) (.ite (fun _ => ?_) fun _ => .pure htarget)
  exact (hg.amendments htarget hle₁).bind fun e s₂ c₂ h₂ h => .pure (hnext h₂.stands h)

/-! ### Type tests and prefix operators -/

/-- An operand with a type behind it. -/
theorem placed_tested {e test : Expr} {type : TypeExpr} {lo start : Int} {mid hi : Nat}
    (he : Placed text lo (.expr e) mid) (htype : Placed text start (.type type) hi)
    (hle : mid ≤ start) (hspan : test.span = e.span.cover type.span)
    (hchildren : (Node.expr test).children = [.expr e, .type type]) :
    Placed text lo (.expr test) hi := by
  have hstop : e.span.stop = mid := he.stop_eq
  have hstop' : type.span.stop = hi := htype.stop_eq
  have hstart : start ≤ type.span.start := htype.le_start
  have hlt : e.span.start < e.span.stop := he.sound.start_lt_stop
  have hlt' : type.span.start < type.span.stop := htype.sound.start_lt_stop
  refine .mono (.of_row e.span.start e.span.start hi ?_ ?_ (Int.le_refl _) (Int.le_refl _) (by omega)
    htype.tokenEnd) he.le_start
  · show test.span = _
    rw [hspan, Span.cover_eq (by omega) (by omega), hstop']
  · rw [hchildren]
    exact .cons (Int.le_refl _) he.sound
      (htype.row.mono (by show e.span.stop ≤ start; omega) (Int.le_refl _))

theorem Places.typeTestStep (hg : g.Places ctx) {e : Expr} {lo : Int}
    (he : Placed ctx.text lo (.expr e) c) :
    (g.typeTestStep e).Yields ctx s c fun round s' c' =>
      round.Meets (fun e => s.pos < s'.pos ∧ Placed ctx.text lo (.expr e) c')
        fun e => Placed ctx.text lo (.expr e) c' := by
  refine skip_yields.bind fun _ s₁ c₁ h₁ hskip => ?_
  obtain rfl := hskip.eq
  have hle := h₁.pos_le
  have hle₁ := h₁.stands.le_pos
  refine .look (atWord_looks _) (.ite (fun hword => ?_) fun _ => ?_)
  · refine .bind (advance_token "is" (matchesAt_of_wordAt hword) (by decide)) fun _ s₂ c₂ h₂ _ =>
      (hg.type s₂ c₂).bind fun type s₃ c₃ h₃ htype => .pure ?_
    have hle₂ := h₂.pos_le
    have hlt := htype.lt
    have hle₃ := h₃.stands.le_pos
    exact ⟨by omega, placed_tested he htype (by omega) rfl rfl⟩
  refine .look (atWord_looks _) (.ite (fun hword => ?_) fun _ => .pure he)
  refine .bind (advance_token "as" (matchesAt_of_wordAt hword) (by decide)) fun _ s₂ c₂ h₂ _ =>
    (hg.type s₂ c₂).bind fun type s₃ c₃ h₃ htype => .pure ?_
  have hle₂ := h₂.pos_le
  have hlt := htype.lt
  have hle₃ := h₃.stands.le_pos
  exact ⟨by omega, placed_tested he htype (by omega) rfl rfl⟩

/-- Prefix operators, the last one first, that stand one behind the other before `hi`. -/
def PrefixesIn (lo : Nat) : List (UnaryOperator × Nat) → Nat → Prop
  | [], hi => lo ≤ hi
  | (_, start) :: others, hi => start < hi ∧ PrefixesIn lo others start

theorem PrefixesIn.mono {lo hi hi' : Nat} {operators : List (UnaryOperator × Nat)}
    (h : PrefixesIn lo operators hi) (hle : hi ≤ hi') : PrefixesIn lo operators hi' := by
  cases operators with
  | nil => exact Nat.le_trans h hle
  | cons => exact ⟨Nat.lt_of_lt_of_le h.1 hle, h.2⟩

theorem placed_applyPrefixes {operators : List (UnaryOperator × Nat)} {e : Expr} {lo mid hi : Nat}
    (h : PrefixesIn lo operators mid) (he : Placed text mid (.expr e) hi) :
    Placed text lo (.expr (applyPrefixes operators e)) hi := by
  induction operators generalizing mid e with
  | nil => exact he.mono (Int.ofNat_le.2 h)
  | cons operator others ih =>
    obtain ⟨op, start⟩ := operator
    obtain ⟨hlt, hothers⟩ := h
    have hlt' := he.lt
    refine ih hothers (.of_row start mid hi ?_ he.row (by omega) (Int.le_refl _) (by omega)
      he.tokenEnd)
    show Span.mk _ _ = _
    rw [show e.span.stop = hi from he.stop_eq]

theorem prefixStep_yields {operators : List (UnaryOperator × Nat)} {lo : Nat}
    (h : PrefixesIn lo operators s.pos) :
    (prefixStep operators).Yields ctx s c fun round s' _ =>
      round.Meets (fun operators => s.pos < s'.pos ∧ PrefixesIn lo operators s'.pos)
        fun operators => PrefixesIn lo operators s'.pos := by
  refine skip_yields.bind fun _ s₁ c₁ h₁ _ => .look position_looks (.look (startsWith_looks _)
    (.look (startsWith_looks _) (.ite (fun hminus => ?_) fun _ => ?_)))
  · rw [Bool.and_eq_true] at hminus
    refine .bind (advance_token "-" hminus.1 (by decide)) fun _ s₂ c₂ _ hadv => .pure ?_
    have hle₁ := h₁.pos_le
    have hlen : "-".length = 1 := rfl
    obtain ⟨rfl, rfl⟩ := hadv
    exact ⟨by simp only; omega, by simp only; omega, h.mono hle₁⟩
  refine .look (startsWith_looks _) (.look (startsWith_looks _) (.ite (fun hnot => ?_)
    fun _ => .pure (h.mono h₁.pos_le)))
  rw [Bool.and_eq_true] at hnot
  refine .bind (advance_token "!" hnot.1 (by decide)) fun _ s₂ c₂ _ hadv => .pure ?_
  have hle₁ := h₁.pos_le
  have hlen : "!".length = 1 := rfl
  obtain ⟨rfl, rfl⟩ := hadv
  exact ⟨by simp only; omega, by simp only; omega, h.mono hle₁⟩

theorem Places.operand (hg : g.Places ctx) :
    g.operand.Yields ctx s c fun e _ c' => Placed ctx.text s.pos (.expr e) c' := by
  refine .bind (P := fun operators s' _ => PrefixesIn s.pos operators s'.pos)
    (.repeating (fun operators s' _ => PrefixesIn s.pos operators s'.pos) (Nat.le_refl _)
      fun operators s₁ c₁ _ h => prefixStep_yields h) fun operators s₁ c₁ _ hoperators => ?_
  refine hg.primary.bind fun primary s₂ c₂ _ hprimary => ?_
  refine .bind (P := fun e _ c' => Placed ctx.text s₁.pos (.expr e) c')
    (.repeating (fun e _ c' => Placed ctx.text s₁.pos (.expr e) c') hprimary
      fun e s₃ c₃ _ he => hg.postfixStep he) fun selected s₃ c₃ _ hselected => ?_
  exact .bind (P := fun e _ c' => Placed ctx.text s₁.pos (.expr e) c')
    (.repeating (fun e _ c' => Placed ctx.text s₁.pos (.expr e) c') hselected
      fun e s₄ c₄ _ he => hg.typeTestStep he) fun tested s₄ c₄ _ htested =>
        .pure (placed_applyPrefixes hoperators htested)

end Grammar

/-! ### Infix operators -/

/-- Where the last operand of a sequence ends that begins with an operand that ends at `stop`. -/
def lastStop (stop : Int) (steps : List InfixStep) : Int :=
  (steps.getLast?.map fun step => step.operand.span.stop).getD stop

@[simp] theorem lastStop_nil (stop : Int) : lastStop stop [] = stop := rfl

@[simp] theorem lastStop_cons (stop : Int) (step : InfixStep) (steps : List InfixStep) :
    lastStop stop (step :: steps) = lastStop step.operand.span.stop steps := by
  rw [lastStop, lastStop, List.getLast?_cons]
  cases steps.getLast? <;> rfl

/-- The nodes of the operands behind the operators. -/
def operandNodes (steps : List InfixStep) : List Node := steps.map fun step => .expr step.operand

theorem sound_combine {left right : Expr} (op : BinaryOperator) (hleft : (Node.expr left).Sound)
    (hright : (Node.expr right).Sound) (hle : left.span.stop ≤ right.span.start) :
    (Node.expr (left.combine op right)).Sound ∧
      (left.combine op right).span = ⟨left.span.start, right.span.stop⟩ := by
  have hlt : left.span.start < left.span.stop := hleft.start_lt_stop
  have hlt' : right.span.start < right.span.stop := hright.start_lt_stop
  have hspan : (left.combine op right).span = ⟨left.span.start, right.span.stop⟩ :=
    Span.cover_eq (by omega) (by omega)
  have hrow : Row left.span.start (Node.expr (left.combine op right)).children right.span.stop :=
    .cons (Int.le_refl _) hleft (.cons hle hright (.nil (Int.le_refl _)))
  refine ⟨Node.sound_of_row hrow ?_ ?_ ?_, hspan⟩
  · exact Int.le_of_eq (by rw [show (Node.expr (left.combine op right)).span = _ from hspan])
  · exact Int.le_of_eq (by rw [show (Node.expr (left.combine op right)).span = _ from hspan])
  · rw [show (Node.expr (left.combine op right)).span = _ from hspan]
    show left.span.start < right.span.stop
    omega

/-- Grouping makes a sound tree of some first operands of a row, and leaves the others a row. -/
theorem climb_spec (least : Nat) {left : Expr} {steps : List InfixStep} {hi : Int}
    (hleft : (Node.expr left).Sound) (hrow : Row left.span.stop (operandNodes steps) hi) :
    (Node.expr (climb least left steps).tree).Sound ∧
      (climb least left steps).tree.span.start = left.span.start ∧
      Row (climb least left steps).tree.span.stop (operandNodes (climb least left steps).rest) hi ∧
      lastStop (climb least left steps).tree.span.stop (climb least left steps).rest =
        lastStop left.span.stop steps := by
  fun_induction climb least left steps with
  | case1 least left => exact ⟨hleft, rfl, hrow, rfl⟩
  | case2 least left step tail hlt => exact ⟨hleft, rfl, hrow, rfl⟩
  | case3 least left step tail hge right rest hle hright whole rest' hle' hwhole ih₁ ih₂ =>
    cases hrow with
    | cons hstart hsound htail =>
      obtain ⟨hsound₁, hstart₁, hrow₁, hlast₁⟩ := ih₁ hsound htail
      rw [hright] at hsound₁ hstart₁ hrow₁ hlast₁
      simp only at hsound₁ hstart₁ hrow₁ hlast₁
      obtain ⟨hsound₂, hspan⟩ :=
        sound_combine step.op hleft hsound₁ (hstart₁ ▸ hstart)
      rw [hwhole, hspan] at ih₂
      obtain ⟨hsound₃, hstart₃, hrow₃, hlast₃⟩ := ih₂ hsound₂ hrow₁
      exact ⟨hsound₃, hstart₃, hrow₃, by rw [hlast₃, hlast₁, lastStop_cons]⟩

/-- At the least level of all, every operator is taken. -/
theorem climb_zero_rest (left : Expr) (steps : List InfixStep) : (climb 0 left steps).rest = [] := by
  suffices h : ∀ least left steps, least = 0 → (climb least left steps).rest = [] from
    h 0 left steps rfl
  intro least left steps hzero
  fun_induction climb least left steps with
  | case1 => rfl
  | case2 _ _ _ _ hlt => omega
  | case3 _ _ _ _ _ _ _ _ _ whole rest' hle hwhole _ ih =>
    have := ih hzero
    rwa [hwhole] at this

/-- The tree of a sequence of operands spans all of them. -/
theorem placed_groupInfix {text : Array Char} {first : Expr} {steps : List InfixStep} {lo : Int}
    {mid hi : Nat} (hfirst : Placed text lo (.expr first) mid)
    (hrow : Row mid (operandNodes steps) hi) (hlast : lastStop mid steps = hi)
    (hend : TokenEnd text hi) : Placed text lo (.expr (groupInfix first steps)) hi := by
  have hstop : first.span.stop = mid := hfirst.stop_eq
  rw [← hstop] at hrow hlast
  obtain ⟨hsound, hstart, -, hlast'⟩ := climb_spec 0 hfirst.sound hrow
  rw [climb_zero_rest, lastStop_nil, hlast] at hlast'
  exact ⟨Int.le_trans hfirst.le_start (Int.le_of_eq hstart.symm), hlast', hsound, hend⟩

namespace Grammar

open PklSyntax.Parser

variable {g : Grammar} {ctx : Context} {s : State} {c : Nat}

theorem firstOperator?_looks (ops : List BinaryOperator) :
    Looks (firstOperator? ops) fun ctx s => ops.find? fun op => matchesAt ctx.text op.symbol s.pos := by
  induction ops with
  | nil => exact fun _ _ => rfl
  | cons op others ih =>
    intro ctx s
    rw [firstOperator?, (startsWith_looks op.symbol).bind_apply]
    dsimp only
    rw [List.find?_cons]
    cases matchesAt ctx.text op.symbol s.pos with
    | true => rfl
    | false => exact ih ctx s

theorem infixOperator?_yields (left : Expr) :
    (infixOperator? left).Yields ctx s c fun op? s' c' =>
      Skipped ctx.text c s' c' ∧ ∀ op, op? = some op → matchesAt ctx.text op.symbol s'.pos = true := by
  refine skip_yields.bind fun _ s₁ c₁ _ hskip => .look (firstOperator?_looks _) ?_
  have hmatch : ∀ op, BinaryOperator.longestFirst.find?
      (fun op => matchesAt ctx.text op.symbol s₁.pos) = some op →
        matchesAt ctx.text op.symbol s₁.pos = true :=
    fun op h => List.find?_some (p := fun op : BinaryOperator =>
      matchesAt ctx.text op.symbol s₁.pos) h
  split
  · rename_i hsubtract
    refine .look (startsWith_looks _) (.look (newlineSince_looks _) (.ite (fun _ => ?_) fun _ => ?_))
    · exact .pure ⟨hskip, nofun⟩
    · refine .pure ⟨hskip, fun op hop => ?_⟩
      cases hop
      exact hmatch _ hsubtract
  · exact .pure ⟨hskip, hmatch⟩

theorem Places.infixSteps (hg : g.Places ctx) {first : Expr} {lo : Int}
    (hfirst : Placed ctx.text lo (.expr first) c) :
    (g.infixSteps first).Yields ctx s c fun steps _ c' =>
      Row c (operandNodes steps.toList) c' ∧ lastStop c steps.toList = c' ∧
        TokenEnd ctx.text c' := by
  refine .repeating (fun steps _ c' => Row c (operandNodes steps.toList) c' ∧
      lastStop c steps.toList = c' ∧ TokenEnd ctx.text c')
    ⟨.nil (Int.le_refl _), rfl, hfirst.tokenEnd⟩ fun steps s₁ c₁ h₁ hsteps => ?_
  obtain ⟨hrow, hlast, hend⟩ := hsteps
  refine (infixOperator?_yields _).bind fun op? s₂ c₂ h₂ hop => ?_
  obtain ⟨hskip, hop⟩ := hop
  obtain rfl := hskip.eq
  cases op? with
  | none => exact .pure ⟨hrow, hlast, hend⟩
  | some op =>
    refine (advance_matched hskip.poised (hop op rfl) (by cases op <;> decide)).bind
      fun _ s₃ c₃ h₃ _ => hg.operand.bind fun right s₄ c₄ h₄ hright => .pure ?_
    have hle₂ := h₂.start.le_pos
    have hpos₂ := h₂.pos_le
    have hpos₃ := h₃.pos_le
    have hlt := hright.lt
    have hle₄ := h₄.stands.le_pos
    refine ⟨by omega, hrow.push (a := InfixStep.mk op right) hright (by omega), ?_,
      hright.tokenEnd⟩
    rw [lastStop, Array.toList_push, List.getLast?_concat]
    exact hright.stop_eq

theorem Places.expressionRule (hg : g.Places ctx) :
    g.expressionRule.Yields ctx s c fun e _ c' => Placed ctx.text s.pos (.expr e) c' := by
  refine hg.operand.bind fun first s₁ c₁ _ hfirst =>
    (hg.infixSteps hfirst).bind fun steps s₂ c₂ _ hsteps => ?_
  obtain ⟨hrow, hlast, hend⟩ := hsteps
  dsimp only
  split
  · exact throw_tooDeep_yields.bind (P := fun _ _ _ => False) fun _ _ _ _ h => h.elim
  · exact .pure (placed_groupInfix hfirst hrow hlast hend)

end Grammar

end PklSyntax
