import PklSyntax.Grammar.Declaration
import PklSyntax.Proofs.Layout.Expression

/-!
# How declarations lie in the text

A declaration begins with its *lead*: with the doc comment that waits in front of the cursor, or
else at the cursor. It ends where its last token ends. Its doc comment and its annotations stand
before all else in it, though its fields list them last.

A member of a class that was given up leaves an error on record, and the members that are read behind
it lie behind all that were read before.

## Main definitions

* `State.lead`: where a declaration at the cursor begins.
* `Led`: the doc comment and the annotations have been read that stand in front of a declaration.
* `Spans`: a sound tree that lies between two given offsets.

## Main statements

* `Grammar.Places.preamble`: what stands in front of a declaration.
* `Grammar.Places.propertyRule`, `Grammar.Places.functionRule`: members of classes and objects.
* `Grammar.Places.declarationRule`: a declaration lies from its lead to the end of its last token.
-/

namespace PklSyntax

variable {text : Array Char} {s : State} {c : Nat}

/-- Where a declaration at the cursor begins: with the doc comment that waits, if there is one. -/
def State.lead (s : State) : Int := (s.pending.map DocComment.span).elim (s.pos : Int) Span.start

/-- The doc comment that waits makes up a row behind the last token. -/
theorem Stands.row_pending (h : Stands text s c) :
    c ≤ s.lead ∧ Row s.lead (s.pending.toList.map Node.docComment) s.pos := by
  cases hdoc : s.pending with
  | none => exact ⟨by simpa [State.lead, hdoc] using h.le_pos, .nil (by simp [State.lead, hdoc])⟩
  | some doc =>
    obtain ⟨start, stop, hspan, hle, hlt, hstop⟩ := h.pending_span hdoc
    have hlead : s.lead = start := by simp [State.lead, hdoc, hspan, Span.ofNat]
    refine ⟨by omega, .cons ?_ (Node.sound_leaf rfl ?_) (.nil ?_)⟩
    · show s.lead ≤ doc.span.start
      rw [hspan, hlead]
      exact Int.le_refl _
    · show doc.span.start < doc.span.stop
      rw [hspan]
      exact Int.ofNat_lt.2 hlt
    · show doc.span.stop ≤ s.pos
      rw [hspan]
      exact Int.ofNat_le.2 hstop

/-- What stands in front of a declaration has been read, from the state `s` up to `hi`. -/
structure Led (s : State) (before : Preamble) (hi : Nat) : Prop where
  start_eq : before.start = s.lead
  doc_eq : before.doc = s.pending
  row : Row s.lead (nodesOf (documentationFields before.doc before.annotations)) hi

/-- The tree lies between the offsets, is sound, and ends where a token ends. -/
structure Spans (text : Array Char) (lo : Int) (n : Node) (hi : Nat) : Prop where
  span_eq : n.span = ⟨lo, hi⟩
  sound : n.Sound
  tokenEnd : TokenEnd text hi

theorem Spans.placed {lo : Int} {hi : Nat} {n : Node} (h : Spans text lo n hi) :
    Placed text lo n hi :=
  ⟨Int.le_of_eq (by rw [h.span_eq]), by rw [h.span_eq], h.sound, h.tokenEnd⟩

/-- A declaration whose other children make up a row behind what stands in front of it. -/
theorem Led.spans {before : Preamble} {mid hi : Nat} {n : Node} {fields : List Field}
    (lo' hi' : Int) (h : Led s before mid) (hspan : n.span = ⟨before.start, hi⟩)
    (hfields : n.fields = fields ++ documentationFields before.doc before.annotations)
    (hrow : Row lo' (nodesOf fields) hi') (hle : mid ≤ lo') (hhi : hi' ≤ hi) (hlt : mid < hi)
    (hend : TokenEnd text hi) : Spans text s.lead n hi := by
  have hspan : n.span = ⟨s.lead, hi⟩ := hspan.trans (by rw [h.start_eq])
  have hle' := h.row.le
  exact ⟨hspan, Node.sound_of_rows hfields h.row (hrow.mono hle (Int.le_refl _))
    (Int.le_of_eq (by rw [hspan])) (by rw [hspan]; exact hhi) (by rw [hspan]; show s.lead < hi; omega),
    hend⟩

namespace Parser

variable {ctx : Context}

theorem firstModifier?_looks (ms : List Modifier) :
    Looks (firstModifier? ms) fun ctx s => ms.find? fun m => wordAt ctx.text m.keyword s.pos := by
  induction ms with
  | nil => exact fun _ _ => rfl
  | cons m others ih =>
    intro ctx s
    rw [firstModifier?, (atWord_looks m.keyword).bind_apply]
    dsimp only
    rw [List.find?_cons]
    cases wordAt ctx.text m.keyword s.pos with
    | true => rfl
    | false => exact ih ctx s

theorem modifiers_yields : modifiers.Yields ctx s c fun _ _ _ => True := by
  refine .repeating (fun _ _ _ => True) trivial fun found s₁ c₁ _ _ =>
    skip_yields.bind fun _ s₂ c₂ h₂ _ => .look (firstModifier?_looks _) ?_
  cases hfirst : Modifier.all.find? fun m => wordAt ctx.text m.keyword s₂.pos with
  | none => exact .pure trivial
  | some m =>
    have hword : wordAt ctx.text m.keyword s₂.pos = true :=
      List.find?_some (p := fun m : Modifier => wordAt ctx.text m.keyword s₂.pos) hfirst
    refine .bind (advance_token m.keyword (matchesAt_of_wordAt hword) (by cases m <;> decide))
      fun _ s₃ c₃ _ hadv => .pure ⟨?_, trivial⟩
    have hle₂ := h₂.pos_le
    have hlen : 0 < m.keyword.length := by cases m <;> decide
    obtain ⟨rfl, rfl⟩ := hadv
    simp only
    omega

theorem variance_yields : variance.Yields ctx s c fun _ _ _ => True := by
  refine .look (atWord_looks _) (.ite (fun hword => ?_) fun _ => ?_)
  · exact .bind (advance_token "in" (matchesAt_of_wordAt hword) (by decide)) fun _ _ _ _ _ =>
      .pure trivial
  refine .look (atWord_looks _) (.ite (fun hword => ?_) fun _ => .pure trivial)
  exact .bind (advance_token "out" (matchesAt_of_wordAt hword) (by decide)) fun _ _ _ _ _ =>
    .pure trivial

end Parser

namespace Grammar

open PklSyntax.Parser

variable {g : Grammar} {ctx : Context}

/-! ### In front of a declaration -/

theorem eq_of_atToken (token : String) :
    (atToken token).Yields ctx s c fun found _ c' => found = false → c' = c :=
  (atToken_yields token).mono fun _ _ _ _ h _ => h.1.eq

theorem eq_of_acceptKeyword {word : String} (hne : word ≠ "") :
    (acceptKeyword word).Yields ctx s c fun found _ c' => found = false → c' = c :=
  (acceptKeyword_yields hne).mono fun found _ _ _ h hnone => by
    subst hnone
    exact h.1.eq

theorem Places.annotationRule (hg : g.Places ctx) (hsign : matchesAt ctx.text "@" s.pos = true) :
    g.annotationRule.Yields ctx s c fun annotation _ c' =>
      Placed ctx.text s.pos ( Node.annotation annotation) c' := by
  refine .look position_looks (.bind (advance_token "@" hsign (by decide)) fun _ s₁ c₁ h₁ _ =>
    qualifiedName_yields.bind fun name s₂ c₂ h₂ hname =>
      tail_yields (eq_of_atToken _) hg.body fun body? s₃ c₃ h₃ hbody => .pure ?_)
  obtain ⟨hname, -⟩ := hname
  have hle₁ := h₁.pos_le
  have hlt := hname.lt
  have hle := hbody.le
  refine .of_row s.pos s₁.pos c₃ ?_ ?_ (by omega) (Int.le_refl _) (by omega)
    (hbody.tokenEnd hname.tokenEnd)
  · show Span.mk _ _ = _
    rw [show name.span.stop = c₂ from hname.stop_eq]
    exact congrArg (Span.mk _) hbody.stop_eq
  · have hrow : Row s₁.pos (Node.namedType name :: body?.toList.map Node.objectBody) c₃ :=
      hname.cons hbody.row
    simpa [Node.children, Node.fields, Annotation.fields] using hrow

theorem Places.annotationRules (hg : g.Places ctx) :
    g.annotationRules.Yields ctx s c fun annotations s' _ =>
      Row s.pos (annotations.map Node.annotation) s'.pos := by
  refine .bind (P := fun annotations s' _ =>
    Row s.pos (annotations.toList.map Node.annotation) s'.pos) ?_ fun _ _ _ _ h => .pure h
  refine .repeating (fun annotations s' _ =>
    Row s.pos (annotations.toList.map Node.annotation) s'.pos) (.nil (Int.le_refl _))
    fun annotations s₁ c₁ _ hrow => (atToken_yields "@").bind fun found s₂ c₂ h₂ hfound => ?_
  have hle₂ := h₂.pos_le
  cases found with
  | false => exact .pure (hrow.mono (Int.le_refl _) (by omega))
  | true =>
    refine (hg.annotationRule hfound.2.symm).bind fun annotation s₃ c₃ h₃ hannotation => .pure ?_
    have hlt := hannotation.lt
    have hle₃ := h₃.stands.le_pos
    exact ⟨by omega, (hrow.push hannotation (by omega)).mono (Int.le_refl _) (by omega)⟩

theorem Places.preamble (hg : g.Places ctx) :
    g.preamble.Yields ctx s c fun before s' c' => Led s before s'.pos ∧ Skipped ctx.text c' s' c' := by
  refine .of_stands fun hs => .look position_looks (takeDoc_yields.bind fun doc s₁ c₁ h₁ hdoc =>
    hg.annotationRules.bind fun annotations s₂ c₂ h₂ hrow =>
      modifiers_yields.bind fun modifiers s₃ c₃ h₃ _ =>
        skip_yields.bind fun _ s₄ c₄ h₄ hskip => .pure ⟨⟨?_, ?_, ?_⟩, ?_⟩)
  all_goals obtain ⟨rfl, hpos, rfl⟩ := hdoc
  · rfl
  · rfl
  · have hle₃ := h₃.pos_le
    have hle₄ := h₄.pos_le
    have hrow' : Row s.pos (annotations.map Node.annotation) s₄.pos := hrow.mono (by omega) (by omega)
    have hall := hs.row_pending.2.append hrow'
    simpa [nodesOf, documentationFields] using hall
  · exact hskip.eq ▸ hskip

/-! ### Type parameters -/

theorem Places.typeParameter (hg : g.Places ctx) :
    g.typeParameter.Yields ctx s c fun parameter _ c' =>
      Placed ctx.text s.pos (.typeParameter parameter) c' := by
  refine skip_yields.bind fun _ s₁ c₁ h₁ _ => .look position_looks
    (variance_yields.bind fun variance s₂ c₂ h₂ _ =>
      (hg.type s₂ c₂).bind fun type s₃ c₃ h₃ htype => .pure ?_)
  have hle₁ := h₁.pos_le
  have hle₂ := h₂.pos_le
  have hlt := htype.lt
  refine .mono (.of_row s₁.pos s₂.pos c₃ ?_ htype.row (by omega) (Int.le_refl _) (by omega)
    htype.tokenEnd) (Int.ofNat_le.2 hle₁)
  show Span.mk _ _ = _
  rw [show type.span.stop = c₃ from htype.stop_eq]

theorem Places.typeParameters (hg : g.Places ctx) (hend : TokenEnd ctx.text c) :
    (g.typeParameters c).Yields ctx s c fun result _ c' =>
      Row c (result.1.map Node.typeParameter) c' ∧ result.2 = c' ∧ TokenEnd ctx.text c' := by
  refine .of_stands fun hs => (accept?_yields (by decide)).bind fun opening? s₁ c₁ h₁ hopening => ?_
  have hpos := hs.le_pos
  have hle₁ := h₁.pos_le
  cases opening? with
  | none =>
    obtain rfl := hopening.1.eq
    exact .pure ⟨.nil (Int.le_refl _), rfl, hend⟩
  | some opening =>
    refine (accept?_yields (by decide)).bind fun close? s₂ c₂ h₂ hclose => ?_
    have hle₂ := h₂.pos_le
    cases close? with
    | some close =>
      refine (report_yields _ _).bind fun _ s₃ c₃ _ h => .pure ?_
      obtain ⟨-, rfl⟩ := h
      have hlt := hclose.lt (by decide)
      exact ⟨.nil (by omega), hclose.stop_eq, hclose.tokenEnd '>' rfl (by decide) (by decide)⟩
    | none =>
      refine hg.typeParameter.bind fun first s₃ c₃ h₃ hfirst => ?_
      refine .bind (P := fun parameters _ c' =>
        Series ctx.text s₂.pos Node.typeParameter first parameters c') ?_
        fun parameters s₄ c₄ h₄ hparameters => ?_
      · refine .repeating (fun parameters _ c' =>
          Series ctx.text s₂.pos Node.typeParameter first parameters c') (.singleton hfirst)
          fun parameters s₄ c₄ h₄ hparameters =>
            (accept_yields (by decide)).bind fun comma s₅ c₅ h₅ hcomma => ?_
        have hle₄ := h₅.start.le_pos
        have hle₅ := h₅.pos_le
        cases comma with
        | false =>
          obtain rfl := hcomma.1.eq
          exact .pure hparameters
        | true =>
          refine hg.typeParameter.bind fun next s₆ c₆ h₆ hnext => .pure ?_
          have hlt := hnext.lt
          have hle₆ := h₆.stands.le_pos
          exact ⟨by omega, hparameters.push hnext (by omega)⟩
      · refine (expect_yields (by decide)).bind fun close s₅ c₅ h₅ hclose' => .pure ?_
        have hle₄ := h₅.start.le_pos
        have hlt := hclose'.lt (by decide)
        exact ⟨hparameters.row.mono (by omega) (by omega), hclose'.stop_eq,
          hclose'.tokenEnd '>' rfl (by decide) (by decide)⟩

/-! ### Properties and functions -/

theorem Places.objectForm (hg : g.Places ctx) :
    g.objectForm.Yields ctx s c fun form _ c' => Placed ctx.text s.pos (.objectForm form) c' := by
  refine (hg.body s c).bind fun first s₁ c₁ h₁ hfirst =>
    (hg.moreBodies hfirst).bind fun bodies s₂ c₂ h₂ hbodies => .pure ?_
  have hlast : (bodies.back?.getD first).span.stop = c₂ := hbodies.stop_eq
  refine .mono (.of_row first.span.start first.span.start c₂ ?_ ?_ (Int.le_refl _) (Int.le_refl _)
    hbodies.lt hbodies.tokenEnd) hbodies.le_start
  · show Span.mk _ _ = _
    rw [hlast]
  · have hrow : Row first.span.start (bodies.toList.map Node.objectBody) c₂ := hbodies.row_first
    simpa [Node.children, Node.fields, ObjectForm.fields] using hrow

/-- What follows the name of a property. -/
theorem Places.propertyForm (hg : g.Places ctx) {name : Identifier} (hend : TokenEnd ctx.text c) :
    (g.propertyForm name).Yields ctx s c fun form _ c' =>
      Placed ctx.text c (.ofPropertyForm form) c' := by
  refine .of_stands fun hs => (atToken_yields "\x7b").bind fun found s₁ c₁ h₁ hfound => ?_
  have hpos := hs.le_pos
  have hle₁ := h₁.pos_le
  obtain rfl := hfound.1.eq
  cases found with
  | true => exact hg.objectForm.bind fun form s₂ c₂ _ hform => .pure (hform.mono (by omega))
  | false =>
    refine hg.annotatedType fun type? s₂ c₂ h₂ htype =>
      atAssign_yields.bind fun assign s₃ c₃ h₃ hassign => ?_
    have hle₂ := h₂.stands.le_pos
    have hle₃ := h₃.pos_le
    have hle := htype.le
    obtain rfl := hassign.1.eq
    cases assign with
    | true =>
      have hmatch := (Bool.and_eq_true _ _ ▸ hassign.2.symm :
        matchesAt ctx.text "=" s₃.pos = true ∧ _).1
      refine .bind (advance_token "=" hmatch (by decide)) fun _ s₄ c₄ h₄ _ =>
        (hg.expr s₄ c₄).bind fun value s₅ c₅ h₅ hvalue => .pure ?_
      have hle₄ := h₄.pos_le
      have hrow := htype.row.snoc hvalue (by omega)
      have hstop : value.span.stop = c₅ := hvalue.stop_eq
      cases type? with
      | none =>
        have hstart := hvalue.le_start
        have hlt := hvalue.sound.start_lt_stop
        refine .mono (.of_row value.span.start value.span.start c₅ ?_ ?_ (Int.le_refl _)
          (Int.le_refl _) ?_ hvalue.tokenEnd) ?_
        · show Span.mk _ _ = _
          rw [hstop]
          rfl
        · exact .cons (Int.le_refl _) hvalue.sound (.nil (Int.le_of_eq hstop))
        · exact Int.lt_of_lt_of_le hlt (Int.le_of_eq hstop)
        · have : (Node.expr value).span.start = value.span.start := rfl
          omega
      | some type =>
        cases hrow with
        | cons hstart hsound hrest =>
          refine .mono (.of_row type.span.start type.span.start c₅ ?_ ?_ (Int.le_refl _)
            (Int.le_refl _) ?_ hvalue.tokenEnd) hstart
          · show Span.mk _ _ = _
            rw [hstop]
            rfl
          · exact .cons (Int.le_refl _) hsound hrest
          · exact Int.lt_of_lt_of_le hsound.start_lt_stop hrest.le
    | false =>
      cases type? with
      | none => exact failWith_yields rfl
      | some type =>
        cases htype.row with
        | cons hstart hsound hrest =>
          have hstop : type.span.stop = c₃ := htype.stop_eq
          refine .pure (.mono (.of_row type.span.start type.span.start c₃ ?_ ?_ (Int.le_refl _)
            (Int.le_refl _) ?_ (htype.tokenEnd hend)) hstart)
          · show type.span = _
            rw [← hstop]
          · exact .cons (Int.le_refl _) hsound (.nil (Int.le_of_eq hstop))
          · exact Int.lt_of_lt_of_le hsound.start_lt_stop (Int.le_of_eq hstop)

theorem span_ofPropertyForm (form : PropertyForm) :
    (Node.ofPropertyForm form).span = form.span := by
  cases form <;> rfl

/-- The rest of a property. -/
theorem Places.propertyRule (hg : g.Places ctx) {s₀ : State} {before : Preamble} {mid : Nat}
    (hled : Led s₀ before mid) (hle : mid ≤ s.pos) :
    (g.propertyRule before).Yields ctx s c fun decl _ c' =>
      Spans ctx.text s₀.lead (.property decl) c' ∧ s.pos < c' := by
  refine expectName_yields.bind fun name s₁ c₁ h₁ hname =>
    (hg.propertyForm hname.1.tokenEnd).bind fun form s₂ c₂ h₂ hform => .pure ?_
  have hlt₁ := hname.1.lt
  have hlt₂ := hform.lt
  refine ⟨hled.spans s.pos c₂ ?_ rfl (hname.1.cons hform.row) (by omega) (Int.le_refl _) (by omega)
    hform.tokenEnd, by omega⟩
  show Span.mk _ _ = _
  rw [show form.span.stop = c₂ from (span_ofPropertyForm form) ▸ hform.stop_eq]

/-- The rest of a function. -/
theorem Places.functionRule (hg : g.Places ctx) {s₀ : State} {before : Preamble} {mid : Nat}
    (hled : Led s₀ before mid) (hle : mid ≤ s.pos)
    (hword : wordAt ctx.text "function" s.pos = true) :
    (g.functionRule before).Yields ctx s c fun decl _ c' =>
      Spans ctx.text s₀.lead (.function decl) c' ∧ s.pos < c' := by
  refine .bind (advance_token "function" (matchesAt_of_wordAt hword) (by decide))
    fun _ s₁ c₁ h₁ _ => expectName_yields.bind fun name s₂ c₂ h₂ hname => ?_
  obtain ⟨hname, -⟩ := hname
  rw [show name.span.stop = c₂ from hname.stop_eq]
  refine (hg.typeParameters hname.tokenEnd).bind fun typeParams s₃ c₃ h₃ htypes =>
    hg.params.bind fun params s₄ c₄ h₄ hparams => hg.annotatedType fun result? s₅ c₅ h₅ hresult =>
      atAssign_yields.bind fun assign s₆ c₆ h₆ hassign => ?_
  obtain ⟨htypes, -⟩ := htypes
  obtain ⟨hparams, hstop₄, hend₄, hlt₄, -⟩ := hparams
  have hle₁ := h₁.pos_le
  have hlt₂ := hname.lt
  have hle₃ := htypes.le
  have hle₃' := h₃.stands.le_pos
  have hle₅ := hresult.le
  have hle₅' := h₅.stands.le_pos
  have hle₆ := h₆.pos_le
  obtain rfl := hassign.1.eq
  have hrow := hname.cons (htypes.append ((hparams.mono (by omega) (Int.le_refl _)).append
    hresult.row))
  -- Once the body has been read, if there is one.
  have hdone : ∀ {body? : Option Expr} {c' : Nat}, Tail ctx.text c₆ Node.expr body? c' →
      Spans ctx.text s₀.lead (.function
        { modifiers := before.modifiers
          name := name
          typeParams := typeParams.1
          params := params.1
          result := result?
          body := body?
          doc := before.doc
          annotations := before.annotations
          span := ⟨before.start, (body?.map Expr.span).elim
            ((result?.map TypeExpr.span).elim params.2 Span.stop) Span.stop⟩ }) c' ∧ s.pos < c' := by
    intro body? c' hbody
    have hle' := hbody.le
    refine ⟨hled.spans s₁.pos c' ?_ rfl ?_ (by omega) (Int.le_refl _)
      (by omega) (hbody.tokenEnd (hresult.tokenEnd hend₄)), by omega⟩
    · show Span.mk _ _ = _
      have hstop := hresult.stop_eq
      have hstop' := hbody.stop_eq
      rw [hstop₄]
      exact congrArg (Span.mk _) ((congrArg
        (fun stop => (body?.map Expr.span).elim stop Span.stop) hstop).trans hstop')
    · have hall := hrow.append hbody.row
      simpa [nodesOf] using hall
  cases assign with
  | false => exact .pure (hdone .none)
  | true =>
    have hmatch := (Bool.and_eq_true _ _ ▸ hassign.2.symm :
      matchesAt ctx.text "=" s₆.pos = true ∧ _).1
    refine .bind (advance_token "=" hmatch (by decide)) fun _ s₇ c₇ h₇ _ =>
      .bind (P := fun body? _ c' => Tail ctx.text c₆ Node.expr body? c')
        (.map ((hg.expr s₇ c₇).mono fun body s₈ c₈ _ hbody => .some hbody ?_))
        fun body? s₈ c₈ _ hbody => .pure (hdone hbody)
    have hle₇ := h₇.pos_le
    omega

/-! ### Classes -/

theorem Places.classMember (hg : g.Places ctx) :
    g.classMember.Yields ctx s c fun member _ c' =>
      Spans ctx.text s.lead (.ofClassMember member) c' ∧ s.pos < c' := by
  refine hg.preamble.bind fun before s₁ c₁ h₁ hbefore => ?_
  have hle₁ := h₁.pos_le
  refine .look (atWord_looks _) (.ite (fun hword => ?_) fun _ => ?_)
  · exact (hg.functionRule hbefore.1 (Nat.le_refl _) hword).bind fun decl s₂ c₂ _ hdecl =>
      .pure ⟨hdecl.1, Nat.lt_of_le_of_lt hle₁ hdecl.2⟩
  refine .look atIdentifier_looks (.ite (fun _ => ?_) fun _ => failExpected_yields)
  exact (hg.propertyRule hbefore.1 (Nat.le_refl _)).bind fun decl s₂ c₂ _ hdecl =>
    .pure ⟨hdecl.1, Nat.lt_of_le_of_lt hle₁ hdecl.2⟩

theorem memberRestart_spec (start i : Nat) (depth : Nat) :
    i ≤ memberRestart text start i depth ∧
      (i ≤ text.size → memberRestart text start i depth ≤ text.size) := by
  fun_induction memberRestart text start i depth with
  | case1 i depth h c hc ih => omega
  | case2 i h c hc hc' => omega
  | case3 i depth h c hc hc' hdepth ih => omega
  | case4 i depth h c hc hc' hc'' => omega
  | case5 i depth h c hc hc' hc'' ih => omega
  | case6 i depth h => omega

/-- Where a member begins, reading does not go on at once after the member was given up. -/
theorem lt_memberRestart {i : Nat} (depth : Nat) (hi : i < text.size)
    (hclose : charAt text i ≠ '\x7d') : i < memberRestart text i i depth := by
  rw [charAt_of_lt hi] at hclose
  rw [memberRestart, dif_pos hi]
  have hnext (depth) := (@memberRestart_spec text i (i + 1) depth).1
  have := hnext (depth + 1)
  have := hnext depth
  simp [hclose]
  split <;> omega

theorem skipMember_yields {start : Nat} (herror : s.HasError) :
    (skipMember start).Yields ctx s c fun _ s' _ =>
      s.pos ≤ s'.pos ∧ (s.pos = start → start < ctx.text.size →
        charAt ctx.text start ≠ '\x7d' → start < s'.pos) := by
  refine .of_stands fun hs => .look theText_looks (.look position_looks ?_)
  have hrestart (depth) := @memberRestart_spec ctx.text start s.pos depth
  refine (moveTo_hasError herror (hrestart _).1 ((hrestart _).2 hs.pos_le_size)).mono
    fun _ s' c' _ h => ?_
  rw [h]
  refine ⟨(hrestart _).1, fun hpos hlt hclose => ?_⟩
  subst hpos
  exact lt_memberRestart _ hlt hclose

/-- The members of a class follow one another. -/
theorem Places.classBody (hg : g.Places ctx) :
    g.classBody.Yields ctx s c fun result _ c' =>
      Row s.pos (result.1.map Node.ofClassMember) c' ∧ result.2 = c' ∧ TokenEnd ctx.text c' ∧
        s.pos < c' := by
  refine (expect_yields (by decide)).bind fun opening s₁ c₁ h₁ hopening => ?_
  have hlt₁ := hopening.lt (by decide)
  refine .bind (P := fun members s' c' => Row s.pos (members.toList.map Node.ofClassMember) c' ∧
    TokenEnd ctx.text c' ∧ s.pos < c' ∧ s'.pos = c') ?_ fun members s₂ c₂ _ h =>
      .look position_looks (.pure ⟨h.1, by rw [h.2.2.2], h.2.1, h.2.2.1⟩)
  refine .repeating (fun members _ c' => Row s.pos (members.toList.map Node.ofClassMember) c')
    (.nil (by omega)) fun members s₂ c₂ h₂ hmembers => skip_yields.bind fun _ s₃ c₃ h₃ hskip => ?_
  obtain rfl := hskip.eq
  have hle₃ := h₃.pos_le
  have hpos₃ := h₃.stands.le_pos
  have hle₂ := h₂.le
  refine .look atEnd_looks (.guard (fun _ => failWith_yields rfl) fun hend => ?_)
  refine .look peek_looks (.ite (fun hclose => ?_) fun hclose => ?_)
  · rw [beq_iff_eq] at hclose
    refine (advance_sign (by rw [hclose]; decide)).bind fun _ s₄ c₄ _ hadv => .pure ?_
    obtain ⟨rfl, rfl⟩ := hadv
    exact ⟨hmembers.mono (Int.le_refl _) (by omega),
      tokenEnd_of_sign hclose (by decide) (by decide), by omega, rfl⟩
  refine .look position_looks ((attempt_yields hg.classMember).bind fun member? s₄ c₄ h₄ hmember => ?_)
  have hle₄ := h₄.pos_le
  cases member? with
  | some member =>
    have hlead := h₄.start.row_pending.1
    have hpos₄ := h₄.stands.le_pos
    have hlt₄ := hmember.2
    exact .pure ⟨by omega, hmembers.push hmember.1.placed hlead⟩
  | none =>
    refine .look limitReached_looks (.guard (fun _ => throw_yields hmember) fun _ => ?_)
    refine (skipMember_yields hmember).bind fun _ s₅ c₅ h₅ hskip₅ => .pure ⟨?_, ?_⟩
    · obtain ⟨hle₅, hmove⟩ := hskip₅
      by_cases hpos : s₄.pos = s₃.pos
      · have := hmove hpos (by simpa using hend) (by simpa using hclose)
        omega
      · omega
    · have hle₄' := h₄.le
      have hle₅' := h₅.le
      exact hmembers.mono (Int.le_refl _) (by omega)

/-- The rest of a class. -/
theorem Places.classRule (hg : g.Places ctx) {s₀ : State} {before : Preamble} {mid : Nat}
    (hled : Led s₀ before mid) (hle : mid ≤ s.pos) (hword : wordAt ctx.text "class" s.pos = true) :
    (g.classRule before).Yields ctx s c fun decl _ c' =>
      Spans ctx.text s₀.lead (.classDecl decl) c' ∧ s.pos < c' := by
  refine .bind (advance_token "class" (matchesAt_of_wordAt hword) (by decide))
    fun _ s₁ c₁ h₁ _ => expectName_yields.bind fun name s₂ c₂ h₂ hname => ?_
  obtain ⟨hname, -⟩ := hname
  rw [show name.span.stop = c₂ from hname.stop_eq]
  refine (hg.typeParameters hname.tokenEnd).bind fun typeParams s₃ c₃ h₃ htypes =>
    tail_yields (eq_of_acceptKeyword (by decide)) hg.type fun parent? s₄ c₄ h₄ hparent =>
      (atToken_yields "\x7b").bind fun found s₅ c₅ h₅ hfound => ?_
  obtain rfl := hfound.1.eq
  obtain ⟨htypes, hstop₃, hend₃⟩ := htypes
  have hle₁ := h₁.pos_le
  have hlt₂ := hname.lt
  have hle₃ := htypes.le
  have hle₄ := hparent.le
  have hle₄' := h₄.stands.le_pos
  have hle₅ := h₅.pos_le
  refine .branch (P := fun (body? : Option (List ClassMember × Int)) _ c' =>
      Row c₅ (((body?.map Prod.fst).getD []).map Node.ofClassMember) c' ∧
        body?.elim (c₅ : Int) Prod.snd = c' ∧ TokenEnd ctx.text c')
    (fun _ => .map (hg.classBody.mono fun body s₆ c₆ _ hbody => ?_))
    (fun _ => .pure ⟨.nil (Int.le_refl _), rfl, hparent.tokenEnd hend₃⟩)
    fun body? s₆ c₆ h₆ hbody => .pure ⟨hled.spans s₁.pos c₆ ?_ rfl ?_ ?_ (Int.le_refl _) ?_
      hbody.2.2, ?_⟩
  · exact ⟨hbody.1.mono (by omega) (Int.le_refl _), hbody.2.1, hbody.2.2.1⟩
  · have hstop := hparent.stop_eq
    rw [hstop₃]
    exact congrArg (Span.mk _) ((congrArg (fun stop => body?.elim stop Prod.snd) hstop).trans
      hbody.2.1)
  · have hall := hname.cons ((htypes.append hparent.row).append hbody.1)
    simpa [nodesOf] using hall
  all_goals have hle₆ := hbody.1.le
  all_goals omega

/-! ### Clauses of a module -/

/-- The rest of the clause that names the module. -/
theorem moduleClauseRule_yields {s₀ : State} {before : Preamble} {mid : Nat}
    (hled : Led s₀ before mid) (hle : mid ≤ s.pos) (hword : wordAt ctx.text "module" s.pos = true) :
    (moduleClauseRule before).Yields ctx s c fun clause _ c' =>
      Spans ctx.text s₀.lead (.moduleClause clause) c' ∧ s.pos < c' := by
  refine .bind (advance_token "module" (matchesAt_of_wordAt hword) (by decide))
    fun _ s₁ c₁ h₁ _ => skip_yields.bind fun _ s₂ c₂ h₂ _ =>
      qualifiedName_yields.bind fun name s₃ c₃ _ hname => .pure ?_
  obtain ⟨hname, -⟩ := hname
  have hle₁ := h₁.pos_le
  have hle₂ := h₂.pos_le
  have hlt := hname.lt
  refine ⟨hled.spans s₂.pos c₃ ?_ rfl hname.row (by omega) (Int.le_refl _) (by omega)
    hname.tokenEnd, by omega⟩
  show Span.mk _ _ = _
  rw [show name.span.stop = c₃ from hname.stop_eq]

/-- The rest of an import. -/
theorem Places.importRule (hg : g.Places ctx) {s₀ : State} {before : Preamble} {mid : Nat}
    (hled : Led s₀ before mid) (hle : mid ≤ s.pos) (hword : wordAt ctx.text "import" s.pos = true) :
    (g.importRule before).Yields ctx s c fun decl _ c' =>
      Spans ctx.text s₀.lead (.importDecl decl) c' ∧ s.pos < c' := by
  refine .bind (advance_token "import" (matchesAt_of_wordAt hword) (by decide))
    fun _ s₁ c₁ h₁ _ => .look peek_looks ?_
  dsimp only
  refine .option (P := fun _ _ _ => True) () (fun hglob => ?_) (fun _ => trivial)
    fun _ s₂ c₂ h₂ _ => hg.sourceString.bind fun source s₃ c₃ h₃ hsource =>
      tail_yields (eq_of_acceptKeyword (by decide)) (fun s c => expectName_yields.mono
        fun _ _ _ _ h => h.1) fun localName? s₄ c₄ h₄ hlocal => .pure ⟨hled.spans c₃ c₄ ?_ rfl ?_ ?_
          (Int.le_refl _) ?_ (hlocal.tokenEnd hsource.tokenEnd), ?_⟩
  · rw [beq_iff_eq] at hglob
    exact (advance_sign (by rw [hglob]; decide)).mono fun _ _ _ _ _ => trivial
  · show Span.mk _ _ = _
    rw [show source.span.stop = c₃ from hsource.stop_eq]
    exact congrArg (Span.mk _) hlocal.stop_eq
  · simpa [nodesOf] using hlocal.row
  all_goals
    have hle₁ := h₁.pos_le
    have hle₂ := h₂.pos_le
    have hlt₃ := hsource.lt
    have hle₄ := hlocal.le
    omega

/-- A clause with nothing but a source behind its keyword. -/
theorem spans_source {s₀ : State} {before : Preamble} {mid hi : Nat} {lo : Int} {n : Node}
    {source : StringLiteral} {value : String} (hled : Led s₀ before mid)
    (hsource : Placed text lo (.string source) hi) (hle : mid ≤ lo)
    (hspan : n.span = ⟨before.start, source.span.stop⟩)
    (hfields : n.fields = ⟨"source", .text value⟩ ::
      documentationFields before.doc before.annotations) : Spans text s₀.lead n hi := by
  have hlt := hsource.lt
  have hstop : source.span.stop = hi := hsource.stop_eq
  have hrow : Row mid (nodesOf [⟨"source", .text value⟩]) hi := .nil (by omega)
  exact hled.spans mid hi (hspan.trans (by rw [hstop])) hfields hrow (Int.le_refl _)
    (Int.le_refl _) (by omega) hsource.tokenEnd

/-- The rest of the clause that names the module to extend. -/
theorem Places.extendsRule (hg : g.Places ctx) {s₀ : State} {before : Preamble} {mid : Nat}
    (hled : Led s₀ before mid) (hle : mid ≤ s.pos) (hword : wordAt ctx.text "extends" s.pos = true) :
    (g.extendsRule before).Yields ctx s c fun clause _ c' =>
      Spans ctx.text s₀.lead (.extendsClause clause) c' ∧ s.pos < c' := by
  refine .bind (advance_token "extends" (matchesAt_of_wordAt hword) (by decide))
    fun _ s₁ c₁ h₁ _ => hg.sourceString.bind fun source s₂ c₂ _ hsource => .pure ?_
  have hle₁ := h₁.pos_le
  have hlt := hsource.lt
  exact ⟨spans_source hled hsource (by omega) rfl rfl, by omega⟩

/-- The rest of the clause that names the module to amend. -/
theorem Places.amendsRule (hg : g.Places ctx) {s₀ : State} {before : Preamble} {mid : Nat}
    (hled : Led s₀ before mid) (hle : mid ≤ s.pos) (hword : wordAt ctx.text "amends" s.pos = true) :
    (g.amendsRule before).Yields ctx s c fun clause _ c' =>
      Spans ctx.text s₀.lead (.amendsClause clause) c' ∧ s.pos < c' := by
  refine .bind (advance_token "amends" (matchesAt_of_wordAt hword) (by decide))
    fun _ s₁ c₁ h₁ _ => hg.sourceString.bind fun source s₂ c₂ _ hsource => .pure ?_
  have hle₁ := h₁.pos_le
  have hlt := hsource.lt
  exact ⟨spans_source hled hsource (by omega) rfl rfl, by omega⟩

/-- The rest of a type alias. -/
theorem Places.typeAliasRule (hg : g.Places ctx) {s₀ : State} {before : Preamble} {mid : Nat}
    (hled : Led s₀ before mid) (hle : mid ≤ s.pos)
    (hword : wordAt ctx.text "typealias" s.pos = true) :
    (g.typeAliasRule before).Yields ctx s c fun decl _ c' =>
      Spans ctx.text s₀.lead (.typeAlias decl) c' ∧ s.pos < c' := by
  refine .bind (advance_token "typealias" (matchesAt_of_wordAt hword) (by decide))
    fun _ s₁ c₁ h₁ _ => expectName_yields.bind fun name s₂ c₂ h₂ hname => ?_
  obtain ⟨hname, -⟩ := hname
  rw [show name.span.stop = c₂ from hname.stop_eq]
  refine (hg.typeParameters hname.tokenEnd).bind fun typeParams s₃ c₃ h₃ htypes =>
    (expect_yields (by decide)).bind fun _ s₄ c₄ h₄ _ =>
      (hg.type s₄ c₄).bind fun aliased s₅ c₅ _ haliased => .pure ⟨hled.spans s₁.pos c₅ ?_ rfl ?_ ?_
        (Int.le_refl _) ?_ haliased.tokenEnd, ?_⟩
  all_goals
    have hle₁ := h₁.pos_le
    have hlt₂ := hname.lt
    have hle₃ := htypes.1.le
    have hle₃' := h₃.stands.le_pos
    have hle₄ := h₄.pos_le
    have hlt₅ := haliased.lt
  · show Span.mk _ _ = _
    rw [show aliased.span.stop = c₅ from haliased.stop_eq]
  · have hall := hname.cons (htypes.1.snoc haliased (by omega))
    simpa [nodesOf] using hall
  all_goals omega

/-! ### Declarations -/

theorem failDeclaration_yields {Q : Declaration → State → Nat → Prop} :
    failDeclaration.Yields ctx s c Q := by
  refine .look peek_looks (.look atEnd_looks (.ite (fun _ => failExpected_yields) fun _ =>
    .ite (fun _ => .idle here_idle fun _ => failWith_yields rfl) fun _ =>
      .idle describeCurrent_idle fun _ => .idle here_idle fun _ => failWith_yields rfl))

/-- A declaration lies from its lead to the end of its last token. -/
theorem Places.declarationRule (hg : g.Places ctx) :
    g.declarationRule.Yields ctx s c fun decl _ c' =>
      Spans ctx.text s.lead (.ofDeclaration decl) c' ∧ s.pos < c' := by
  refine hg.preamble.bind fun before s₁ c₁ h₁ hbefore => ?_
  have hle₁ := h₁.pos_le
  have hled := hbefore.1
  have hle := Nat.le_refl s₁.pos
  refine .mono (P := fun decl _ c' => Spans ctx.text s.lead (.ofDeclaration decl) c' ∧ s₁.pos < c')
    ?_ fun _ _ _ _ h => ⟨h.1, Nat.lt_of_le_of_lt hle₁ h.2⟩
  refine .look (atWord_looks _) (.ite (fun hword =>
    (moduleClauseRule_yields hled hle hword).bind fun _ _ _ _ h => .pure h) fun _ => ?_)
  refine .look (atWord_looks _) (.ite (fun hword =>
    (hg.importRule hled hle hword).bind fun _ _ _ _ h => .pure h) fun _ => ?_)
  refine .look (atWord_looks _) (.ite (fun hword =>
    (hg.extendsRule hled hle hword).bind fun _ _ _ _ h => .pure h) fun _ => ?_)
  refine .look (atWord_looks _) (.ite (fun hword =>
    (hg.amendsRule hled hle hword).bind fun _ _ _ _ h => .pure h) fun _ => ?_)
  refine .look (atWord_looks _) (.ite (fun hword =>
    (hg.typeAliasRule hled hle hword).bind fun _ _ _ _ h => .pure h) fun _ => ?_)
  refine .look (atWord_looks _) (.ite (fun hword =>
    (hg.classRule hled hle hword).bind fun _ _ _ _ h => .pure h) fun _ => ?_)
  refine .look (atWord_looks _) (.ite (fun hword =>
    (hg.functionRule hled hle hword).bind fun _ _ _ _ h => .pure h) fun _ => ?_)
  exact .look atIdentifier_looks (.ite (fun _ =>
    (hg.propertyRule hled hle).bind fun _ _ _ _ h => .pure h) fun _ => failDeclaration_yields)

end Grammar

end PklSyntax
