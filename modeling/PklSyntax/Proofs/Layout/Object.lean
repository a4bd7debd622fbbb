import PklSyntax.Grammar.Nesting
import PklSyntax.Proofs.Layout.Declaration

/-!
# How object bodies lie in the text

The members of an object body follow one another between the braces. Whether a member is a property
is found by reading ahead, and what was read ahead leaves nothing behind.

With object bodies the rules of the grammar are complete, so that grammars place what they read
whatever depth of nesting they admit.

## Main statements

* `Grammar.Places.propertyMember?`: a property or a function, or nothing has been read.
* `Grammar.Places.objectMember`, `Grammar.Places.bodyRule`: members and bodies.
* `Grammar.places_full`: the grammar in which texts are read places what it reads.
-/

namespace PklSyntax

namespace Grammar

open PklSyntax.Parser

variable {g : Grammar} {ctx : Context} {s : State} {c : Nat}

/-! ### Entries and elements -/

theorem Places.entryValue (hg : g.Places ctx) :
    g.entryValue.Yields ctx s c fun value _ c' =>
      Placed ctx.text s.pos (.ofEntryValue value) c' := by
  refine atAssign_yields.bind fun assign s₁ c₁ h₁ hassign => ?_
  have hle₁ := h₁.pos_le
  cases assign with
  | true =>
    have hmatch := (Bool.and_eq_true _ _ ▸ hassign.2.symm :
      matchesAt ctx.text "=" s₁.pos = true ∧ _).1
    refine .bind (advance_token "=" hmatch (by decide)) fun _ s₂ c₂ h₂ _ =>
      (hg.expr s₂ c₂).bind fun value s₃ c₃ _ hvalue => .pure (hvalue.mono ?_)
    have hle₂ := h₂.pos_le
    omega
  | false =>
    refine (atToken_yields "\x7b").bind fun found s₂ c₂ h₂ _ => ?_
    have hle₂ := h₂.pos_le
    exact .ite (fun _ => hg.objectForm.bind fun form s₃ c₃ _ hform => .pure (hform.mono (by omega)))
      fun _ => failExpected_yields

theorem span_ofEntryValue (value : EntryValue) : (Node.ofEntryValue value).span = value.span := by
  cases value <;> rfl

/-- An entry that begins with a token of its own, and whose key is followed by another one. -/
theorem Places.entry (hg : g.Places ctx) {opening close : String}
    (hopening : matchesAt ctx.text opening s.pos = true)
    (hopens : opening.toList.head?.any opensToken = true) (hclose : close ≠ "")
    {member : Expr → EntryValue → Span → ObjectMember}
    (hspan : ∀ key value span, (Node.ofObjectMember (member key value span)).span = span)
    (hchildren : ∀ key value span, (Node.ofObjectMember (member key value span)).children =
      [.expr key, .ofEntryValue value]) :
    (do
      let start ← position
      advance opening.length
      let key ← g.expr
      let _ ← expect close
      let value ← g.entryValue
      return member key value ⟨start, value.span.stop⟩ : Parser ObjectMember).Yields ctx s c
      fun member _ c' => Placed ctx.text s.pos (.ofObjectMember member) c' := by
  refine .look position_looks (.bind (advance_token opening hopening hopens) fun _ s₁ c₁ h₁ _ =>
    (hg.expr s₁ c₁).bind fun key s₂ c₂ h₂ hkey => (expect_yields hclose).bind fun _ s₃ c₃ h₃ _ =>
      hg.entryValue.bind fun value s₄ c₄ _ hvalue => .pure ?_)
  have hle₁ := h₁.pos_le
  have hle₂ := h₂.stands.le_pos
  have hle₃ := h₃.pos_le
  have hlt₂ := hkey.lt
  have hlt₄ := hvalue.lt
  refine .of_row s.pos s₁.pos c₄ ?_ ?_ (by omega) (Int.le_refl _) (by omega) hvalue.tokenEnd
  · rw [hspan, show value.span.stop = c₄ from span_ofEntryValue value ▸ hvalue.stop_eq]
  · rw [hchildren]
    exact hkey.cons (hvalue.mono (by omega)).row

theorem Places.mappingEntry (hg : g.Places ctx) (hopening : matchesAt ctx.text "[" s.pos = true) :
    g.mappingEntry.Yields ctx s c fun member _ c' =>
      Placed ctx.text s.pos (.ofObjectMember member) c' :=
  hg.entry hopening (by decide) (by decide) (fun _ _ _ => rfl) fun _ _ _ => rfl

theorem Places.predicateEntry (hg : g.Places ctx)
    (hopening : matchesAt ctx.text "[[" s.pos = true) :
    g.predicateEntry.Yields ctx s c fun member _ c' =>
      Placed ctx.text s.pos (.ofObjectMember member) c' :=
  hg.entry hopening (by decide) (by decide) (fun _ _ _ => rfl) fun _ _ _ => rfl

theorem Places.spread (hg : g.Places ctx) (hdots : matchesAt ctx.text "..." s.pos = true) :
    g.spread.Yields ctx s c fun member _ c' =>
      Placed ctx.text s.pos (.ofObjectMember member) c' := by
  refine .look position_looks (.bind (advance_token "..." hdots (by decide)) fun _ s₁ c₁ h₁ _ =>
    .look peek_looks ?_)
  dsimp only
  refine .option (P := fun _ _ _ => True) () (fun hmark => ?_) (fun _ => trivial)
    fun _ s₂ c₂ h₂ _ => (hg.expr s₂ c₂).bind fun e s₃ c₃ _ he => .pure ?_
  · rw [beq_iff_eq] at hmark
    exact (advance_sign (by rw [hmark]; decide)).mono fun _ _ _ _ _ => trivial
  · have hle₁ := h₁.pos_le
    have hle₂ := h₂.pos_le
    have hlt := he.lt
    refine .of_row s.pos s₂.pos c₃ ?_ he.row (by omega) (Int.le_refl _) (by omega) he.tokenEnd
    show Span.mk _ _ = _
    rw [show e.span.stop = c₃ from he.stop_eq]

theorem Places.fieldAmend (hg : g.Places ctx) (hopen : matchesAt ctx.text "(" s.pos = true) :
    g.fieldAmend.Yields ctx s c fun member _ c' =>
      Placed ctx.text s.pos (.ofObjectMember member) c' := by
  refine .look position_looks (.bind (advance_token "(" hopen (by decide)) fun _ s₁ c₁ h₁ _ =>
    (expectKeyword_yields (by decide)).bind fun _ s₂ c₂ h₂ _ =>
      (expect_yields (by decide)).bind fun _ s₃ c₃ h₃ _ =>
        (hg.expr s₃ c₃).bind fun index s₄ c₄ h₄ hindex =>
          (expect_yields (by decide)).bind fun _ s₅ c₅ h₅ _ =>
            (expect_yields (by decide)).bind fun _ s₆ c₆ h₆ _ =>
              (hg.body s₆ c₆).bind fun body s₇ c₇ _ hbody => .pure ?_)
  have hle₁ := h₁.pos_le
  have hle₂ := h₂.pos_le
  have hle₃ := h₃.pos_le
  have hle₄ := h₄.stands.le_pos
  have hle₅ := h₅.pos_le
  have hle₆ := h₆.pos_le
  have hlt₄ := hindex.lt
  have hlt₇ := hbody.lt
  refine .of_row s.pos s₃.pos c₇ ?_ ?_ (by omega) (Int.le_refl _) (by omega) hbody.tokenEnd
  · show Span.mk _ _ = _
    rw [show body.span.stop = c₇ from hbody.stop_eq]
  · exact hindex.cons (hbody.mono (by omega)).row

/-! ### Generators -/

theorem Places.whenGenerator (hg : g.Places ctx) (hword : wordAt ctx.text "when" s.pos = true) :
    g.whenGenerator.Yields ctx s c fun member _ c' =>
      Placed ctx.text s.pos (.ofObjectMember member) c' := by
  refine .look position_looks (.bind (advance_token "when" (matchesAt_of_wordAt hword) (by decide))
    fun _ s₁ c₁ h₁ _ => (expect_yields (by decide)).bind fun _ s₂ c₂ h₂ _ =>
      (hg.expr s₂ c₂).bind fun condition s₃ c₃ h₃ hcondition =>
        (expect_yields (by decide)).bind fun _ s₄ c₄ h₄ _ =>
          (hg.body s₄ c₄).bind fun thenBody s₅ c₅ h₅ hthen =>
            tail_yields (eq_of_acceptKeyword (by decide)) hg.body
              fun elseBody? s₆ c₆ h₆ helse => .pure ?_)
  have hle₁ := h₁.pos_le
  have hle₂ := h₂.pos_le
  have hle₃ := h₃.stands.le_pos
  have hle₄ := h₄.pos_le
  have hlt₃ := hcondition.lt
  have hlt₅ := hthen.lt
  have hle₆ := helse.le
  have hstop : thenBody.span.stop = c₅ := hthen.stop_eq
  refine .of_row s.pos s₂.pos c₆ ?_ ?_ (by omega) (Int.le_refl _) (by omega)
    (helse.tokenEnd hthen.tokenEnd)
  · show Span.mk _ _ = _
    have hstop₆ := helse.stop_eq
    cases elseBody? with
    | none => exact congrArg (Span.mk _) (hstop.trans hstop₆)
    | some elseBody => exact congrArg (Span.mk _) hstop₆
  · have hall := hcondition.cons ((hthen.mono (by omega)).cons helse.row)
    simpa [Node.children, Node.fields, Node.ofObjectMember, ObjectMember.fields] using hall

theorem loopNames_yields :
    loopNames.Yields ctx s c fun names s' _ => Row s.pos (names.map Node.identifier) s'.pos := by
  refine expectName_yields.bind fun first s₁ c₁ _ hfirst =>
    (accept_yields (by decide)).bind fun comma s₂ c₂ h₂ _ => ?_
  obtain ⟨hfirst, hpos⟩ := hfirst
  have hle₂ := h₂.pos_le
  refine .ite (fun _ => expectName_yields.bind fun second s₃ c₃ _ hsecond => .pure ?_) fun _ => .pure ?_
  · exact hfirst.cons ((hsecond.1.row.mono (by omega) (by omega)))
  · exact hfirst.row.mono (Int.le_refl _) (by omega)

theorem Places.forGenerator (hg : g.Places ctx) (hword : wordAt ctx.text "for" s.pos = true) :
    g.forGenerator.Yields ctx s c fun member _ c' =>
      Placed ctx.text s.pos (.ofObjectMember member) c' := by
  refine .look position_looks (.bind (advance_token "for" (matchesAt_of_wordAt hword) (by decide))
    fun _ s₁ c₁ h₁ _ => (expect_yields (by decide)).bind fun _ s₂ c₂ h₂ _ =>
      loopNames_yields.bind fun names s₃ c₃ h₃ hnames =>
        (expectKeyword_yields (by decide)).bind fun _ s₄ c₄ h₄ _ =>
          (hg.expr s₄ c₄).bind fun iterable s₅ c₅ h₅ hiterable =>
            (expect_yields (by decide)).bind fun _ s₆ c₆ h₆ _ =>
              (hg.body s₆ c₆).bind fun body s₇ c₇ _ hbody => .pure ?_)
  have hle₁ := h₁.pos_le
  have hle₂ := h₂.pos_le
  have hle₃ := hnames.le
  have hle₄ := h₄.pos_le
  have hle₅ := h₅.stands.le_pos
  have hle₆ := h₆.pos_le
  have hlt₅ := hiterable.lt
  have hlt₇ := hbody.lt
  refine .of_row s.pos s₂.pos c₇ ?_ ?_ (by omega) (Int.le_refl _) (by omega) hbody.tokenEnd
  · show Span.mk _ _ = _
    rw [show body.span.stop = c₇ from hbody.stop_eq]
  · have hall := hnames.append ((hiterable.mono (by omega)).cons (hbody.mono (by omega)).row)
    simpa [Node.children, Node.fields, Node.ofObjectMember, ObjectMember.fields] using hall

/-! ### Reading ahead -/

theorem propertyName?_yields : propertyName?.Yields ctx s c fun _ _ _ => True :=
  (attempt_yields identifier?_yields).bind fun _ _ _ _ _ => .pure trivial

/-- What is found by reading ahead for the name of a property leaves nothing behind. -/
theorem atPropertyHead_yields : atPropertyHead.Yields ctx s c fun _ s' c' => s' = s ∧ c' = c := by
  refine fun hs => .look mark_looks (.bind propertyName?_yields (.refl hs)
    fun name? s₁ c₁ _ h₁ _ => ?_)
  cases name? with
  | none => exact .rewind h₁ (.pure (.refl hs) ⟨rfl, rfl⟩)
  | some name =>
    exact .bind skip_yields h₁ fun _ s₂ c₂ _ h₂ _ => .look peek_looks (.look (peekAt_looks 1)
      (.rewind h₂ (.pure (.refl hs) ⟨rfl, rfl⟩)))

/-- What is found by reading ahead for the amendment of an element leaves nothing behind. -/
theorem atFieldAmend_yields :
    atFieldAmend.Yields ctx s c fun found s' c' =>
      s' = s ∧ c' = c ∧ (found = true → matchesAt ctx.text "(" s.pos = true) := by
  refine .look (startsWith_looks _) ?_
  cases hopen : matchesAt ctx.text "(" s.pos with
  | false => exact .pure ⟨rfl, rfl, nofun⟩
  | true =>
    refine fun hs => .look mark_looks (.bind (advance_token "(" hopen (by decide)) (.refl hs)
      fun _ s₁ c₁ _ h₁ _ => .bind (acceptKeyword_yields (by decide)) h₁
        fun found s₂ c₂ _ h₂ _ => ?_)
    have hdone : ∀ {s₃ c₃} (found : Bool), Onward ctx.text s c s₃ c₃ →
        (do rewind s.checkpoint; return found : Parser Bool).EndsFrom ctx s c s₃ fun found s' c' =>
          s' = s ∧ c' = c ∧ (found = true → true = true) :=
      fun found h => .rewind h (.pure (.refl hs) ⟨rfl, rfl, fun _ => rfl⟩)
    cases found with
    | true => exact .bind (atToken_yields "[") h₂ fun found s₃ c₃ _ h₃ _ => hdone found h₃
    | false => exact hdone false h₂

/-! ### Members -/

/-- A property or a function, or nothing has been read. -/
theorem Places.propertyMember? (hg : g.Places ctx) :
    g.propertyMember?.Yields ctx s c fun member? s' c' =>
      match member? with
      | some member => Spans ctx.text s.lead (.ofObjectMember member) c' ∧ s.pos < c'
      | none => s' = s ∧ c' = c := by
  refine fun hs => .look mark_looks (.bind hg.preamble (.refl hs) fun before s₁ c₁ _ h₁ hbefore => ?_)
  have hled := hbefore.1
  have hle := Nat.le_refl s₁.pos
  have hle₁ := h₁.pos_le
  refine .look (atWord_looks _) ?_
  split
  · rename_i hword
    exact .bind (hg.functionRule hled hle hword) h₁ fun decl s₂ c₂ _ h₂ hdecl =>
      .pure h₂ ⟨hdecl.1, Nat.lt_of_le_of_lt hle₁ hdecl.2⟩
  · refine .bind atPropertyHead_yields h₁ fun head s₂ c₂ _ h₂ hhead => ?_
    obtain ⟨rfl, rfl⟩ := hhead
    split
    · exact .bind (hg.propertyRule hled hle) h₁ fun decl s₃ c₃ _ h₃ hdecl =>
        .pure h₃ ⟨hdecl.1, Nat.lt_of_le_of_lt hle₁ hdecl.2⟩
    · exact .rewind h₂ (.pure (.refl hs) ⟨rfl, rfl⟩)

theorem Places.namedMember (hg : g.Places ctx) :
    g.namedMember.Yields ctx s c fun member _ c' =>
      Placed ctx.text c (.ofObjectMember member) c' ∧ s.pos < c' := by
  refine .of_stands fun hs => hg.propertyMember?.bind fun member? s₁ c₁ h₁ hmember => ?_
  cases member? with
  | some member => exact .pure ⟨hmember.1.placed.mono hs.row_pending.1, hmember.2⟩
  | none =>
    obtain ⟨rfl, rfl⟩ := hmember
    refine (hg.expr s₁ c₁).bind fun e s₂ c₂ _ he => .pure ?_
    have hpos := hs.le_pos
    have hlt := he.lt
    have hstop : e.span.stop = c₂ := he.stop_eq
    refine ⟨.mono (.of_row e.span.start e.span.start c₂ ?_ ?_ (Int.le_refl _) (Int.le_refl _) ?_
      he.tokenEnd) (Int.le_trans (Int.ofNat_le.2 hpos) he.le_start), by omega⟩
    · show e.span = _
      rw [← hstop]
    · exact .cons (Int.le_refl _) he.sound (.nil (Int.le_of_eq hstop))
    · rw [← hstop]
      exact he.sound.start_lt_stop

theorem Places.objectMember (hg : g.Places ctx) :
    g.objectMember.Yields ctx s c fun member _ c' =>
      Placed ctx.text c (.ofObjectMember member) c' ∧ s.pos < c' := by
  refine .of_stands fun hs => ?_
  have hpos := hs.le_pos
  -- A member that begins at the cursor.
  have hhere : ∀ {p : Parser ObjectMember},
      (p.Yields ctx s c fun member _ c' => Placed ctx.text s.pos (.ofObjectMember member) c') →
      p.Yields ctx s c fun member _ c' =>
        Placed ctx.text c (.ofObjectMember member) c' ∧ s.pos < c' :=
    fun hp => hp.mono fun _ _ _ _ h => ⟨h.mono (by omega), Int.ofNat_lt.1 h.lt⟩
  refine .look (startsWith_looks _) (.ite (fun h => hhere (hg.predicateEntry h)) fun _ => ?_)
  refine .look (startsWith_looks _) (.ite (fun h => hhere (hg.mappingEntry h)) fun _ => ?_)
  refine .look (startsWith_looks _) (.ite (fun h => hhere (hg.spread h)) fun _ => ?_)
  refine atFieldAmend_yields.bind fun found s₁ c₁ _ hfound => ?_
  obtain ⟨rfl, rfl, hopen⟩ := hfound
  refine .ite (fun h => hhere (hg.fieldAmend (hopen h))) fun _ => ?_
  refine .look (atWord_looks _) (.ite (fun h => hhere (hg.whenGenerator h)) fun _ => ?_)
  exact .look (atWord_looks _) (.ite (fun h => hhere (hg.forGenerator h)) fun _ => hg.namedMember)

/-- The members up to the closing brace, which is read too. -/
theorem Places.objectMembers (hg : g.Places ctx) {opening : Span} :
    (g.objectMembers opening).Yields ctx s c fun members s' c' =>
      Row c (members.toList.map Node.ofObjectMember) c' ∧ TokenEnd ctx.text c' ∧ s'.pos = c' ∧
        s.pos < c' := by
  refine .of_stands fun hs => ?_
  have hpos := hs.le_pos
  refine .repeating (fun members _ c' => Row c (members.toList.map Node.ofObjectMember) c')
    (.nil (Int.le_refl _)) fun members s₁ c₁ h₁ hmembers => skip_yields.bind fun _ s₂ c₂ h₂ hskip => ?_
  obtain rfl := hskip.eq
  have hle₁ := h₁.pos_le
  have hle₂ := h₂.pos_le
  have hpos₂ := h₂.stands.le_pos
  refine .look peek_looks (.look atEnd_looks (.ite (fun _ => failWith_yields rfl) fun _ => ?_))
  refine .ite (fun hclose => ?_) fun _ => .ite (fun hsemicolon => ?_) fun _ => ?_
  · rw [beq_iff_eq] at hclose
    refine (advance_sign (by rw [hclose]; decide)).bind fun _ s₃ c₃ _ hadv => .pure ?_
    obtain ⟨rfl, rfl⟩ := hadv
    exact ⟨hmembers.mono (Int.le_refl _) (by omega),
      tokenEnd_of_sign hclose (by decide) (by decide), rfl, by omega⟩
  · rw [beq_iff_eq] at hsemicolon
    refine (advance_sign (by rw [hsemicolon]; decide)).bind fun _ s₃ c₃ _ hadv => .pure ?_
    obtain ⟨rfl, rfl⟩ := hadv
    exact ⟨by simp only; omega, hmembers.mono (Int.le_refl _) (by omega)⟩
  · refine hg.objectMember.bind fun member s₃ c₃ h₃ hmember => .pure ?_
    have hpos₃ := h₃.stands.le_pos
    exact ⟨by omega, hmembers.push hmember.1 (Int.le_refl _)⟩

theorem Places.bodyRule (hg : g.Places ctx) :
    g.bodyRule.Yields ctx s c fun body _ c' => Placed ctx.text s.pos (.objectBody body) c' := by
  refine (expect_yields (by decide)).bind fun opening s₁ c₁ _ hopening => ?_
  refine .bind (P := fun members s' c' => Row c₁ (members.toList.map Node.ofObjectMember) c' ∧
      TokenEnd ctx.text c' ∧ s'.pos = c' ∧ s₁.pos < c')
    (inMode_yields nofun hg.objectMembers) fun members s₂ c₂ _ hmembers =>
      .look position_looks (.pure ?_)
  obtain ⟨hrow, hend, hpos, hlt⟩ := hmembers
  obtain ⟨⟨start, hle, rfl, -, hstop⟩, hpos₁⟩ := hopening
  refine .mono (.of_row start c₁ c₂ ?_ ?_ (by omega) (Int.le_refl _) (by omega) hend)
    (Int.ofNat_le.2 hle)
  · rw [← hpos]
    rfl
  · simpa [Node.children, Node.fields, ObjectBody.fields] using hrow

/-! ### Grammars -/

/-- A grammar places what it reads, whatever depth of nesting it admits. -/
theorem places_nested (ctx : Context) (depth : Nat) : (nested depth).Places ctx := by
  induction depth with
  | zero =>
    exact ⟨fun _ _ => throw_tooDeep_yields, fun _ _ => throw_tooDeep_yields,
      fun _ _ => throw_tooDeep_yields⟩
  | succ depth ih =>
    exact ⟨fun _ _ => ih.expressionRule, fun _ _ => ih.typeRule, fun _ _ => ih.bodyRule⟩

/-- The grammar in which texts are read places what it reads. -/
theorem places_full (ctx : Context) : full.Places ctx := places_nested ctx nestingLimit

end Grammar

end PklSyntax
