import PklSyntax.Proofs.Documentation.Reading
import PklSyntax.Proofs.Growth.ClassBody
import PklSyntax.Proofs.Moving.Between

/-!
# Documentation of members

The members of a body are read one after the other, and between two of them the parse is *between*
items: it stands where the last token ended, and the doc comments that were taken lie in front of
that. So the doc comment that waits in front of a member is the last one of the trivia behind the
token in front of it.

Whatever has been read before, a construct that reads a token leaves the parse between items again.
That is known from the comparison of the text with itself.

## Main definitions

* `EndsItem`: the parse is between items, and the last one of them has a given span.

## Main statements

* `Between.documented`: what begins behind trivia is documented by them.
* `Parser.Mirrors.endsItem`: a construct leaves the parse between items.
* `Grammar.objectMember_read`: a member of an object, with its documentation.
* `Grammar.bodyRule_documented`: the members of an object are documented.
-/

namespace PklSyntax

open PklSyntax.Parser

variable {text : Array Char} {ctx : Context} {s s' : State} {c c' i j : Nat} {item : Documentable}

/-! ### Between items -/

/-- A comment that is left open reaches to the end of the text. -/
theorem TriviaItems.closed {docs : List DocComment} {unclosed : Option Nat}
    (h : TriviaItems text i j docs unclosed) (hlt : j < text.size) : unclosed = none := by
  induction h with
  | nil => rfl
  | blank _ _ _ ih => exact ih hlt
  | lineComment _ _ _ _ ih => exact ih hlt
  | docBlock _ _ ih => exact ih hlt
  | blockComment _ _ _ _ _ ih => exact ih hlt
  | unclosed => exact absurd hlt (Nat.lt_irrefl _)

/-- Behind the trivia that are skipped no others begin. -/
theorem Between.noTrivia (h : Between text s c) :
    triviaAt? text (s.skipTrivia text).pos = none := by
  rw [h.skipTrivia.2.1]
  exact triviaAt?_skipEnd c

/-- What begins behind the trivia is documented by them. -/
theorem Between.documented (h : Between text s c) (hlt : (s.skipTrivia text).pos < text.size)
    (hread : item.ReadAt text (s.skipTrivia text)) : item.DocumentedFrom text c := by
  obtain ⟨h', hpos, hend⟩ := h.skipTrivia
  obtain ⟨unclosed, hitems, -⟩ := exists_triviaItems text c
  rw [← hpos] at hitems
  obtain rfl := hitems.closed hlt
  exact ⟨_, docsFrom text c, hitems, noTrivia_iff.2 h.noTrivia, hread.begins,
    hread.doc_eq.trans (h'.pending hend)⟩

/-- All doc comments that were found lie in front of the cursor. -/
theorem Steady.docEndsBy (h : Steady ctx s) (i : Nat) : s.DocEndsBy i s.pos := by
  intro doc hdoc
  rw [← Array.getElem?_toList] at hdoc
  exact h.docs_le doc (List.mem_of_getElem? hdoc)

/-- Directly behind a token a steady parse is between items. -/
theorem SteadyLoose.between (h : SteadyLoose ctx s) (hfresh : Stands ctx.text s c)
    (hpos : s.pos = c) : Between ctx.text s c where
  stands := hfresh
  mode_eq := h.mode_eq
  attached i _ := hpos ▸ h.docEndsBy i

/-- Something has been read that may end an item, so that the parse is between items again. -/
theorem SteadyLoose.passes (h : SteadyLoose ctx s) (hpass : Passes ctx.text true s c s' c')
    (hlt : c < c') : Between ctx.text s' c' where
  stands := hpass.onward.stands
  mode_eq := hpass.onward.mode_eq.trans h.mode_eq
  attached i hi := by
    rcases hpass.taken i hi with hi' | hends
    · exact (h.docEndsBy i).mono (hpass.onward.start.attached_lt i hi') hpass.onward.docs
        (Nat.le_of_lt (hpass.reach hlt))
    · exact hends

/-- The parse is between items, and the last one of them has the span. -/
def EndsItem (text : Array Char) (span : Span) (s : State) : Prop :=
  ∃ c : Nat, Between text s c ∧ span.stop = c

namespace Parser

variable {α : Type} [Movable α]

/-- What is compared with itself leaves the parse between items when it reads a token. -/
theorem Mirrors.leaves {p q : Parser α} [Upkept p] {Q : α → State → Nat → Prop}
    (h : ∀ c, Mirrors (.self ctx) .loose true (fun _ => true) p q s c s fun a s' c' =>
      c < c' ∧ Q a s' c') :
    p.Leaves SteadyLoose ctx s fun a s' => ∃ c', Between ctx.text s' c' ∧ Q a s' c' := by
  apply Leaves.of_run
  intro hs a s' hrun
  obtain ⟨c, hc⟩ := hs.stands
  have hmirror := h c ⟨Nat.zero_le c, hc, hs.mode_eq, hs.mode_eq⟩
  rw [show (Overlap.self ctx).left = ctx from rfl, hrun] at hmirror
  obtain ⟨c', hpass, ⟨hlt, hQ⟩, -⟩ := hmirror
  exact ⟨c', hs.passes hpass hlt, hQ⟩

theorem Mirrors.endsItem {p q : Parser α} [Upkept p] {span : α → Span}
    (h : ∀ c, Mirrors (.self ctx) .loose true (fun _ => true) p q s c s fun a _ c' =>
      ReadTo (span a) c c') :
    p.Leaves SteadyLoose ctx s fun a s' => EndsItem ctx.text (span a) s' :=
  Mirrors.leaves fun c => (h c).mono fun _ _ _ _ hread => ⟨hread.lt, hread.stop_eq⟩

end Parser

/-- The brace that opens a body is the last token. -/
theorem Parser.openingBrace_leaves :
    (expect "\x7b").Leaves Steady ctx s fun opening s' => ∃ i : Nat,
      TriviaTo ctx.text s.pos i ∧ charAt ctx.text i = '\x7b' ∧ opening.start = i ∧
        s'.pos = i + 1 ∧ Stands ctx.text s' (i + 1) := by
  apply Leaves.of_run
  intro hs opening s' hrun
  obtain ⟨-, i, htrivia, hmatch, hstart, hpos⟩ := (expect_at (by decide)).of_ok trivial hrun
  obtain ⟨c, hc⟩ := hs.stands
  have hyields := (expect_yields (by decide) : (expect "\x7b").Yields ctx s c _) hc
  rw [EndsFrom, hrun] at hyields
  obtain ⟨c', hon, -, hc'⟩ := hyields
  obtain rfl : c' = i + 1 := hc'.symm.trans hpos
  exact ⟨i, htrivia, charAt_of_matchesAt (n := 0) hmatch (by decide), hstart, hpos, hon.stands⟩

/-- Where no keyword is found the parse stays between items. -/
theorem Parser.acceptKeyword_ends {word : String} {span : Span} (hword : isName word = true)
    (h : EndsItem ctx.text span s) :
    (acceptKeyword word).Leaves SteadyLoose ctx s fun found s' =>
      found = false → EndsItem ctx.text span s' := by
  apply Leaves.of_run
  rintro - found s' hrun rfl
  obtain ⟨c, hc, hstop⟩ := h
  have hmirror := acceptKeyword_mirrors (W := .self ctx) hword (fun hw => Bool.noConfusion hw)
    (Overlap.linked_self hc)
  rw [show (Overlap.self ctx).left = ctx from rfl, hrun] at hmirror
  obtain ⟨c', hpass, hskip, -⟩ := hmirror
  obtain rfl : c' = c := hskip.eq
  exact ⟨c', hc.passes hpass, hstop⟩

/-- A member has been read: what can be documented begins at the cursor of the state from which it
was read, and behind it the parse is between items. -/
structure MemberRead (text : Array Char) (s : State) (item? : Option Documentable) (span : Span)
    (s' : State) : Prop where
  readAt : ∀ item ∈ item?, item.ReadAt text s
  ends : EndsItem text span s'

theorem MemberRead.of_ends {span : Span} (h : EndsItem text span s') :
    MemberRead text s none span s' :=
  ⟨by simp, h⟩

namespace Grammar

variable {g : Grammar} [g.Upkept] {opening : Span} {s₀ : State}

/-! ### Members of objects -/

section Members

variable (hg : g.Mirrored (.self ctx))

include hg

theorem expr_ends :
    g.expr.Leaves SteadyLoose ctx s fun e s' => EndsItem ctx.text e.span s' :=
  Mirrors.endsItem fun c => hg.expr s c s

theorem body_ends :
    g.body.Leaves SteadyLoose ctx s fun body s' => EndsItem ctx.text body.span s' :=
  Mirrors.endsItem fun c => hg.body s c s

theorem entryValue_ends :
    g.entryValue.Leaves SteadyLoose ctx s fun value s' => EndsItem ctx.text value.span s' :=
  Mirrors.endsItem fun _ => hg.entryValue

theorem mappingEntry_read :
    g.mappingEntry.Leaves SteadyLoose ctx s fun member s' =>
      MemberRead ctx.text s₀ member.documentable? member.span s' :=
  .after fun _ _ => .after fun _ _ => .after fun _ _ => .after fun _ _ =>
    (entryValue_ends hg).bind fun _ _ hends => .pure (.of_ends hends)

theorem predicateEntry_read :
    g.predicateEntry.Leaves SteadyLoose ctx s fun member s' =>
      MemberRead ctx.text s₀ member.documentable? member.span s' :=
  .after fun _ _ => .after fun _ _ => .after fun _ _ => .after fun _ _ =>
    (entryValue_ends hg).bind fun _ _ hends => .pure (.of_ends hends)

theorem spread_read :
    g.spread.Leaves SteadyLoose ctx s fun member s' =>
      MemberRead ctx.text s₀ member.documentable? member.span s' :=
  .after fun _ _ => .after fun _ _ => .after fun _ _ => .option () fun _ _ =>
    (expr_ends hg).bind fun _ _ hends => .pure (.of_ends hends)

theorem fieldAmend_read :
    g.fieldAmend.Leaves SteadyLoose ctx s fun member s' =>
      MemberRead ctx.text s₀ member.documentable? member.span s' :=
  .after fun _ _ => .after fun _ _ => .after fun _ _ => .after fun _ _ => .after fun _ _ =>
    .after fun _ _ => .after fun _ _ => (body_ends hg).bind fun _ _ hends =>
      .pure (.of_ends hends)

theorem whenGenerator_read :
    g.whenGenerator.Leaves SteadyLoose ctx s fun member s' =>
      MemberRead ctx.text s₀ member.documentable? member.span s' := by
  refine .after fun _ _ => .after fun _ _ => .after fun _ _ => .after fun _ _ => .after fun _ _ =>
    (body_ends hg).bind fun thenBody _ hthen => (acceptKeyword_ends (by decide) hthen).bind
      fun found s₁ hfound => .branch (P := fun elseBody? s' =>
        EndsItem ctx.text (elseBody?.getD thenBody).span s') ?_ ?_ ?_
  · intro _
    exact (body_ends hg).map
  · intro hnot
    exact .pure (hfound (by simpa using hnot))
  · intro elseBody? _ hends
    exact .pure (.of_ends hends)

theorem forGenerator_read :
    g.forGenerator.Leaves SteadyLoose ctx s fun member s' =>
      MemberRead ctx.text s₀ member.documentable? member.span s' :=
  .after fun _ _ => .after fun _ _ => .after fun _ _ => .after fun _ _ => .after fun _ _ =>
    .after fun _ _ => .after fun _ _ => (body_ends hg).bind fun _ _ hends =>
      .pure (.of_ends hends)

theorem functionRule_ends {before : Preamble} (hword : wordAt ctx.text "function" s.pos = true) :
    (g.functionRule before).Leaves SteadyLoose ctx s fun decl s' =>
      EndsItem ctx.text decl.span s' :=
  Mirrors.endsItem fun _ => (hg.functionRule hword).mono fun _ _ _ _ h => h.1

theorem propertyRule_ends {before : Preamble} :
    (g.propertyRule before).Leaves SteadyLoose ctx s fun decl s' =>
      EndsItem ctx.text decl.span s' :=
  Mirrors.endsItem fun _ => hg.propertyRule.mono fun _ _ _ _ h => h.1.1

theorem propertyMember?_ends :
    g.propertyMember?.Leaves SteadyLoose ctx s fun member? s' =>
      ∀ member ∈ member?, EndsItem ctx.text member.span s' := by
  have hgrows := (Grammar.Upkept.upholds (g := g) (Upkeep.steady ctx)).grows
  refine .of_holds fun hs => .look mark_looks (.bind (.of_run fun _ _ _ hrun => hrun) ?_)
  intro before s₁ hrun
  have hkept := (hgrows.preamble.of_ok hrun).1.toKept
  refine .look (atWord_looks _) (.ite (fun hword => ?_) fun _ => .bind
    (.of_run fun _ _ _ hrun => hrun) fun found s₂ hfound => .ite (fun _ => ?_) fun _ => ?_)
  · apply (functionRule_ends hg hword).bind
    intro decl _ hends
    apply Leaves.pure
    simpa [ObjectMember.span] using hends
  · apply (propertyRule_ends hg).bind
    intro decl _ hends
    apply Leaves.pure
    simpa [ObjectMember.span] using hends
  · have hback := (hkept.trans (atPropertyHead_grows.of_ok hfound).1.toKept).rewind
    exact .rewind hback hs (.pure (by simp))

/-- A property, a function or an element. -/
theorem namedMember_read (hnone : triviaAt? ctx.text s.pos = none) :
    g.namedMember.Leaves SteadyLoose ctx s fun member s' =>
      MemberRead ctx.text s member.documentable? member.span s' := by
  apply ((propertyMember?_readAt hnone).under.and (propertyMember?_ends hg)).bind
  rintro member? s₁ ⟨hread, hends⟩
  cases member? with
  | some member => exact .pure ⟨hread member rfl, hends member rfl⟩
  | none => exact (expr_ends hg).bind fun _ _ hends => .pure (.of_ends hends)

/-- A member of an object. -/
theorem objectMember_read (hnone : triviaAt? ctx.text s.pos = none) :
    g.objectMember.Leaves SteadyLoose ctx s fun member s' =>
      MemberRead ctx.text s member.documentable? member.span s' := by
  refine .look (startsWith_looks _) (.ite (fun _ => predicateEntry_read hg) fun _ => ?_)
  refine .look (startsWith_looks _) (.ite (fun _ => mappingEntry_read hg) fun _ => ?_)
  refine .look (startsWith_looks _) (.ite (fun _ => spread_read hg) fun _ => ?_)
  -- Reading ahead for the amendment of an element comes back to the same state.
  apply Leaves.bind (P := fun _ s' => s' = s)
  · apply Leaves.of_run
    intro hs found s' hrun
    obtain ⟨c, hc⟩ := hs.stands
    rw [atFieldAmend_run ⟨hc, hs.mode_eq⟩] at hrun
    cases hrun
    rfl
  · rintro found _ rfl
    refine .ite (fun _ => fieldAmend_read hg) fun _ => ?_
    refine .look (atWord_looks _) (.ite (fun _ => whenGenerator_read hg) fun _ => ?_)
    exact .look (atWord_looks _) (.ite (fun _ => forGenerator_read hg) fun _ =>
      namedMember_read hg hnone)

omit [g.Upkept] hg in
/-- Directly behind a sign the parse is between items. -/
theorem sign_leaves (hopens : opensToken (charAt ctx.text s.pos) = true) :
    (advance 1).Leaves SteadyLoose ctx s fun _ s' => Between ctx.text s' (s.pos + 1) := by
  apply (Mirrors.leaves (Q := fun _ _ c' => c' = s.pos + 1) fun c =>
    (advance_sign_mirrors (W := .self ctx) hopens).mono ?_).mono
  · rintro _ s' ⟨_, h, rfl⟩
    exact h
  · rintro _ s' c' hon ⟨-, rfl, -⟩
    have := hon.start.le_pos
    exact ⟨by omega, rfl⟩

/-- The members of an object, from the place on behind which the first of them stands. -/
theorem objectMembers_listed (h : Between ctx.text s c) :
    (g.objectMembers opening).Leaves SteadyLoose ctx s fun members _ =>
      ∃ hi, Listed ctx.text [';'] c
        (members.toList.map fun member => (member.documentable?, member.span)) hi := by
  apply Leaves.repeating fun members s' => ∃ c', Between ctx.text s' c' ∧ Listed ctx.text [';'] c
    (members.toList.map fun member => (member.documentable?, member.span)) c'
  · exact ⟨c, h, .nil⟩
  · rintro members s₁ ⟨c₁, h₁, hitems⟩
    apply Leaves.bind (P := fun _ s' => s' = s₁.skipTrivia ctx.text)
    · apply Leaves.of_run
      intro _ _ s' hrun
      cases hrun
      rfl
    · rintro _ _ rfl
      have hpos := h₁.skipTrivia.2.1
      refine .look peek_looks (.look atEnd_looks (.ite (fun _ => failWith_leaves) fun hlt =>
        .ite (fun _ => .after fun _ _ => .pure ⟨c₁, hitems⟩) fun _ => .ite (fun hsemicolon => ?_)
          fun _ => ?_))
      · rw [beq_iff_eq] at hsemicolon
        have hlt : (s₁.skipTrivia ctx.text).pos < ctx.text.size := by simpa using hlt
        have hrun := (triviaTo_skipEnd ctx.text c₁).run (by rwa [← hpos])
        rw [← hpos] at hrun
        apply (sign_leaves (by rw [hsemicolon]; decide)).bind
        intro _ s₃ h₃
        exact .pure ⟨_, h₃, .sign hitems hrun (by simp [hsemicolon])⟩
      · apply (objectMember_read hg h₁.noTrivia).bind
        intro member s₃ hread
        obtain ⟨c₃, h₃, hstop⟩ := hread.ends
        refine .pure ⟨c₃, h₃, ?_⟩
        rw [Array.toList_push, List.map_append]
        refine .item hitems (fun item hitem => h₁.documented ?_ (hread.readAt item hitem)) hstop
        simpa using hlt

/-- The members of an object are documented. -/
theorem bodyRule_documented :
    g.bodyRule.Leaves Steady ctx s fun body _ => body.Documented ctx.text := by
  apply openingBrace_leaves.holds.bind
  rintro opening s₁ ⟨hs₁, i, -, hbrace, hstart, hpos, hstands⟩
  have hbetween : Between ctx.text { s₁ with mode := .loose } (i + 1) :=
    SteadyLoose.between ⟨hs₁.with_mode .loose, rfl⟩ (hstands.with_mode .loose) hpos
  apply (Leaves.inMode_loose (objectMembers_listed hg hbetween) fun _ _ h => h).bind
  rintro members s₂ ⟨hi, hitems⟩
  exact .look position_looks (.pure ⟨i, hi, hstart, hbrace, hitems⟩)

end Members

end Grammar

end PklSyntax
