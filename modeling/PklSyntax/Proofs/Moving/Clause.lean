import PklSyntax.Proofs.Growth.ClassBody
import PklSyntax.Proofs.Moving.Object

/-!
# Classes, clauses and declarations in two texts

A member of a class that is given up leaves an error on record, so that what is skipped then matters
only when the stretch is whole. The other declarations are read without fail, or not at all.

## Main statements

* `Grammar.Mirrored.classRule`: classes.
* `Grammar.Mirrored.importRule`, `Grammar.Mirrored.typeAliasRule`, and so on: clauses.
* `Grammar.Mirrored.declarationRule`: declarations.
-/

namespace PklSyntax

open PklSyntax.Parser

variable {W : Overlap} {s t : State} {c : Nat} {b : Bool}

theorem State.errorCount_eq (s : State) : s.errorCount = s.errors.length := by
  rw [errorCount, errors, ← Array.countP_toList, List.countP_eq_length_filter]

namespace Overlap

/-- The two parses have recorded the same number of errors. -/
theorem limitReached_eq (hw : W.whole = true) (h : W.Abreast s c t) :
    W.right.options.limitReached t = W.left.options.limitReached s := by
  rw [Options.limitReached, Options.limitReached, State.errorCount_eq, State.errorCount_eq,
    h.errors,
    List.length_map, (W.full hw).2.2]

end Overlap

namespace Parser

/-- Once an error is on record, what is read is the same only if the stretch is whole. -/
theorem moveTo_hasError_mirrors {mode : Mode} {pos pos' : Nat} (herror : s.HasError)
    (hle : s.pos ≤ pos) (hsize : pos ≤ W.left.text.size)
    (hpos' : W.whole = true → W.Together false s c t → pos' = W.place pos) :
    Mirrors W mode b (fun _ => false) (moveTo pos) (moveTo pos') s c t fun _ s' _ =>
      s' = { s with pos } := by
  intro h
  rcases Nat.lt_or_eq_of_le hle with hlt | rfl
  · have hon := h.stands.jump herror hlt hsize
    refine ⟨pos, .of_onward hon hlt rfl, rfl, fun hjoined hlive => ?_⟩
    have hw : W.whole = true := hlive.resolve_right fun h => h.1 (hon.hasError herror)
    have ht : W.Together false s c t := ⟨h.lo_le, h.stands, .inl hw, hjoined (.inl hw)⟩
    refine ⟨{ t with pos := W.place pos }, ?_,
      ht.abreast.at_pos h.lo_le h.stands ht.pos_eq hlt hsize (.inr hw)⟩
    rw [hpos' hw ht]
    rfl
  · refine ⟨c, .refl h.stands, rfl, fun hjoined hlive => ?_⟩
    have hw : W.whole = true := hlive.resolve_right fun h => h.1 herror
    have ht : W.Together false s c t := ⟨h.lo_le, h.stands, .inl hw, hjoined (.inl hw)⟩
    refine ⟨t, ?_, ht.abreast⟩
    rw [hpos' hw ht, ← ht.pos_eq]
    rfl

end Parser

namespace Grammar

variable {g : Grammar}

/-! ### Classes -/

/-- The members of a class go on at the same place. -/
theorem memberRestart_place (hw : W.whole = true) {start i depth : Nat} (hstart : W.lo ≤ start)
    (hi : W.lo ≤ i) :
    memberRestart W.right.text (W.place start) (W.place i) depth =
      W.place (memberRestart W.left.text start i depth) := by
  have hchar {j : Nat} (hj : W.lo ≤ j) (hsize : j < W.left.text.size) :
      ∃ hsize' : W.place j < W.right.text.size, W.right.text[W.place j] = W.left.text[j] := by
    have hsize' := (Overlap.lt_size_place hj (.inr hw)).2 hsize
    have heq := Overlap.charAt_place hj (.inr hw)
    rw [charAt_of_lt hsize, charAt_of_lt hsize'] at heq
    exact ⟨hsize', heq⟩
  have hbehind {j : Nat} (hj : W.lo ≤ j) : W.place start < W.place j ↔ start < j :=
    ⟨Overlap.lt_of_place_lt hstart hj, Overlap.place_lt hstart⟩
  fun_induction memberRestart W.left.text start i depth with
  | case1 i depth h c hc ih =>
    obtain ⟨hsize', heq⟩ := hchar hi h
    rw [memberRestart, dif_pos hsize', heq, if_pos hc, ← Overlap.place_add hi]
    exact ih (by omega)
  | case2 i h c hc hc' =>
    obtain ⟨hsize', heq⟩ := hchar hi h
    rw [memberRestart, dif_pos hsize', heq, if_neg hc, if_pos hc', if_pos rfl]
  | case3 i depth h c hc hc' hdepth ih =>
    obtain ⟨hsize', heq⟩ := hchar hi h
    rw [memberRestart, dif_pos hsize', heq, if_neg hc, if_pos hc', if_neg hdepth,
      ← Overlap.place_add hi]
    exact ih (by omega)
  | case4 i depth h c hc hc' hc'' =>
    obtain ⟨hsize', heq⟩ := hchar hi h
    rw [memberRestart, dif_pos hsize', heq, if_neg hc, if_neg hc',
      if_pos (by simpa [hbehind hi] using hc''), Overlap.place_add hi]
  | case5 i depth h c hc hc' hc'' ih =>
    obtain ⟨hsize', heq⟩ := hchar hi h
    rw [memberRestart, dif_pos hsize', heq, if_neg hc, if_neg hc',
      if_neg (by simpa [hbehind hi] using hc''), ← Overlap.place_add hi]
    exact ih (by omega)
  | case6 i depth h =>
    rw [memberRestart, dif_neg fun hsize' => h ((Overlap.lt_size_place hi (.inr hw)).1 hsize')]

theorem Mirrored.classMember (hg : g.Mirrored W) :
    Mirrors W .loose b (fun _ => true) g.classMember g.classMember s c t fun _ _ c' => c < c' := by
  refine hg.preamble.bind_inner fun before s₁ c₁ t₁ h₁ _ => ?_
  have hQ (member : ClassMember) (s' : State) (c' : Nat) (h : (true = true → c₁ < c') ∧ c < c')
      (hlast : true = true) : c₁ < c' := h.1 hlast
  have hle := h₁.le
  refine .look_inside hQ (atWord_looks _) (atWord_looks _) (fun h => h.wordAt_eq (by decide))
    (.ite (fun hword => ?_) fun _ => ?_)
  · exact (hg.functionRule hword).bind fun decl s₂ c₂ t₂ _ hdecl => .pure
      (by simp [move, ClassMember.placed]) ⟨fun _ => hdecl.1.lt, Nat.lt_of_le_of_lt hle hdecl.1.lt⟩
  refine .look_inside hQ atIdentifier_looks atIdentifier_looks atIdentifier_eq
    (.ite (fun _ => ?_) fun _ => failExpected_mirrors)
  exact hg.propertyRule.bind fun decl s₂ c₂ t₂ _ hdecl => .pure
    (by simp [move, ClassMember.placed])
    ⟨fun _ => hdecl.1.1.lt, Nat.lt_of_le_of_lt hle hdecl.1.1.lt⟩

theorem skipMember_mirrors {start : Nat} (herror : s.HasError) (hlo : W.lo ≤ start) :
    Mirrors W .loose b (fun _ => false) (skipMember start) (skipMember (W.place start)) s c t
      fun _ s' _ => s.pos ≤ s'.pos ∧ (s.pos = start → start < W.left.text.size →
        charAt W.left.text start ≠ '\x7d' → start < s'.pos) := by
  refine .of_linked fun hlink => .peel theText_looks theText_looks (.peel position_looks
    position_looks ?_)
  have hlo' := Nat.le_trans hlink.lo_le hlink.stands.le_pos
  have hrestart (depth) := @memberRestart_spec W.left.text start s.pos depth
  refine (moveTo_hasError_mirrors herror (hrestart _).1 ((hrestart _).2 hlink.stands.pos_le_size)
    fun hw ht => ?_).mono fun _ s' _ _ h => ?_
  · rw [ht.pos_eq, Overlap.extract_place hlo hlo' (.inr hw), memberRestart_place hw hlo hlo']
  · rw [h]
    refine ⟨(hrestart _).1, fun hpos hlt hclose => ?_⟩
    subst hpos
    exact lt_memberRestart _ hlt hclose

/-- The members of a class up to the closing brace, which is read too. -/
theorem Mirrored.classBody (hg : g.Mirrored W) :
    Mirrors W .loose b (fun _ => true) g.classBody g.classBody s c t fun result _ c' =>
      c < c' ∧ result.2 = c' := by
  refine (expect_mirrors (by decide)).bind fun opening s₁ c₁ t₁ h₁ hopening => ?_
  refine .bind (P := fun (_ : Array ClassMember) s' c' => c < c' ∧ Arrived s' c') ?_
    fun members s₂ c₂ t₂ _ h => .of_linked fun hlink₂ => .look position_looks position_looks
      (fun ht => (h.2.sited _ ht).1) (.pure ?_ ⟨h.1, congrArg Int.ofNat h.2.1⟩)
  · refine .repeating false (fun _ _ _ => True) (by simp [move]) trivial nofun
      fun members s₂ c₂ t₂ h₂ _ => skip_inner_mirrors.bind_inner fun _ s₃ c₃ t₃ h₃ hskip => ?_
    obtain ⟨hskip, hend⟩ := hskip
    obtain rfl := hskip.eq
    have hle := h₃.stands.le_pos
    refine .of_linked fun hlink₃ => .look_inside (fun _ _ _ h => h.1) atEnd_looks atEnd_looks
      (fun h => h.decide_size_le) (.guard (fun _ => failWith_mirrors rfl rfl fun _ => rfl)
        fun hnot => ?_)
    refine .look_inside (fun _ _ _ h => h.1) peek_looks peek_looks (fun h => h.charAt_eq)
      (.ite (fun hclose => ?_) fun hclose => ?_)
    · rw [beq_iff_eq] at hclose
      refine (advance_sign_mirrors (by rw [hclose]; decide)).bind fun _ s₄ c₄ t₄ _ hadv =>
        .pure rfl ?_
      obtain ⟨-, rfl, harrived⟩ := hadv
      have hlt : c₃ < s₃.pos + 1 := by omega
      exact ⟨fun _ => hlt, fun _ _ => hlt, Nat.lt_trans (hopening.1.mono (Nat.le_refl _)).lt
        (Nat.lt_of_le_of_lt h₂.le hlt), harrived⟩
    · have hlo := Nat.le_trans hlink₃.lo_le hle
      refine .look_inside (fun _ _ _ h => h.1) position_looks position_looks (fun h => h.pos_eq) ?_
      refine .bind_level (attempt_mirrors (hg.classMember.lower (l := fun _ => false)
        fun _ h => absurd h Bool.false_ne_true)) fun member? s₄ c₄ t₄ h₄ hmember => ?_
      have hpos₄ := h₄.pos_le
      cases member? with
      | some member =>
        refine .pure_of ?_ ⟨nofun, nofun, hmember, trivial⟩ nofun
        rw [move_next, push_move]
      | none =>
        refine .look_inside (fun _ _ _ h => h.1 rfl) limitReached_looks limitReached_looks
          (fun ht => Overlap.limitReached_eq (ht.live.resolve_right fun h => h.1 hmember)
            ht.abreast)
          (.guard (fun _ => throw_mirrors .failed fun _ => hmember) fun _ => ?_)
        refine .bind_level (skipMember_mirrors hmember hlo) fun _ s₅ c₅ t₅ h₅ hskip =>
          .pure_of rfl ⟨nofun, nofun, nofun, ?_, trivial⟩ nofun
        have hlt : s₃.pos < s₅.pos := by
          obtain ⟨hle₅, hmove⟩ := hskip
          by_cases hpos : s₄.pos = s₃.pos
          · exact hmove hpos (by simpa using hnot) (by simpa using hclose)
          · omega
        -- The cursor is behind the trivia that follow the last token before.
        refine Nat.lt_of_le_of_ne (h₄.trans h₅).le ?_
        rintro rfl
        have := h₅.stands.pos_le_skipEnd
        rw [← (h₃.stands.of_skipped hend).1] at this
        omega
  · simp [move, Overlap.cast_place (Nat.le_trans hlink₂.lo_le hlink₂.stands.le_pos)]

/-- The rest of a class. -/
theorem Mirrored.classRule (hg : g.Mirrored W) {before : Preamble}
    (hword : wordAt W.left.text "class" s.pos = true) :
    Mirrors W .loose b (fun _ => true) (g.classRule before) (g.classRule (move W.shift before))
      s c t fun decl _ c' => ReadTo decl.span c c' ∧ decl.span.start = before.start := by
  refine (advance_word_mirrors "class" (by decide) hword).bind fun _ s₁ c₁ t₁ h₁ _ =>
    expectName_mirrors.bind fun name s₂ c₂ t₂ h₂ hname =>
      (hg.typeParameters hname.1.stop_eq).bind fun typeParams s₃ c₃ t₃ h₃ htypes =>
        announced_mirrors TypeExpr.span ((acceptKeyword_mirrors (by decide) fun hw hat =>
          (W.cut hw).2.2.2 hat).mono fun found _ _ _ h hnot => ?_) hg.type
          fun parent? s₄ c₄ t₄ h₄ hparent => announced_mirrors
            (fun body : List ClassMember × Int => (⟨0, body.2⟩ : Span))
            ((atToken_mirrors (by decide)).mono fun _ _ _ _ h _ => h.1.eq)
            (fun s c t => hg.classBody.mono fun body _ _ _ h => ⟨h.1, h.2⟩)
            fun body? s₅ c₅ t₅ h₅ hbody => .pure ?_ ⟨⟨?_, ?_⟩, rfl⟩
  · rw [hnot] at h
    exact h.eq
  · cases parent? <;> cases body? <;> simp [move, ClassDecl.placed, Preamble.placed, Placement.span]
  · have := h₁.le
    have := hname.1.lt
    have := h₃.le
    have := h₄.le
    have := h₅.le
    omega
  · have hparent : (parent?.map TypeExpr.span).elim typeParams.2 Span.stop = c₄ := by
      cases parent? with
      | none =>
        obtain rfl : c₄ = c₃ := hparent
        exact htypes
      | some parent => exact hparent.stop_eq
    cases body? with
    | none =>
      obtain rfl : c₅ = c₄ := hbody
      exact hparent
    | some body => exact hbody.stop_eq

/-! ### Clauses of a module -/

/-- A string has the same value wherever it stands. -/
theorem constantValue_placed (literal : StringLiteral) :
    (literal.placed W.shift).constantValue = literal.constantValue := by
  cases literal with
  | mk multiline pounds segments contentSpan indent span =>
    simp only [StringLiteral.placed, StringLiteral.constantValue, List.map_map]
    refine congrArg String.join (List.map_congr_left fun segment _ => ?_)
    cases segment <;> simp [Segment.placed]

/-- The rest of the clause that names the module. -/
theorem moduleClauseRule_mirrors {before : Preamble}
    (hword : wordAt W.left.text "module" s.pos = true) :
    Mirrors W .loose b (fun _ => true) (moduleClauseRule before)
      (moduleClauseRule (move W.shift before)) s c t fun clause _ c' =>
        ReadTo clause.span c c' ∧ clause.span.start = before.start := by
  refine (advance_word_mirrors "module" (by decide) hword).bind fun _ s₁ c₁ t₁ h₁ _ =>
    skip_mirrors.bind fun _ s₂ c₂ t₂ h₂ _ => qualifiedName_mirrors.bind fun name s₃ c₃ t₃ _ hname =>
      .pure ?_ ⟨⟨?_, hname.1.stop_eq⟩, rfl⟩
  · simp [move, ModuleClause.placed, NamedType.placed, Preamble.placed, Placement.span]
  · have := h₁.le
    have := h₂.le
    have := hname.1.lt
    omega

/-- The rest of an import. -/
theorem Mirrored.importRule (hg : g.Mirrored W) {before : Preamble}
    (hword : wordAt W.left.text "import" s.pos = true) :
    Mirrors W .loose b (fun _ => true) (g.importRule before) (g.importRule (move W.shift before))
      s c t fun decl _ c' => ReadTo decl.span c c' ∧ decl.span.start = before.start := by
  refine .bind_inner ((advance_word_mirrors "import" (by decide) hword).lower
    fun _ h => absurd h Bool.false_ne_true) fun _ s₁ c₁ t₁ h₁ _ => ?_
  refine .look_inside (fun _ _ _ h => h.1) peek_looks peek_looks (fun h => h.charAt_eq) ?_
  refine .of_lt (fun _ _ _ h => h.1) ?_
  dsimp only
  refine .option (P := fun _ _ _ => True) () rfl (fun hglob => ?_) (fun _ => trivial)
    fun _ s₂ c₂ t₂ h₂ _ => hg.sourceString.bind fun source s₃ c₃ t₃ h₃ hsource => announced_mirrors
      Identifier.span ((acceptKeyword_mirrors (by decide) (wordAt_stop (.inr rfl))).mono
        fun found _ _ _ h hnot => ?_) (fun s c t => expectName_mirrors.mono fun _ _ _ _ h => h.1)
      fun localName? s₄ c₄ t₄ h₄ hlocal => .pure ?_ ?_
  · rw [beq_iff_eq] at hglob
    exact (advance_sign_mirrors (by rw [hglob]; decide)).mono fun _ _ _ _ _ => trivial
  · rw [hnot] at h
    exact h.eq
  · cases localName? <;> simp [move, ImportDecl.placed, constantValue_placed, Preamble.placed,
      Identifier.placed, Placement.span]
  · have hlt : c₁ < c₄ := by
      have := h₂.le
      have := hsource.lt
      have := h₄.le
      omega
    refine ⟨fun _ => hlt, ⟨Nat.lt_of_le_of_lt h₁.le hlt, ?_⟩, rfl⟩
    cases localName? with
    | none =>
      obtain rfl : c₄ = c₃ := hlocal
      exact hsource.stop_eq
    | some localName => exact hlocal.stop_eq

/-- The rest of a clause with nothing but a source behind its keyword. -/
theorem Mirrored.extendsRule (hg : g.Mirrored W) {before : Preamble}
    (hword : wordAt W.left.text "extends" s.pos = true) :
    Mirrors W .loose b (fun _ => true) (g.extendsRule before) (g.extendsRule (move W.shift before))
      s c t fun clause _ c' => ReadTo clause.span c c' ∧ clause.span.start = before.start := by
  refine (advance_word_mirrors "extends" (by decide) hword).bind fun _ s₁ c₁ t₁ h₁ _ =>
    hg.sourceString.bind fun source s₂ c₂ t₂ _ hsource =>
      .pure ?_ ⟨⟨(hsource.mono h₁.le).lt, hsource.stop_eq⟩, rfl⟩
  simp [move, ExtendsClause.placed, constantValue_placed, Preamble.placed, Placement.span]

theorem Mirrored.amendsRule (hg : g.Mirrored W) {before : Preamble}
    (hword : wordAt W.left.text "amends" s.pos = true) :
    Mirrors W .loose b (fun _ => true) (g.amendsRule before) (g.amendsRule (move W.shift before))
      s c t fun clause _ c' => ReadTo clause.span c c' ∧ clause.span.start = before.start := by
  refine (advance_word_mirrors "amends" (by decide) hword).bind fun _ s₁ c₁ t₁ h₁ _ =>
    hg.sourceString.bind fun source s₂ c₂ t₂ _ hsource =>
      .pure ?_ ⟨⟨(hsource.mono h₁.le).lt, hsource.stop_eq⟩, rfl⟩
  simp [move, AmendsClause.placed, constantValue_placed, Preamble.placed, Placement.span]

/-- The rest of a type alias. -/
theorem Mirrored.typeAliasRule (hg : g.Mirrored W) {before : Preamble}
    (hword : wordAt W.left.text "typealias" s.pos = true) :
    Mirrors W .loose b (fun _ => true) (g.typeAliasRule before)
      (g.typeAliasRule (move W.shift before)) s c t fun decl _ c' =>
        ReadTo decl.span c c' ∧ decl.span.start = before.start := by
  refine (advance_word_mirrors "typealias" (by decide) hword).bind fun _ s₁ c₁ t₁ h₁ _ =>
    expectName_mirrors.bind fun name s₂ c₂ t₂ h₂ hname =>
      (hg.typeParameters hname.1.stop_eq).bind fun typeParams s₃ c₃ t₃ h₃ _ =>
        (expect_mirrors (by decide)).bind fun _ s₄ c₄ t₄ h₄ _ =>
          (hg.type s₄ c₄ t₄).bind fun aliased s₅ c₅ t₅ _ haliased =>
            .pure ?_ ⟨⟨?_, haliased.stop_eq⟩, rfl⟩
  · simp [move, TypeAliasDecl.placed, Preamble.placed, Placement.span]
  · exact (haliased.mono (h₁.trans (h₂.trans (h₃.trans h₄))).le).lt

/-! ### Declarations -/

theorem failDeclaration_mirrors {last : Declaration → Bool} {Q : Declaration → State → Nat → Prop} :
    Mirrors W .loose b last failDeclaration failDeclaration s c t Q := by
  refine .mono (P := fun _ _ _ => False) ?_ fun _ _ _ _ h => h.elim
  have hQ (decl : Declaration) (s' : State) (c' : Nat) (h : False) (_ : last decl = true) :
      c < c' :=
    h.elim
  refine .look_inside hQ peek_looks peek_looks (fun h => h.charAt_eq) ?_
  refine .look_inside hQ atEnd_looks atEnd_looks (fun h => h.decide_size_le) ?_
  refine .ite (fun _ => failExpected_mirrors) fun _ => ?_
  refine .ite (fun _ => ?_) fun _ => ?_
  · exact .look_inside hQ here_looks here_looks hereAt_eq (failWith_mirrors rfl rfl fun _ => rfl)
  · exact .look_inside hQ describeCurrent_looks describeCurrent_looks describeAt_eq
      (.look_inside hQ here_looks here_looks hereAt_eq (failWith_mirrors rfl rfl fun _ => rfl))

/-- A declaration begins with what stands in front of it. -/
theorem Mirrored.declarationRule (hg : g.Mirrored W) :
    Mirrors W .loose b (fun _ => true) g.declarationRule g.declarationRule s c t
      fun decl _ c' => ReadTo decl.span c c' ∧ decl.span.start = s.lead := by
  refine hg.preamble.bind_inner fun before s₁ c₁ t₁ h₁ hbefore => ?_
  obtain ⟨⟨hstart, -, -⟩, -⟩ := hbefore
  rw [← hstart]
  have hdone {p p' : Parser Declaration} (hp : Mirrors W .loose false (fun _ => true) p p' s₁ c₁ t₁
      fun decl _ c' => ReadTo decl.span c₁ c' ∧ decl.span.start = before.start) :
      Mirrors W .loose false (fun _ => true) p p' s₁ c₁ t₁ fun decl _ c' =>
        (true = true → c₁ < c') ∧ ReadTo decl.span c c' ∧ decl.span.start = before.start :=
    hp.mono fun _ _ _ _ h => ⟨fun _ => h.1.lt, h.1.mono h₁.le, h.2⟩
  refine hdone ?_
  have hQ (decl : Declaration) (s' : State) (c' : Nat)
      (h : ReadTo decl.span c₁ c' ∧ decl.span.start = before.start) (_ : true = true) : c₁ < c' :=
    h.1.lt
  refine .look_inside hQ (atWord_looks _) (atWord_looks _) (fun h => h.wordAt_eq (by decide))
    (.ite (fun hword => ?_) fun _ => ?_)
  · exact (moduleClauseRule_mirrors hword).bind fun _ _ _ _ _ h => .pure
      (by simp [move, Declaration.placed]) h
  refine .look_inside hQ (atWord_looks _) (atWord_looks _) (fun h => h.wordAt_eq (by decide))
    (.ite (fun hword => ?_) fun _ => ?_)
  · exact (hg.importRule hword).bind fun _ _ _ _ _ h => .pure (by simp [move, Declaration.placed]) h
  refine .look_inside hQ (atWord_looks _) (atWord_looks _) (fun h => h.wordAt_eq (by decide))
    (.ite (fun hword => ?_) fun _ => ?_)
  · exact (hg.extendsRule hword).bind fun _ _ _ _ _ h =>
      .pure (by simp [move, Declaration.placed]) h
  refine .look_inside hQ (atWord_looks _) (atWord_looks _) (fun h => h.wordAt_eq (by decide))
    (.ite (fun hword => ?_) fun _ => ?_)
  · exact (hg.amendsRule hword).bind fun _ _ _ _ _ h => .pure (by simp [move, Declaration.placed]) h
  refine .look_inside hQ (atWord_looks _) (atWord_looks _) (fun h => h.wordAt_eq (by decide))
    (.ite (fun hword => ?_) fun _ => ?_)
  · exact (hg.typeAliasRule hword).bind fun _ _ _ _ _ h =>
      .pure (by simp [move, Declaration.placed]) h
  refine .look_inside hQ (atWord_looks _) (atWord_looks _) (fun h => h.wordAt_eq (by decide))
    (.ite (fun hword => ?_) fun _ => ?_)
  · exact (hg.classRule hword).bind fun _ _ _ _ _ h => .pure (by simp [move, Declaration.placed]) h
  refine .look_inside hQ (atWord_looks _) (atWord_looks _) (fun h => h.wordAt_eq (by decide))
    (.ite (fun hword => ?_) fun _ => ?_)
  · exact (hg.functionRule hword).bind fun _ _ _ _ _ h =>
      .pure (by simp [move, Declaration.placed]) h
  refine .look_inside hQ atIdentifier_looks atIdentifier_looks atIdentifier_eq
    (.ite (fun _ => ?_) fun _ => failDeclaration_mirrors)
  exact hg.propertyRule.bind fun _ _ _ _ _ h => .pure (by simp [move, Declaration.placed]) h.1

end Grammar

end PklSyntax
