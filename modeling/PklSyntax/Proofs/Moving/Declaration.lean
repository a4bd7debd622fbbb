import PklSyntax.Proofs.Layout.Declaration
import PklSyntax.Proofs.Moving.Expression

/-!
# Properties and functions in two texts

Behind what stands in front of a declaration, the declaration itself goes on in the stretch in any
case. Its last part may end with the stretch: behind a type or a value, and behind the parameters of
a function without a body, the sign for the next part begins no declaration.

## Main statements

* `Grammar.Mirrored.preamble`: what stands in front of a declaration.
* `Grammar.Mirrored.propertyRule`, `Grammar.Mirrored.functionRule`.
-/

namespace PklSyntax

open PklSyntax.Parser

variable {W : Overlap} {s t : State} {c d : Nat} {b : Bool}

namespace Parser

/-- A parser comes to one state. -/
theorem state_eq {α : Type} {p : Parser α} {ctx : Context} {a a' : α} {s₁ s₂ : State}
    (h : p ctx s = .ok a s₁) (h' : p ctx s = .ok a' s₂) : s₁ = s₂ := by
  rw [h] at h'
  cases h'
  rfl

/-! ### Modifiers -/

theorem keyword_spec (m : Modifier) :
    isName m.keyword = true ∧ m.keyword.toList.head?.any startsName = true ∧
      keywords.contains m.keyword = true := by
  cases m <;> decide

theorem isEmpty_insert (m : Modifier) (found : Modifiers) : (found.insert m).isEmpty = false := by
  rw [Modifiers.isEmpty, Modifiers.insert, Modifiers.ofFilter,
    List.isEmpty_eq_false_iff_exists_mem]
  exact ⟨m, List.mem_filter.2 ⟨by cases m <;> decide, by simp⟩⟩

/-- No modifier stands at the offset. -/
def NoModifier (text : Array Char) (i : Nat) : Prop :=
  ∀ m : Modifier, wordAt text m.keyword i = false

/-- A word that begins like a name does not stand where no name begins. -/
theorem wordAt_of_not_startsName {text : Array Char} {i : Nat} {word : String}
    (hword : word.toList.head?.any startsName = true) (h : startsName (charAt text i) = false) :
    wordAt text word i = false := by
  rw [← Bool.not_eq_true]
  intro hat
  obtain ⟨first, hfirst, hstart⟩ := (Option.any_eq_true _ _).1 hword
  rw [List.head?_eq_getElem?] at hfirst
  have hchar := charAt_of_matchesAt (matchesAt_of_wordAt hat) hfirst
  rw [Nat.add_zero] at hchar
  rw [hchar, hstart] at h
  cases h

theorem noModifier_of_not_startsName {text : Array Char} {i : Nat}
    (h : startsName (charAt text i) = false) : NoModifier text i :=
  fun m => wordAt_of_not_startsName (keyword_spec m).2.1 h

/-- Modifiers in front of a declaration. Where there are none, nothing but trivia is read. -/
theorem modifiers_mirrors :
    Mirrors W .loose b (fun _ => false) modifiers modifiers s c t fun found s' c' =>
      (found.isEmpty = true → s' = s.skipTrivia W.left.text ∧ c' = c) ∧
        (NoModifier W.left.text (skipEnd W.left.text c) → found.isEmpty = true) := by
  refine .repeating false (fun (found : Modifiers) s' c' =>
    (found.isEmpty = true → s' = s ∧ c' = c) ∧
      (NoModifier W.left.text (skipEnd W.left.text c) → found.isEmpty = true))
    rfl ⟨fun _ => ⟨rfl, rfl⟩, fun _ => rfl⟩ nofun fun found s₁ c₁ t₁ _ hI => ?_
  have hlevel : (Round.level false fun _ => false : Round Modifiers Modifiers → Bool) =
      fun _ => false := funext fun round => by cases round <;> rfl
  rw [hlevel]
  refine skip_inner_mirrors.with_run.bind_within fun _ s₂ c₂ t₂ h₂ hskip => ?_
  obtain ⟨hrun, hskip, hend⟩ := hskip
  obtain rfl := hskip.eq
  refine .look_within (firstModifier?_looks _) (firstModifier?_looks _)
    (fun h => congrArg (Modifier.all.find? ·) (funext fun m => h.wordAt_eq (keyword_spec m).1)) ?_
  have hfound := fun m =>
    List.find?_some (p := fun m : Modifier => wordAt W.left.text m.keyword s₂.pos)
    (l := Modifier.all) (a := m)
  generalize Modifier.all.find? (fun m => wordAt W.left.text m.keyword s₂.pos) = m? at hfound ⊢
  cases m? with
  | none =>
    refine .pure_of rfl ⟨nofun, fun hempty => ?_, hI.2⟩ nofun
    obtain ⟨rfl, rfl⟩ := hI.1 hempty
    exact ⟨state_eq hrun rfl, rfl⟩
  | some m =>
    refine (advance_word_mirrors m.keyword (keyword_spec m).1 (hfound m rfl)).bind
      fun _ s₃ c₃ t₃ _ hadv => .pure_of rfl ⟨?_, fun hempty => ?_, fun hnot => ?_⟩ nofun
    · have := h₂.stands.le_pos
      have hlen : 0 < m.keyword.length := by cases m <;> decide
      omega
    · rw [isEmpty_insert] at hempty
      cases hempty
    · obtain ⟨rfl, rfl⟩ := hI.1 (hI.2 hnot)
      have hword := hfound m rfl
      rw [(h₂.stands.of_skipped hend).1, hnot m] at hword
      cases hword

theorem variance_mirrors :
    Mirrors W .loose b (fun _ => false) variance variance s c t fun _ _ _ => True := by
  refine .look_within (atWord_looks _) (atWord_looks _) (fun h => h.wordAt_eq (by decide))
    (.ite (fun hword => ?_) fun _ => ?_)
  · exact (advance_word_mirrors "in" (by decide) hword).bind fun _ _ _ _ _ _ =>
      .pure_of rfl trivial nofun
  refine .look_within (atWord_looks _) (atWord_looks _) (fun h => h.wordAt_eq (by decide))
    (.ite (fun hword => ?_) fun _ => .pure_of rfl trivial nofun)
  exact (advance_word_mirrors "out" (by decide) hword).bind fun _ _ _ _ _ _ =>
    .pure_of rfl trivial nofun

/-! ### Names -/

/-- A name that is no reserved word, and where it stands. -/
theorem expectName_at_mirrors {what : String} :
    Mirrors W .loose b (fun _ => true) (expectName what) (expectName what) s c t fun name s' c' =>
      (ReadTo name.span c c' ∧ Arrived s' c') ∧
        nameStop? W.left.text (skipEnd W.left.text c) = some c' := by
  refine .of_linked fun hlink => expectName_mirrors.with_run.mono fun name s' c' _ h => ⟨h.2, ?_⟩
  obtain ⟨hrun, -, harrived⟩ := h
  obtain ⟨hon, hpos, -⟩ := hlink.stands.skipTrivia hlink.mode_eq
  have hmode := hon.mode_eq.trans hlink.mode_eq
  have heq : expectName what W.left s = (identifier what >>= fun name => do
      if name.isReservedWord = true then failWith (.keywordAsName name.name what) name.span
      return name) W.left (s.skipTrivia W.left.text) := rfl
  rw [heq, bind_apply] at hrun
  cases hname : identifier what W.left (s.skipTrivia W.left.text) with
  | error stop s₁ =>
    rw [hname] at hrun
    cases hrun
  | ok name' s₁ =>
    have hstop := nameStop?_of_identifier hmode hname
    rw [hname] at hrun
    dsimp only at hrun
    split at hrun
    · cases hrun
    · cases hrun
      rw [← hpos, hstop, harrived.1]

end Parser

namespace Grammar

variable {g : Grammar}

/-! ### In front of a declaration -/

theorem Mirrored.annotationRule (hg : g.Mirrored W)
    (hsign : matchesAt W.left.text "@" s.pos = true) :
    Mirrors W .loose b (fun _ => true) g.annotationRule g.annotationRule s c t
      fun annotation _ c' => ReadTo annotation.span c c' := by
  refine .of_lt (fun _ _ _ h _ => h.lt) (.of_linked fun hlink => ?_)
  have hlo := Nat.le_trans hlink.lo_le hlink.stands.le_pos
  refine .look_inside (fun _ _ _ h _ => ReadTo.lt h) position_looks position_looks
    (fun h => h.pos_eq) ?_
  refine (advance_token_mirrors "@" hsign (by decide)).bind fun _ s₁ c₁ t₁ h₁ _ =>
    qualifiedName_mirrors.bind fun name s₂ c₂ t₂ h₂ hname => announced_mirrors ObjectBody.span
      ((atToken_mirrors (by decide)).mono fun _ _ _ _ h _ => h.1.eq) hg.body
      fun body? s₃ c₃ t₃ h₃ hbody => .pure ?_ ?_
  · cases body? <;> simp [move, Annotation.placed_mk, NamedType.placed, Placement.span,
      Overlap.cast_place hlo]
  · have := h₁.le
    have hlt : c < c₂ := (hname.1.mono h₁.le).lt
    cases body? with
    | none =>
      obtain rfl : c₃ = c₂ := hbody
      exact ⟨hlt, hname.1.stop_eq⟩
    | some body => exact ⟨Nat.lt_trans hlt hbody.lt, hbody.stop_eq⟩

/-- Annotations in front of a declaration. Where there are none, nothing but trivia is read. -/
theorem Mirrored.annotationRules (hg : g.Mirrored W) :
    Mirrors W .loose b (fun _ => false) g.annotationRules g.annotationRules s c t
      fun annotations s' c' =>
        (annotations = [] → s' = s.skipTrivia W.left.text ∧ c' = c) ∧
          (charAt W.left.text (skipEnd W.left.text c) ≠ '@' → annotations = []) := by
  refine .bind_within (P := fun (annotations : Array Annotation) s' c' =>
      (annotations = #[] → s' = s.skipTrivia W.left.text ∧ c' = c) ∧
        (charAt W.left.text (skipEnd W.left.text c) ≠ '@' → annotations = #[])) ?_
    fun annotations s₁ c₁ t₁ _ h => .pure_of (by simp [move])
      ⟨fun hnone => h.1 (by simpa using hnone), fun hnot => by simpa using h.2 hnot⟩ nofun
  refine .repeating false (fun (annotations : Array Annotation) s' c' =>
      (annotations = #[] → s' = s ∧ c' = c) ∧
        (charAt W.left.text (skipEnd W.left.text c) ≠ '@' → annotations = #[]))
    (by simp [move]) ⟨fun _ => ⟨rfl, rfl⟩, fun _ => rfl⟩ nofun fun annotations s₁ c₁ t₁ h₁ hI => ?_
  have hlevel :
      (Round.level false fun _ => false : Round (Array Annotation) (Array Annotation) → Bool) =
      fun _ => false := funext fun round => by cases round <;> rfl
  rw [hlevel]
  refine .of_linked fun hlink => (atToken_inner_mirrors (by decide)).with_run.bind_within
    fun found s₂ c₂ t₂ h₂ hfound => ?_
  obtain ⟨hrun, hskip, hfound⟩ := hfound
  obtain rfl := hskip.eq
  cases found with
  | true =>
    refine (hg.annotationRule hfound.symm).bind fun annotation s₃ c₃ t₃ _ hread =>
      .pure_of ?_ ⟨hread.lt, fun hempty => ?_, fun hnot => ?_⟩ nofun
    · rw [move_next, push_move]
    · simp at hempty
    · -- The first annotation begins with its sign.
      obtain ⟨rfl, rfl⟩ := hI.1 (hI.2 hnot)
      have hend := hskip.triviaEnd (h₂.mode_eq.trans hlink.mode_eq)
      have hchar := charAt_of_matchesAt (n := 0) (c := '@') hfound.symm (by decide)
      rw [Nat.add_zero, (h₂.stands.of_skipped hend).1] at hchar
      exact absurd hchar hnot
  | false =>
    refine .pure_of rfl ⟨nofun, fun hempty => ?_, hI.2⟩ nofun
    obtain ⟨rfl, rfl⟩ := hI.1 hempty
    exact ⟨state_eq hrun rfl, rfl⟩

/-- What stands in front of a declaration. Where that is at most a doc comment, nothing but trivia
is read. -/
theorem Mirrored.preamble (hg : g.Mirrored W) :
    Mirrors W .loose b (fun _ => false) g.preamble g.preamble s c t fun before s' c' =>
      (before.start = s.lead ∧ before.doc = s.pending ∧ s'.triviaEnd = some s'.pos) ∧
        (s.triviaEnd = some s.pos → before.annotations = [] → before.modifiers.isEmpty = true →
          s' = s.takeDoc.2 ∧ c' = c) ∧
        (charAt W.left.text (skipEnd W.left.text c) ≠ '@' →
          NoModifier W.left.text (skipEnd W.left.text c) →
            before.annotations = [] ∧ before.modifiers.isEmpty = true) := by
  refine .of_linked fun hlink => .look_within position_looks position_looks (fun h => h.pos_eq) ?_
  have hlo := Nat.le_trans hlink.lo_le hlink.stands.le_pos
  refine takeDoc_mirrors.with_run.bind_within fun doc s₁ c₁ t₁ h₁ hdoc =>
    hg.annotationRules.bind_within fun annotations s₂ c₂ t₂ h₂ hannotations =>
      modifiers_mirrors.bind_within fun modifiers s₃ c₃ t₃ h₃ hmodifiers =>
        skip_inner_mirrors.with_run.bind_within fun _ s₄ c₄ t₄ h₄ hskip =>
          .pure_of ?_ ⟨⟨?_, ?_, hskip.2.2⟩, fun hend hnone hempty => ?_, fun hsign hword => ?_⟩
            nofun
  · cases doc <;> simp [move, Preamble.placed, DocComment.placed, Overlap.cast_place hlo]
  · show (doc.map DocComment.span).elim (s.pos : Int) Span.start = s.lead
    rw [hdoc.2.1, State.lead]
  · exact hdoc.2.1
  · obtain ⟨rfl, rfl⟩ := hannotations.1 hnone
    obtain ⟨rfl, rfl⟩ := hmodifiers.1 hempty
    obtain ⟨hrun, hskip, -⟩ := hskip
    obtain rfl := hskip.eq
    obtain ⟨hrun₁, -, -, rfl⟩ := hdoc
    obtain rfl : s₄ = _ := state_eq hrun rfl
    obtain rfl : s₁ = s.takeDoc.2 := state_eq hrun₁ rfl
    have hend₁ : s.takeDoc.2.triviaEnd = some s.takeDoc.2.pos := by
      obtain ⟨attached, heq, -⟩ := s.takeDoc_eq
      rw [heq]
      exact hend
    simp only [h₁.stands.skipTrivia_of_skipped hend₁, and_self]
  · obtain ⟨-, -, -, rfl⟩ := hdoc
    have hnone := hannotations.2 hsign
    obtain ⟨-, rfl⟩ := hannotations.1 hnone
    exact ⟨hnone, hmodifiers.2 hword⟩

/-! ### Type parameters -/

theorem Mirrored.typeParameter (hg : g.Mirrored W) :
    Mirrors W .loose b (fun _ => true) g.typeParameter g.typeParameter s c t
      fun _ _ c' => c < c' := by
  refine .of_linked fun hlink => .of_lt (fun _ _ _ h _ => h) ?_
  refine skip_mirrors.bind fun _ s₁ c₁ t₁ h₁ hskip => ?_
  obtain rfl := hskip.1.eq
  have hlo := Nat.le_trans hlink.lo_le h₁.stands.le_pos
  refine .look_inside (fun _ _ _ h _ => h) position_looks position_looks (fun h => h.pos_eq) ?_
  refine variance_mirrors.bind_inner fun variance s₂ c₂ t₂ h₂ _ => .of_lt (fun _ _ _ h => h.1)
    ((hg.type s₂ c₂ t₂).bind fun type s₃ c₃ t₃ _ htype => .pure ?_ ⟨fun _ => htype.lt, ?_⟩)
  · simp [move, TypeParameter.placed, Placement.span, Overlap.cast_place hlo]
  · exact Nat.lt_of_le_of_lt h₂.le htype.lt

/-- Type parameters, if there are any, with the offset behind them. -/
theorem Mirrored.typeParameters (hg : g.Mirrored W) {stop : Int} (hstop : stop = c) :
    Mirrors W .loose true (fun _ => true) (g.typeParameters stop)
      (g.typeParameters (move W.shift stop))
      s c t fun result _ c' => result.2 = c' := by
  refine (accept?_mirrors (by decide)).bind fun opening? s₁ c₁ t₁ _ hopening => ?_
  cases opening? with
  | none =>
    obtain rfl := hopening.1.eq
    exact .pure rfl hstop
  | some opening =>
    refine (accept?_mirrors (by decide)).bind fun close? s₂ c₂ t₂ _ hclose => ?_
    cases close? with
    | some close =>
      refine (report_mirrors rfl fun _ => Placement.span_cover _ _).bind fun _ s₃ c₃ t₃ _ h =>
        .pure rfl ?_
      rw [h.2]
      exact hclose.1.stop_eq
    | none =>
      refine hg.typeParameter.bind fun first s₃ c₃ t₃ _ _ => .bind (P := fun _ _ _ => True)
        (.repeating true (fun _ _ _ => True) (by simp [move]) trivial id
          fun parameters s₄ c₄ t₄ _ _ => ?_)
        fun parameters s₄ c₄ t₄ _ _ => (expect_mirrors (by decide)).bind
          fun close s₅ c₅ t₅ _ hclose => .pure (by simp [move, Placement.span]) hclose.1.stop_eq
      refine (accept_mirrors (by decide)).bind fun comma s₅ c₅ t₅ _ hcomma => ?_
      cases comma with
      | true =>
        refine hg.typeParameter.bind fun next s₆ c₆ t₆ _ hnext => .pure ?_
          ⟨Nat.lt_trans hcomma.1 hnext, trivial⟩
        rw [move_next, push_move]
      | false => exact .pure rfl ⟨(fun h => by cases h), trivial⟩

/-! ### Properties and functions -/

theorem Mirrored.objectForm (hg : g.Mirrored W) :
    Mirrors W .loose true (fun _ => true) g.objectForm g.objectForm s c t
      fun form _ c' => ReadTo form.span c c' := by
  refine (hg.body s c t).bind fun first s₁ c₁ t₁ _ hfirst => (hg.moreBodies hfirst).bind
    fun bodies s₂ c₂ t₂ _ hbodies => .pure ?_ ⟨hbodies.1.lt, hbodies.1.stop_eq⟩
  show ObjectForm.mk _ _ = _
  rw [back?_getD_move]
  simp [move, ObjectForm.placed, Placement.span]

/-- A type that may stand behind what it belongs to, and then the rest. -/
theorem Mirrored.annotatedType {β : Type} [Movable β] {last : β → Bool} {Q : β → State → Nat → Prop}
    (hg : g.Mirrored W) {k k' : Option TypeExpr → Parser β}
    (hk : ∀ type? s' c' t', Onward W.left.text s c s' c' → EndsWith TypeExpr.span c type? c' →
      Mirrors W .loose true last (k type?) (k' (move W.shift type?)) s' c' t' Q) :
    Mirrors W .loose true last
      (do
        let found ← accept ":"
        if found = true then do
          let a ← some <$> g.type
          k a
        else do
          let a ← pure none
          k a)
      (do
        let found ← accept ":"
        if found = true then do
          let a ← some <$> g.type
          k' a
        else do
          let a ← pure none
          k' a) s c t Q :=
  announced_mirrors TypeExpr.span
    ((accept_mirrors (by decide)).mono fun found _ _ _ => eq_of_not_found found) hg.type hk

/-- What follows the name of a property. -/
theorem Mirrored.propertyForm (hg : g.Mirrored W) {name : Identifier} :
    Mirrors W .loose true (fun _ => true) (g.propertyForm name) (g.propertyForm (move W.shift name))
      s c t fun form _ c' => ReadTo form.span c c' := by
  refine (atToken_mirrors (by decide)).bind fun found s₁ c₁ t₁ _ hfound => ?_
  obtain rfl := hfound.1.eq
  refine .ite (fun _ => ?_) fun _ => ?_
  · exact hg.objectForm.bind fun form s₂ c₂ t₂ _ hform =>
      .pure (by simp [move, PropertyForm.placed]) hform
  refine hg.annotatedType fun type? s₂ c₂ t₂ h₂ htype => atAssign_mirrors.bind
    fun assign s₃ c₃ t₃ _ hassign => ?_
  obtain rfl := hassign.1.eq
  cases assign with
  | true =>
    have hmatch := (Bool.and_eq_true _ _ ▸ hassign.2.symm :
      matchesAt W.left.text "=" s₃.pos = true ∧ _).1
    refine (advance_token_mirrors "=" hmatch (by decide)).bind fun _ s₄ c₄ t₄ h₄ _ =>
      (hg.expr s₄ c₄ t₄).bind fun value s₅ c₅ t₅ _ hvalue => .pure ?_ ?_
    · cases type? <;> simp [move, PropertyForm.placed_init, Placement.span]
    · exact ⟨(hvalue.mono (Nat.le_trans h₂.le h₄.le)).lt, hvalue.stop_eq⟩
  | false =>
    cases type? with
    | some type => exact .pure (by simp [move, PropertyForm.placed]) htype
    | none => exact failWith_mirrors rfl rfl fun _ => rfl

/-- The rest of a property. -/
theorem Mirrored.propertyRule (hg : g.Mirrored W) {before : Preamble} :
    Mirrors W .loose b (fun _ => true) (g.propertyRule before)
      (g.propertyRule (move W.shift before))
      s c t fun decl s' c' => (ReadTo decl.span c c' ∧ decl.span.start = before.start) ∧
        ∃ e, nameStop? W.left.text (skipEnd W.left.text c) = some e ∧ Via W.left.text e s' c' := by
  refine .of_linked fun hlink => expectName_at_mirrors.bind fun name s₁ c₁ t₁ h₁ hname =>
    hg.propertyForm.bind fun form s₂ c₂ t₂ h₂ hform => .pure ?_ ⟨⟨⟨?_, hform.stop_eq⟩, rfl⟩, c₁,
      hname.2,
      s₁, h₁.mode_eq.trans hlink.mode_eq, h₂⟩
  · simp [move, PropertyDecl.placed, Preamble.placed, Placement.span]
  · exact Nat.lt_trans hname.1.1.lt hform.lt

/-- The rest of a function. -/
theorem Mirrored.functionRule (hg : g.Mirrored W) {before : Preamble}
    (hword : wordAt W.left.text "function" s.pos = true) :
    Mirrors W .loose b (fun _ => true) (g.functionRule before)
      (g.functionRule (move W.shift before))
      s c t fun decl _ c' => ReadTo decl.span c c' ∧ decl.span.start = before.start := by
  refine (advance_word_mirrors "function" (by decide) hword).bind fun _ s₁ c₁ t₁ h₁ _ =>
    expectName_mirrors.bind fun name s₂ c₂ t₂ h₂ hname =>
      (hg.typeParameters hname.1.stop_eq).bind fun typeParams s₃ c₃ t₃ h₃ _ =>
        hg.params.bind fun params s₄ c₄ t₄ h₄ hparams => hg.annotatedType
          fun result? s₅ c₅ t₅ h₅ hresult => atAssign_mirrors.bind
            fun assign s₆ c₆ t₆ h₆ hassign => ?_
  obtain rfl := hassign.1.eq
  have hlt : c < c₆ := by
    have := h₁.le
    have := hname.1.lt
    have := h₃.le
    have := hparams.1
    have := h₅.le
    omega
  have hresult : (result?.map TypeExpr.span).elim params.2 Span.stop = c₆ := by
    cases result? with
    | none =>
      obtain rfl : c₆ = c₄ := hresult
      exact hparams.2.1
    | some result => exact hresult.stop_eq
  cases assign with
  | false =>
    refine .pure ?_ ⟨⟨hlt, hresult⟩, rfl⟩
    cases result? <;> simp [move, FunctionDecl.placed_mk, Preamble.placed, Placement.span]
  | true =>
    have hmatch := (Bool.and_eq_true _ _ ▸ hassign.2.symm :
      matchesAt W.left.text "=" s₆.pos = true ∧ _).1
    refine (advance_token_mirrors "=" hmatch (by decide)).bind fun _ s₇ c₇ t₇ h₇ _ =>
      .bind (P := fun body? _ c' => ∃ body, body? = some body ∧ ReadTo body.span c₇ c')
        (.map (hg.expr s₇ c₇ t₇) (fun _ => rfl) fun body _ _ h => ⟨body, rfl, h⟩)
        fun body? s₈ c₈ t₈ _ hbody => ?_
    obtain ⟨body, rfl, hbody⟩ := hbody
    refine .pure ?_ ⟨⟨Nat.lt_trans hlt (hbody.mono h₇.le).lt, hbody.stop_eq⟩, rfl⟩
    cases result? <;> simp [move, FunctionDecl.placed_mk, Preamble.placed, Placement.span]

end Grammar

end PklSyntax
