import PklSyntax.Grammar.Nesting
import PklSyntax.Proofs.Layout.Type
import PklSyntax.Proofs.Moving.Heads
import PklSyntax.Proofs.Moving.String

/-!
# Types in two texts

What is read of types in one text is read in another one that agrees with it on a stretch. A grammar
*mirrors* itself when each of its parsers does; all that is said of productions supposes this of the
grammar for what stands inside them, and that the grammar places what it reads in both texts.

Suffixes, arguments and arrows begin with signs, so they are found in neither text behind the end of
the stretch.

## Main definitions

* `Grammar.Mirrored`: a grammar that mirrors itself in two texts.

## Main statements

* `Grammar.Mirrored.typeRule`: types.
-/

namespace PklSyntax

open PklSyntax.Parser

/-- What the parsers of the grammar read in one text they read in the other one, too. -/
structure Grammar.Mirrored (g : Grammar) (W : Overlap) : Prop where
  exprOpened : ∀ s c t, Mirrors W .loose true (fun _ => true) g.expr g.expr s c t
    fun e s' c' => ReadTo e.span c c' ∧ Opened W.left.text c s' c'
  type : ∀ s c t, Mirrors W .loose true (fun _ => true) g.type g.type s c t
    fun type _ c' => ReadTo type.span c c'
  body : ∀ s c t, Mirrors W .loose true (fun _ => true) g.body g.body s c t
    fun body _ c' => ReadTo body.span c c'
  left : g.Places W.left
  right : g.Places W.right

namespace Grammar

variable {g : Grammar} {W : Overlap} {s t : State} {c : Nat} {b : Bool}

theorem Mirrored.expr (hg : g.Mirrored W) (s : State) (c : Nat) (t : State) :
    Mirrors W .loose true (fun _ => true) g.expr g.expr s c t fun e _ c' => ReadTo e.span c c' :=
  (hg.exprOpened s c t).mono fun _ _ _ _ h => h.1

/-! ### Strings -/

theorem Mirrored.string {mode : Mode} (hg : g.Mirrored W)
    (hstring : stringAt W.left.text s.pos = true) :
    Mirrors W mode b (fun _ => true) g.string g.string s c t fun literal _ c' =>
      ReadTo literal.span c c' :=
  .peel theOptions_looks theOptions_looks (stringLiteral_mirrors
    (fun s c t => (hg.expr s c t).mono fun _ _ _ _ h => h.lt) hstring)

/-- Whether a string begins is asked for only in the stretch. -/
theorem stringAt_eq (h : W.Together false s c t) :
    stringAt W.right.text t.pos = stringAt W.left.text s.pos := by
  have hlo := h.lo_le_pos
  have hle := le_skipWhile W.left.text (· == '#') s.pos
  obtain ⟨hplace, hstop⟩ := Overlap.signs_place (p := (· == '#')) hlo
    (h.inside.imp_left Nat.le_of_lt) fun d hd => by
      rw [beq_iff_eq] at hd
      rw [hd]
      decide
  rw [stringAt, stringAt, h.pos_eq, hplace,
    Overlap.matchesAt_mark (by decide) (by omega) hstop]

theorem Mirrored.sourceString (hg : g.Mirrored W) {keyword : String} :
    Mirrors W .loose b (fun _ => true) (g.sourceString keyword) (g.sourceString keyword) s c t
      fun literal _ c' => ReadTo literal.span c c' := by
  refine .of_lt (fun _ _ _ h _ => h.lt) (skip_mirrors.bind fun _ s₁ c₁ t₁ _ hskip => ?_)
  obtain rfl := hskip.1.eq
  refine .look_inside (fun _ _ _ h _ => h.lt) atString_looks atString_looks stringAt_eq ?_
  refine .guard (fun _ => failExpected_mirrors) fun hstring =>
    (hg.string (by simpa using hstring)).bind fun literal s₂ c₂ t₂ _ hliteral => ?_
  rw [show (move W.shift literal).isConstant = _ from literal.isConstant_placed]
  exact .guard (fun _ => failWith_mirrors rfl rfl fun _ => StringLiteral.span_placed _) fun _ =>
    .pure rfl hliteral

/-! ### Arguments and parentheses -/

/-- Moving over a sign, with its span. -/
theorem takeSign_mirrors {mode : Mode} (hsign : isSign (charAt W.left.text s.pos) = true) :
    Mirrors W mode true (fun _ => true) (takeToken 1) (takeToken 1) s c t fun _ s' c' =>
      c < c' ∧ Arrived s' c' := by
  refine .of_linked fun hlink => .look position_looks position_looks
    (fun h => (h.strict hsign).pos_eq) ?_
  have hlo := hlink.lo_le
  have hle := hlink.stands.le_pos
  refine (advance_sign_mirrors (opensToken_of_isSign hsign)).bind fun _ s₁ c₁ t₁ _ hadv => ?_
  obtain ⟨rfl, rfl, hfresh⟩ := hadv
  refine (spanFrom_mirrors hfresh.sited (by omega) fun _ => rfl).mono fun _ s₂ c₂ _ hspan => ?_
  obtain ⟨-, rfl, rfl⟩ := hspan
  exact ⟨by omega, hfresh⟩

theorem Mirrored.typeArguments (hg : g.Mirrored W) {base : NamedType}
    (hopen : charAt W.left.text s.pos = '<') :
    Mirrors W .loose true (fun _ => true) (g.typeArguments base)
      (g.typeArguments (move W.shift base))
      s c t fun type s' c' => ReadTo type.span c c' ∧ Arrived s' c' := by
  refine (takeSign_mirrors (by rw [hopen]; decide)).bind fun opening s₁ c₁ t₁ _ hopening =>
    (commaList_mirrors (by decide) fun s c t => (hg.type s c t).mono fun _ _ _ _ h => h.lt).bind
      fun args s₂ c₂ t₂ h₂ _ => (expect_mirrors (by decide)).bind fun close s₃ c₃ t₃ _ hclose => ?_
  have hlt := hopening.1
  have hle := h₂.le
  have hlt' := hclose.1.lt
  have hempty : (move W.shift args).isEmpty = args.isEmpty := List.isEmpty_map
  dsimp only
  rw [hempty]
  refine .ite (fun _ => ?_) fun _ => .pure ?_ ⟨⟨by omega, hclose.1.stop_eq⟩, hclose.2⟩
  · refine (report_mirrors rfl fun _ => Placement.span_cover _ _).bind fun _ s₄ c₄ t₄ _ hreport =>
      .pure ?_ ?_
    · simp [move, TypeExpr.placed, NamedType.placed, Placement.span]
    · obtain ⟨rfl, rfl⟩ := hreport
      exact ⟨⟨by omega, hclose.1.stop_eq⟩, hclose.2⟩
  · simp [move, TypeExpr.placed, NamedType.placed, Placement.span]

/-- Whether an arrow stands behind the trivia at the cursor. -/
def arrow? : Parser (Option Unit) := do
  if ← atToken "->" then return some () else return none

theorem arrowResult?_eq (g : Grammar) :
    g.arrowResult? = reading arrow? (fun _ => do
      advance 2
      return some (← g.type)) (return none) := by
  rw [Grammar.arrowResult?, reading, arrow?, atToken]
  simp only [bind_assoc]
  refine bind_congr fun before => bind_congr fun _ => bind_congr fun found => ?_
  cases found <;> simp

theorem arrow?_mirrors :
    Mirrors W .loose true (fun _ => true) arrow? arrow? s c t fun arrow? s' c' =>
      Skipped W.left.text c s' c' ∧ arrow?.isSome = matchesAt W.left.text "->" s'.pos := by
  refine (atToken_mirrors (by decide)).bind fun found s₁ c₁ t₁ _ hfound => ?_
  refine .ite (fun htrue => .pure rfl ⟨hfound.1, ?_⟩) fun hfalse => .pure rfl ⟨hfound.1, ?_⟩
  · rw [← hfound.2, htrue]
    rfl
  · rw [← hfound.2, hfalse]
    rfl

theorem arrow?_yields {ctx : Context} : arrow?.Yields ctx s c fun _ _ _ => True :=
  (atToken_yields "->").bind fun _ _ _ _ _ => .ite (fun _ => .pure trivial) fun _ => .pure trivial

theorem arrow?_run {ctx : Context} {a? : Option Unit} {s' : State}
    (hrun : arrow? ctx s = .ok a? s') :
    s' = s.skipTrivia ctx.text := by
  have hleft : arrow? ctx s =
      (if matchesAt ctx.text "->" (s.skipTrivia ctx.text).pos = true then return some ()
        else return none :
        Parser (Option Unit)) ctx (s.skipTrivia ctx.text) := rfl
  rw [hleft] at hrun
  split at hrun <;> cases hrun <;> rfl

/-- An arrow is looked for also where the stretch ends, where there is none in either text. -/
theorem Mirrored.arrowResult? (hg : g.Mirrored W) :
    Mirrors W .loose true (fun _ => true) g.arrowResult? g.arrowResult? s c t fun result? s' c' =>
      match result? with
      | some result => ReadTo result.span c c'
      | none => s' = s ∧ c' = c := by
  rw [arrowResult?_eq]
  refine reading_mirrors arrow?_mirrors (fun _ s₁ c₁ t₁ h₁ harrow => ?_) (.pure rfl ⟨rfl, rfl⟩)
    fun s₁ c₁ hrun _ harrow hlinked hjoined hope hright => ?_
  · obtain ⟨hskip, harrow⟩ := harrow
    have hle := h₁.le
    refine (advance_token_mirrors "->" harrow.symm (by decide)).bind fun _ s₂ c₂ t₂ h₂ _ =>
      (hg.type s₂ c₂ t₂).bind fun type s₃ c₃ t₃ _ htype => .pure rfl ⟨nofun, ?_⟩
    exact htype.mono (Nat.le_trans hle h₂.le)
  · have hlive := hope.live
    obtain rfl := arrow?_run hrun
    obtain rfl := harrow.1.eq
    obtain ⟨t₁, hrun', -⟩ := hright (hlive.skipTrivia hlinked.stands hlinked.mode_eq)
    exact ⟨t₁, hrun', rewind_of_yields arrow?_yields (hjoined hlive).stands hrun'⟩

theorem Mirrored.parenthesizedType (hg : g.Mirrored W) (hopen : charAt W.left.text s.pos = '(') :
    Mirrors W .loose true (fun _ => true) g.parenthesizedType g.parenthesizedType s c t
      fun type _ c' => ReadTo type.span c c' := by
  have hsign : isSign (charAt W.left.text s.pos) = true := by
    rw [hopen]
    decide
  refine .of_linked fun hlink => .look position_looks position_looks
    (fun h => (h.strict hsign).pos_eq) ?_
  have hlo := Nat.le_trans hlink.lo_le hlink.stands.le_pos
  have hle := hlink.stands.le_pos
  refine (advance_sign_mirrors (opensToken_of_isSign hsign)).bind fun _ s₁ c₁ t₁ _ hadv => ?_
  refine (commaList_mirrors (by decide) fun s c t => (hg.type s c t).mono fun _ _ _ _ h =>
    h.lt).bind
    fun params s₂ c₂ t₂ h₂ _ => (expect_mirrors (by decide)).bind fun close s₃ c₃ t₃ _ hclose =>
      hg.arrowResult?.bind fun result? s₄ c₄ t₄ _ hresult => ?_
  obtain ⟨-, rfl, -⟩ := hadv
  have hle₂ := h₂.le
  have hlt₃ := hclose.1.lt
  cases result? with
  | some result =>
    refine .pure ?_ (hresult.mono (by omega) |> fun h => ⟨h.lt, h.stop_eq⟩)
    simp [move, TypeExpr.placed, Placement.span, Overlap.cast_place hlo]
  | none =>
    obtain ⟨rfl, rfl⟩ := hresult
    rcases params with _ | ⟨type, _ | ⟨_, _⟩⟩
    · exact failExpected_mirrors
    · refine .pure ?_ ⟨by omega, ?_⟩
      · rw [Overlap.cast_place hlo]
        exact type.withSpan_placed ⟨s.pos, close.stop⟩
      · simp [hclose.1.stop_eq]
    · exact failExpected_mirrors

theorem Mirrored.stringType (hg : g.Mirrored W) (hstring : stringAt W.left.text s.pos = true) :
    Mirrors W .loose true (fun _ => true) g.stringType g.stringType s c t
      fun type _ c' => ReadTo type.span c c' := by
  refine (hg.string hstring).bind fun literal s₁ c₁ t₁ _ hliteral => ?_
  rw [show (move W.shift literal).isConstant = _ from literal.isConstant_placed]
  refine .guard (fun _ => failWith_mirrors rfl rfl fun _ => literal.span_placed) fun _ =>
    .pure ?_ hliteral
  simp [move, TypeExpr.placed]

/-- An identifier begins at both cursors, or at none. -/
theorem atIdentifier_eq (h : W.Together false s c t) :
    (charAt W.right.text t.pos == backtick || startsName (charAt W.right.text t.pos)) =
      (charAt W.left.text s.pos == backtick || startsName (charAt W.left.text s.pos)) := by
  rw [h.charAt_eq]

theorem Mirrored.typeAtom (hg : g.Mirrored W) :
    Mirrors W .loose true (fun _ => true) g.typeAtom g.typeAtom s c t
      fun type _ c' => ReadTo type.span c c' := by
  have hQ : ∀ (a : TypeExpr) (s' : State) (c' : Nat), ReadTo a.span c c' → true = true → c < c' :=
    fun _ _ _ h _ => h.lt
  refine .look_inside hQ peek_looks peek_looks (fun h => h.charAt_eq) (.ite (fun hopen =>
    hg.parenthesizedType (by simpa using hopen)) fun _ => ?_)
  refine .look_inside hQ atString_looks atString_looks stringAt_eq (.ite hg.stringType fun _ => ?_)
  refine .look_inside hQ atIdentifier_looks atIdentifier_looks atIdentifier_eq
    (.ite (fun _ => ?_) fun _ => failExpected_mirrors)
  refine qualifiedName_mirrors.bind fun name s₁ c₁ t₁ _ hname => ?_
  refine .peel peek_looks peek_looks (.cond (fun h => h.charAt_beq (by decide)) (fun hopen => ?_)
    fun _ => .pure ?_ hname.1)
  · have hlt := hname.1.lt
    refine (hg.typeArguments (by simpa using hopen)).mono fun type _ _ _ h => ?_
    exact h.1.mono (Nat.le_of_lt hlt)
  · simp [move, TypeExpr.placed]

/-! ### Suffixes and unions -/

/-- Expressions behind the first one, with commas between them. -/
theorem Mirrored.predicates (hg : g.Mirrored W) {first : Expr} :
    Mirrors W .loose true (fun _ => true)
      (Parser.repeating (fun (predicates : Array Expr) => do
        if ← accept "," then return .next (predicates.push (← g.expr))
        else return .done predicates) #[first])
      (Parser.repeating (fun (predicates : Array Expr) => do
        if ← accept "," then return .next (predicates.push (← g.expr))
        else return .done predicates) #[move W.shift first]) s c t fun _ _ _ => True := by
  refine .repeating true (fun _ _ _ => True) (by simp [move]) trivial id
    fun predicates s₁ c₁ t₁ _ _ => ?_
  refine (accept_mirrors (by decide)).bind fun comma s₂ c₂ t₂ _ hcomma => ?_
  cases comma with
  | true =>
    refine (hg.expr s₂ c₂ t₂).bind fun e s₃ c₃ t₃ _ he => .pure ?_ ⟨?_, trivial⟩
    · rw [move_next, push_move]
    · exact Nat.lt_trans hcomma.1 he.lt
  | false => exact .pure rfl ⟨nofun, trivial⟩

theorem Mirrored.constraints (hg : g.Mirrored W) {base : TypeExpr}
    (hopen : charAt W.left.text s.pos = '(') :
    Mirrors W .loose true (fun _ => true) (g.constraints base) (g.constraints (move W.shift base))
      s c t fun type _ c' => ReadTo type.span c c' := by
  refine .of_linked fun hlink => (advance_sign_mirrors (by rw [hopen]; decide)).bind
    fun _ s₁ c₁ t₁ h₁ _ => (hg.expr s₁ c₁ t₁).bind fun first s₂ c₂ t₂ h₂ hfirst =>
      hg.predicates.bind fun predicates s₃ c₃ t₃ h₃ _ => (expect_mirrors (by decide)).bind
        fun close s₄ c₄ t₄ _ hclose => .pure ?_ ⟨?_, hclose.1.stop_eq⟩
  · simp [move, TypeExpr.placed, Placement.span]
  · have := h₁.le
    have := hfirst.lt
    have := h₃.le
    have := hclose.1.lt
    omega

/-- Of two signs that would have to stand one behind the other neither text has the second one where
the stretch ends. -/
theorem charAt_succ_beq (h : W.Together false s c t) {d : Char} (hd : isSign d = true) :
    (charAt W.right.text (t.pos + 1) == d) = (charAt W.left.text (s.pos + 1) == d) := by
  have hlo := h.lo_le_pos
  rw [h.pos_eq, ← Overlap.place_add hlo, Bool.eq_iff_iff, beq_iff_eq, beq_iff_eq]
  exact Overlap.charAt_place_eq hd (by omega) h.inside

/-- The mark of a nullable type stands at both cursors, or at none. -/
theorem nullableAt_eq (h : W.Together true s c t) :
    (charAt W.right.text t.pos == '?' && charAt W.right.text (t.pos + 1) != '?' &&
        charAt W.right.text (t.pos + 1) != '.') =
      (charAt W.left.text s.pos == '?' && charAt W.left.text (s.pos + 1) != '?' &&
        charAt W.left.text (s.pos + 1) != '.') := by
  rw [h.charAt_beq (by decide)]
  cases hmark : charAt W.left.text s.pos == '?' with
  | false => rfl
  | true =>
    rw [beq_iff_eq] at hmark
    have hstrict := h.strict (by rw [hmark]; decide)
    rw [bne, bne, charAt_succ_beq hstrict (by decide), charAt_succ_beq hstrict (by decide)]
    rfl

/-- One more suffix of a type, or none. -/
theorem Mirrored.typeSuffix (hg : g.Mirrored W) {base : TypeExpr} {d : Nat}
    (hbase : ReadTo base.span d c) :
    Mirrors W .loose true (Round.level true fun _ => true) (g.typeSuffix base)
      (g.typeSuffix (move W.shift base)) s c t fun round _ c' =>
        round.Meets (fun type => c < c' ∧ ReadTo type.span d c')
          fun type => ReadTo type.span d c' := by
  refine .peel peek_looks peek_looks (.peel (peekAt_looks 1) (peekAt_looks 1)
    (.cond nullableAt_eq (fun hmark => ?_) fun _ => ?_))
  · simp only [Bool.and_eq_true, beq_iff_eq] at hmark
    refine .of_linked fun hlink => (advance_sign_mirrors (by rw [hmark.1.1]; decide)).bind
      fun _ s₁ c₁ t₁ h₁ hadv => .look position_looks position_looks
        (fun h => h.pos_eq_of_fresh hadv.2.2) (.pure ?_ ?_)
    · have hlo := Nat.le_trans hlink.lo_le h₁.le
      rw [hadv.2.2.1, Overlap.cast_place hlo]
      simp [move, TypeExpr.placed, Placement.span]
    · have hle := hlink.stands.le_pos
      have hlt := hbase.lt
      obtain ⟨-, rfl, hfresh⟩ := hadv
      exact ⟨by omega, by omega, congrArg Int.ofNat hfresh.1⟩
  · refine .cond (fun h => ?_) (fun hopen => ?_) fun _ => .pure rfl hbase
    · rw [h.charAt_beq (by decide)]
      exact congrArg (_ && !·) (isFunctionType_placed base)
    · simp only [Bool.and_eq_true, beq_iff_eq] at hopen
      refine (hg.constraints hopen.1).bind fun type s₁ c₁ t₁ _ htype => .pure rfl ⟨htype.lt, ?_⟩
      exact htype.mono (Nat.le_of_lt hbase.lt)

/-- A sign at the cursor, and the place of the cursor in both texts if it is there. -/
theorem Mirrored.typeSegment (hg : g.Mirrored W) :
    Mirrors W .loose true (fun _ => true) g.typeSegment g.typeSegment s c t
      fun type _ c' => ReadTo type.span c c' := by
  have hQ : ∀ (c₁ : Nat) (a : TypeExpr) (s' : State) (c' : Nat), ReadTo a.span c₁ c' → true = true →
    c₁ < c' := fun _ _ _ _ h _ => h.lt
  refine .of_linked fun hlink => skip_mirrors.bind fun _ s₁ c₁ t₁ h₁ hskip => ?_
  obtain rfl := hskip.1.eq
  have hlo := hlink.lo_le
  have hle := h₁.stands.le_pos
  refine .look_inside (hQ c₁) position_looks position_looks (fun h => h.pos_eq) ?_
  refine .look_inside (hQ c₁) peek_looks peek_looks (fun h => h.charAt_eq) ?_
  -- The type behind the mark, with its suffixes.
  have hrest : ∀ isDefault s₂ c₂ t₂, c₁ ≤ c₂ →
      Mirrors W .loose true (fun _ => true) (do
        let base ← g.typeAtom
        let type ← repeating g.typeSuffix base
        if isDefault = true then return TypeExpr.default type ⟨s₁.pos, type.span.stop⟩
          else return type)
      (do
        let base ← g.typeAtom
        let type ← repeating g.typeSuffix base
        if isDefault = true then return TypeExpr.default type ⟨W.place s₁.pos, type.span.stop⟩
        else return type) s₂ c₂ t₂ fun type _ c' => ReadTo type.span c₁ c' := by
    intro isDefault s₂ c₂ t₂ hle₂
    refine hg.typeAtom.bind fun base s₃ c₃ t₃ _ hbase => ?_
    refine .bind (P := fun type _ c' => ReadTo type.span c₂ c')
      (.repeating true (fun type _ c' => ReadTo type.span c₂ c') rfl hbase id
        fun type s₄ c₄ t₄ _ htype => (hg.typeSuffix htype).mono fun round _ _ _ h => ?_)
      fun type s₄ c₄ t₄ _ htype => .ite (fun _ => .pure ?_ ⟨(htype.mono hle₂).lt, htype.stop_eq⟩)
        fun _ =>
        .pure rfl (htype.mono hle₂)
    · cases round with
      | next type => exact h
      | done type => exact ⟨nofun, h⟩
    · simp [move, TypeExpr.placed, Placement.span, Overlap.cast_place (Nat.le_trans hlo hle)]
  refine .ite (fun hmark => ?_) fun _ => hrest _ s₁ c₁ t₁ (Nat.le_refl _)
  rw [beq_iff_eq] at hmark
  refine (advance_sign_mirrors (by rw [hmark]; decide)).bind fun _ s₂ c₂ t₂ h₂ _ =>
    skip_mirrors.bind fun _ s₃ c₃ t₃ h₃ _ => hrest _ s₃ c₃ t₃ (Nat.le_trans h₂.le h₃.le)

theorem atUnionBar_mirrors :
    Mirrors W .loose true (fun _ => true) atUnionBar atUnionBar s c t fun found s' c' =>
      Skipped W.left.text c s' c' ∧ (found = true → charAt W.left.text s'.pos = '|') := by
  refine (atToken_mirrors (by decide)).bind fun bar s₁ c₁ t₁ _ hbar => ?_
  refine .ite (fun _ => .pure rfl ⟨hbar.1, nofun⟩) fun hfound => ?_
  refine .look (startsWith_looks _) (startsWith_looks _) (fun h => h.matchesAt_mark (by decide))
    (.ite (fun _ => .pure rfl ⟨hbar.1, nofun⟩) fun _ => ?_)
  refine .look (startsWith_looks _) (startsWith_looks _) (fun h => h.matchesAt_mark (by decide))
    (.pure rfl ⟨hbar.1, fun _ => ?_⟩)
  have hmatch : matchesAt W.left.text "|" s₁.pos = true := by
    rw [← hbar.2]
    simpa using hfound
  simpa using charAt_of_matchesAt (n := 0) (c := '|') hmatch (by decide)

theorem Mirrored.typeRule (hg : g.Mirrored W) :
    Mirrors W .loose true (fun _ => true) g.typeRule g.typeRule s c t
      fun type _ c' => ReadTo type.span c c' := by
  refine .of_linked fun hlink => skip_mirrors.bind fun _ s₁ c₁ t₁ h₁ hskip => ?_
  obtain rfl := hskip.1.eq
  have hlo := Nat.le_trans hlink.lo_le h₁.stands.le_pos
  refine .look_inside (fun _ _ _ h _ => ReadTo.lt h) position_looks position_looks
    (fun h => h.pos_eq) ?_
  refine hg.typeSegment.bind fun first s₂ c₂ t₂ _ hfirst => ?_
  refine .bind (P := fun (members : Array TypeExpr) _ c' =>
      members.toList ≠ [] ∧ ReadTo (members.back?.getD first).span c₁ c')
    (.repeating true (fun (members : Array TypeExpr) _ c' =>
        members.toList ≠ [] ∧ ReadTo (members.back?.getD first).span c₁ c') (by simp [move])
      ⟨by simp, by simpa using hfirst⟩ id fun members s₃ c₃ t₃ h₃ hmembers => ?_)
    fun members s₃ c₃ t₃ _ hmembers => ?_
  · refine atUnionBar_mirrors.bind fun bar s₄ c₄ t₄ h₄ hbar => .ite (fun hfound => ?_) fun _ =>
      .pure rfl ⟨(fun h => by cases h), hbar.1.eq ▸ hmembers⟩
    refine (advance_sign_mirrors (by rw [hbar.2 hfound]; decide)).bind fun _ s₅ c₅ t₅ h₅ _ =>
      hg.typeSegment.bind fun member s₆ c₆ t₆ h₆ hmember => .pure ?_ ⟨?_, by simp, ?_⟩
    · rw [move_next, push_move]
    · have := h₄.le
      have := h₅.le
      have := hmember.lt
      omega
    · simp only [Array.back?_push, Option.getD_some]
      have := h₄.le
      have := h₅.le
      have := hmembers.2.lt
      exact hmember.mono (by omega)
  · obtain ⟨hne, hread⟩ := hmembers
    have hlist : (move W.shift members).toList = members.toList.map (TypeExpr.placed W.shift) := by
      simp [move]
    rw [hlist]
    rcases hmembers : members.toList with _ | ⟨type, _ | ⟨second, others⟩⟩
    · exact absurd hmembers hne
    · refine .pure rfl ?_
      have hback : members.back? = some type := by
        rw [← Array.getLast?_toList, hmembers]
        rfl
      simpa [hback] using hread
    · refine .pure ?_ ⟨hread.lt, hread.stop_eq⟩
      show TypeExpr.union (((type :: second :: others).map (TypeExpr.placed W.shift)).flatMap
        unionMembers) ⟨_, ((move W.shift members).back?.getD (move W.shift first)).span.stop⟩ = _
      rw [back?_getD_move, List.flatMap_map, Overlap.cast_place hlo]
      simp only [unionMembers_placed, move, TypeExpr.placed, Placement.span, TypeExpr.span_placed,
        Overlap.offset_shift,
        List.map_flatMap]

end Grammar

end PklSyntax
