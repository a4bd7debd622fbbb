import PklSyntax.Proofs.Layout.Object
import PklSyntax.Proofs.Moving.Declaration

/-!
# Object bodies in two texts

What stands between braces goes on in the stretch in any case, since the closing brace lies in it.
Still it has to be shown that the two parses see the same when they read ahead for the name of a
property, as that may go past the end of an element. What is read in the end has gone past it, too.

## Main definitions

* `propertyHeadAt`, `fieldAmendAt`: what is found by reading ahead.

## Main statements

* `Grammar.Mirrored.namedMember`: properties, functions and elements.
* `Grammar.Mirrored.objectMember`, `Grammar.Mirrored.bodyRule`.
* `Grammar.mirrored_full`: the grammar in which texts are read.
-/

namespace PklSyntax

open PklSyntax.Parser

/-! ### Reading ahead -/

/-- What belongs to a property stands at the offset. -/
def propertySign (text : Array Char) (i : Nat) : Bool :=
  charAt text i == '\x7b' || charAt text i == ':' ||
    (charAt text i == '=' && charAt text (i + 1) != '=')

/-- The name of a property stands at the offset, with what belongs to a property behind it. -/
def propertyHeadAt (text : Array Char) (i : Nat) : Bool :=
  ((nameStop? text i).filter fun e => !(nameAt text i e).isKeyword).any fun e =>
    propertySign text (skipEnd text e)

/-- The amendment of an element of `this` stands at the offset. -/
def fieldAmendAt (text : Array Char) (i : Nat) : Bool :=
  matchesAt text "(" i && (wordAt text "this" (skipEnd text (i + 1)) &&
    matchesAt text "[" (skipEnd text (skipEnd text (i + 1) + 4)))

namespace Parser

variable {ctx : Context} {s : State} {c : Nat}

theorem propertyName?_reads (h : Loosely ctx.text s c) :
    propertyName?.Reads ctx s fun name? s' =>
      match (nameStop? ctx.text s.pos).filter fun e => !(nameAt ctx.text s.pos e).isKeyword with
      | some e => name?.isSome = true ∧ Loosely ctx.text s' e
      | none => name? = none := by
  cases hstop : nameStop? ctx.text s.pos with
  | none =>
    refine .bind (P := fun name? _ => name?.join = none) ?_ fun name? _ hnone => .pure ?_
    · rcases identifier?_run_none hstop with hrun | ⟨-, s', hrun, -⟩
      · exact ⟨some none, s, by rw [attempt, hrun], rfl⟩
      · exact ⟨none, s', by rw [attempt, hrun], rfl⟩
    · simp [hnone]
  | some e =>
    refine .bind (P := fun name? s' => name? = some (some (nameAt ctx.text s.pos e)) ∧
      Loosely ctx.text s' e) ⟨_, { s with pos := e }, by rw [attempt, identifier?_run hstop], rfl,
        h.at_pos (lt_nameStop? hstop) (nameStop?_le_size hstop)⟩ fun name? s' hname => .pure ?_
    obtain ⟨rfl, hloose⟩ := hname
    rw [Option.join_some, Option.filter_some, Option.filter_some]
    cases (nameAt ctx.text s.pos e).isKeyword with
    | true => rfl
    | false => exact ⟨rfl, hloose⟩

/-- The state is as before when the name of a property has been looked for. -/
theorem atPropertyHead_run (h : Loosely ctx.text s c) :
    atPropertyHead ctx s = .ok (propertyHeadAt ctx.text s.pos) s := by
  have hreads :
      atPropertyHead.Reads ctx s fun found _ => found = propertyHeadAt ctx.text s.pos := by
    refine .look mark_looks ((propertyName?_reads h).bind fun name? s₁ hname => ?_)
    rw [propertyHeadAt]
    cases hstop : (nameStop? ctx.text s.pos).filter fun e =>
      !(nameAt ctx.text s.pos e).isKeyword with
    | none =>
      rw [hstop] at hname
      obtain rfl := hname
      exact .of_run (a := ()) rfl (.pure rfl)
    | some e =>
      rw [hstop] at hname
      obtain ⟨hsome, hloose⟩ := hname
      obtain ⟨name, rfl⟩ := Option.isSome_iff_exists.1 hsome
      refine hloose.skip.bind fun _ s₂ hskip => .look peek_looks (.look (peekAt_looks 1)
        (.of_run (a := ()) rfl (.pure ?_)))
      rw [hskip.2]
      rfl
  obtain ⟨found, s', hrun, rfl⟩ := hreads
  have hstays := Grammar.atPropertyHead_yields h.stands
  rw [EndsFrom, hrun] at hstays
  obtain ⟨c', -, rfl, -⟩ := hstays
  exact hrun

/-- The state is as before when the amendment of an element has been looked for. -/
theorem atFieldAmend_run (h : Loosely ctx.text s c) :
    atFieldAmend ctx s = .ok (fieldAmendAt ctx.text s.pos) s := by
  have hreads : atFieldAmend.Reads ctx s fun found _ => found = fieldAmendAt ctx.text s.pos := by
    rw [fieldAmendAt]
    refine .look (startsWith_looks _) ?_
    cases hopen : matchesAt ctx.text "(" s.pos with
    | false => exact .pure rfl
    | true =>
      have hsize := add_length_le_of_matchesAt hopen (by decide)
      refine .look mark_looks ((h.advance Nat.one_pos hsize).bind fun _ s₁ hadv =>
        (hadv.1.acceptKeyword "this" (by decide)).bind fun found s₂ hfound => ?_)
      obtain ⟨hfound, hloose⟩ := hfound
      rw [← hfound]
      cases found with
      | false => exact .of_run (a := false) rfl (.of_run (a := ()) rfl (.pure rfl))
      | true =>
        refine (Loosely.atToken hloose "[").bind fun bracket s₃ hbracket =>
          .of_run (a := ()) rfl (.pure ?_)
        rw [hbracket.1]
        rfl
  obtain ⟨found, s', hrun, rfl⟩ := hreads
  have hstays := Grammar.atFieldAmend_yields h.stands
  rw [EndsFrom, hrun] at hstays
  obtain ⟨c', -, rfl, -⟩ := hstays
  exact hrun

end Parser


namespace Overlap

variable {W : Overlap} {i o c' : Nat} {s' : State}

/-! ### What is found in two texts -/

theorem propertySign_place (hlo : W.lo ≤ i) (hi : W.Inside i) :
    propertySign W.right.text (W.place i) = propertySign W.left.text i := by
  rw [propertySign, propertySign, charAt_place hlo hi]
  cases hassign : charAt W.left.text i == '=' with
  | false => rfl
  | true =>
    rw [beq_iff_eq] at hassign
    rw [← place_add hlo, charAt_place (by omega) (inside_succ hi (by rw [hassign]; decide))]

namespace Heading

theorem of_whole (hw : W.whole = true) : W.Heading o :=
  ⟨.inr hw, fun _ _ => hw, fun _ _ _ => .inr hw⟩

/-- The beginning of an expression that ends in the stretch. -/
theorem of_opened (h : Opened W.left.text o s' c') (hlive : W.Live false s' c')
    (hin : W.Inside (skipEnd W.left.text o)) : W.Heading o where
  inside := hin
  quoted := fun hquote hnone => absurd hnone (h.quoted hquote)
  name := fun e he hword => hlive.inside_via (h.name e he hword).1

/-- A name that stands in front of something that is read. -/
theorem of_name {e : Nat} (h : nameStop? W.left.text (skipEnd W.left.text o) = some e)
    (hvia : Via W.left.text e s' c') (hlive : W.Live false s' c')
    (hin : W.Inside (skipEnd W.left.text o)) : W.Heading o where
  inside := hin
  quoted := fun _ hnone => by
    rw [h] at hnone
    cases hnone
  name := fun e' he' _ => by
    rw [h] at he'
    cases he'
    exact hlive.inside_via hvia

theorem propertyHeadAt_eq (h : W.Heading o) (hlo : W.lo ≤ o) :
    propertyHeadAt W.right.text (skipEnd W.right.text (W.place o)) =
      propertyHeadAt W.left.text (skipEnd W.left.text o) := by
  rw [propertyHeadAt, propertyHeadAt, h.nameStop?_eq hlo]
  cases hname : nameStop? W.left.text (skipEnd W.left.text o) with
  | none => rfl
  | some e =>
    rw [Option.map_some, Option.filter_some, Option.filter_some, h.nameAt_eq hlo hname]
    show Option.any _ (if (!(nameAt W.left.text (skipEnd W.left.text o) e).isKeyword) = true then _
      else _) = _
    cases hkeyword : (nameAt W.left.text (skipEnd W.left.text o) e).isKeyword with
    | true => rfl
    | false =>
      have hin := h.name e hname (wordOf_not_construct hname hkeyword)
      have hlt := lt_nameStop? hname
      have hle := @le_skipEnd W.left.text o
      have hle' := @le_skipEnd W.left.text e
      show propertySign _ (skipEnd _ (W.place e)) = propertySign _ _
      rw [skipEnd_place (by omega) hin, propertySign_place (by omega) hin]

end Heading

/-- A parse that has read a parenthesis has gone on behind it, and also behind a `this`. -/
def BehindParen (text : Array Char) (i : Nat) (s' : State) (c' : Nat) : Prop :=
  charAt text i = '(' → Via text (i + 1) s' c' ∧
    (wordAt text "this" (skipEnd text (i + 1)) = true →
      Via text (skipEnd text (i + 1) + 4) s' c')

theorem fieldAmendAt_place (hlo : W.lo ≤ i) (hi : W.Inside i)
    (hbehind : charAt W.left.text i = '(' → W.Inside (skipEnd W.left.text (i + 1)) ∧
      (wordAt W.left.text "this" (skipEnd W.left.text (i + 1)) = true →
        W.Inside (skipEnd W.left.text (skipEnd W.left.text (i + 1) + 4)))) :
    fieldAmendAt W.right.text (W.place i) = fieldAmendAt W.left.text i := by
  rw [fieldAmendAt, fieldAmendAt, matchesAt_place (by decide) hlo hi]
  cases hopen : matchesAt W.left.text "(" i with
  | false => rfl
  | true =>
    have hchar := charAt_of_matchesAt (n := 0) (c := '(') hopen (by decide)
    rw [Nat.add_zero] at hchar
    obtain ⟨hin, hthis⟩ := hbehind hchar
    have hle := @le_skipEnd W.left.text (i + 1)
    rw [← place_add hlo, skipEnd_place (by omega) hin, wordAt_place (by decide) (by omega) hin]
    cases hword : wordAt W.left.text "this" (skipEnd W.left.text (i + 1)) with
    | false => rfl
    | true =>
      have hin' := hthis hword
      have hle' := @le_skipEnd W.left.text (skipEnd W.left.text (i + 1) + 4)
      rw [← place_add (by omega), skipEnd_place (by omega) hin',
        matchesAt_place (by decide) (by omega) hin']

end Overlap

namespace Parser

/-- A keyword that has to stand here, and where it ends. -/
theorem expectKeyword_at_mirrors {W : Overlap} {s t : State} {c : Nat} {b : Bool} {word : String}
    (hword : isName word = true) :
    Mirrors W .loose b (fun _ => true) (expectKeyword word) (expectKeyword word) s c t
      fun _ _ c' => c < c' ∧ c' = skipEnd W.left.text c + word.length := by
  refine .of_linked fun hlink => (expectKeyword_mirrors hword).with_run.mono fun _ s' c' _ h =>
    ⟨h.2.1, ?_⟩
  obtain ⟨hrun, -, harrived⟩ := h
  have hloose : Loosely W.left.text s c := ⟨hlink.stands, hlink.mode_eq⟩
  obtain ⟨found, s₁, hrun', -, hfound⟩ := hloose.acceptKeyword word (ne_empty_of_isName hword)
  rw [expectKeyword, bind_apply, hrun'] at hrun
  cases found with
  | true =>
    cases hrun
    exact harrived.eq_of_stands hfound.stands
  | false =>
    obtain ⟨s₂, hfails, -⟩ : (failExpected ("'" ++ word ++ "'") : Parser Unit).Fails W.left s₁ :=
      failExpected_fails _ hfound.mode
    have hrun : (failExpected ("'" ++ word ++ "'") : Parser Unit) W.left s₁ = .ok () s' := hrun
    rw [hfails] at hrun
    cases hrun

end Parser

namespace Grammar

variable {g : Grammar} {W : Overlap} {s t : State} {c : Nat} {b : Bool}

/-! ### Entries and elements -/

theorem Mirrored.entryValue (hg : g.Mirrored W) :
    Mirrors W .loose true (fun _ => true) g.entryValue g.entryValue s c t fun value _ c' =>
      ReadTo value.span c c' := by
  refine atAssign_mirrors.bind fun assign s₁ c₁ t₁ _ hassign => ?_
  obtain rfl := hassign.1.eq
  cases assign with
  | true =>
    have hmatch := (Bool.and_eq_true _ _ ▸ hassign.2.symm :
      matchesAt W.left.text "=" s₁.pos = true ∧ _).1
    exact (advance_token_mirrors "=" hmatch (by decide)).bind fun _ s₂ c₂ t₂ h₂ _ =>
      (hg.expr s₂ c₂ t₂).bind fun value s₃ c₃ t₃ _ hvalue =>
        .pure (by simp [move, EntryValue.placed])
        (hvalue.mono h₂.le)
  | false =>
    refine (atToken_mirrors (by decide)).bind fun found s₂ c₂ t₂ _ hfound => ?_
    obtain rfl := hfound.1.eq
    exact .ite (fun _ => hg.objectForm.bind fun form s₃ c₃ t₃ _ hform =>
      .pure (by simp [move, EntryValue.placed]) hform) fun _ => failExpected_mirrors

/-- An entry that begins with a token of its own, and whose key is followed by another one. -/
theorem Mirrored.entry (hg : g.Mirrored W) {opening close : String}
    (hopening : matchesAt W.left.text opening s.pos = true)
    (hopens : opening.toList.head?.any opensToken = true) (hclose : isMark close = true)
    {member : Expr → EntryValue → Span → ObjectMember}
    (hplaced : ∀ key value span, member (key.placed W.shift) (value.placed W.shift)
      (W.shift.span span) = (member key value span).placed W.shift) :
    let entry : Parser ObjectMember := do
      let start ← position
      advance opening.length
      let key ← g.expr
      let _ ← expect close
      let value ← g.entryValue
      return member key value ⟨start, value.span.stop⟩
    Mirrors W .loose b (fun _ => false) entry entry s c t fun _ _ c' => c < c' := by
  refine .of_linked fun hlink => .look_within position_looks position_looks (fun h => h.pos_eq) ?_
  have hlo := Nat.le_trans hlink.lo_le hlink.stands.le_pos
  refine (advance_token_mirrors opening hopening hopens).bind fun _ s₁ c₁ t₁ h₁ _ =>
    (hg.expr s₁ c₁ t₁).bind fun key s₂ c₂ t₂ _ hkey => (expect_mirrors hclose).bind
      fun _ s₃ c₃ t₃ h₃ _ => hg.entryValue.bind fun value s₄ c₄ t₄ h₄ _ => .pure_of ?_ ?_ nofun
  · show member (key.placed W.shift) (value.placed W.shift) _ = (member key value _).placed W.shift
    rw [← hplaced]
    simp [Placement.span, move, Overlap.cast_place hlo]
  · have := h₁.le
    have := hkey.lt
    have := h₃.le
    have := h₄.le
    omega

theorem Mirrored.mappingEntry (hg : g.Mirrored W)
    (hopening : matchesAt W.left.text "[" s.pos = true) :
    Mirrors W .loose b (fun _ => false) g.mappingEntry g.mappingEntry s c t fun _ _ c' => c < c' :=
  hg.entry hopening (by decide) (by decide) fun _ _ _ => by simp [ObjectMember.placed]

theorem Mirrored.predicateEntry (hg : g.Mirrored W)
    (hopening : matchesAt W.left.text "[[" s.pos = true) :
    Mirrors W .loose b (fun _ => false) g.predicateEntry g.predicateEntry s c t
      fun _ _ c' => c < c' :=
  hg.entry hopening (by decide) (by decide) fun _ _ _ => by simp [ObjectMember.placed]

theorem Mirrored.spread (hg : g.Mirrored W) (hdots : matchesAt W.left.text "..." s.pos = true) :
    Mirrors W .loose b (fun _ => false) g.spread g.spread s c t fun _ _ c' => c < c' := by
  refine .of_linked fun hlink => .look_within position_looks position_looks (fun h => h.pos_eq) ?_
  have hlo := Nat.le_trans hlink.lo_le hlink.stands.le_pos
  refine (advance_token_mirrors "..." hdots (by decide)).bind fun _ s₁ c₁ t₁ h₁ _ =>
    .look_within peek_looks peek_looks (fun h => h.charAt_eq) ?_
  dsimp only
  refine .option (P := fun _ _ _ => True) () rfl (fun hmark => ?_) (fun _ => trivial)
    fun _ s₂ c₂ t₂ h₂ _ => (hg.expr s₂ c₂ t₂).bind fun e s₃ c₃ t₃ _ he => .pure_of ?_ ?_ nofun
  · rw [beq_iff_eq] at hmark
    exact (advance_sign_mirrors (by rw [hmark]; decide)).mono fun _ _ _ _ _ => trivial
  · simp [move, ObjectMember.placed, Placement.span, Overlap.cast_place hlo]
  · have := h₁.le
    have := h₂.le
    have := he.lt
    omega

/-- Behind `this` in the amendment of an element the parse goes on. -/
theorem Mirrored.fieldAmend (hg : g.Mirrored W) (hopen : matchesAt W.left.text "(" s.pos = true) :
    Mirrors W .loose b (fun _ => false) g.fieldAmend g.fieldAmend s c t fun _ s' c' =>
      c < c' ∧ Overlap.BehindParen W.left.text s.pos s' c' := by
  refine .of_linked fun hlink => .look_within position_looks position_looks (fun h => h.pos_eq) ?_
  have hlo := Nat.le_trans hlink.lo_le hlink.stands.le_pos
  refine (advance_token_mirrors "(" hopen (by decide)).bind fun _ s₁ c₁ t₁ h₁ hadv =>
    (expectKeyword_at_mirrors (by decide)).bind fun _ s₂ c₂ t₂ h₂ hthis =>
      (expect_mirrors (by decide)).bind fun _ s₃ c₃ t₃ h₃ _ =>
        (hg.expr s₃ c₃ t₃).bind fun index s₄ c₄ t₄ h₄ _ =>
          (expect_mirrors (by decide)).bind fun _ s₅ c₅ t₅ h₅ _ =>
            (expect_mirrors (by decide)).bind fun _ s₆ c₆ t₆ h₆ _ =>
              (hg.body s₆ c₆ t₆).bind fun body s₇ c₇ t₇ h₇ hbody =>
                .pure_of ?_ ⟨?_, fun _ => ?_⟩ nofun
  · simp [move, ObjectMember.placed, Placement.span, Overlap.cast_place hlo]
  · have := (h₁.trans (h₂.trans (h₃.trans (h₄.trans (h₅.trans h₆))))).le
    have := hbody.lt
    omega
  · obtain ⟨-, rfl, -⟩ := hadv
    have hmode := h₁.mode_eq.trans hlink.mode_eq
    have hon := h₃.trans (h₄.trans (h₅.trans (h₆.trans h₇)))
    refine ⟨⟨s₁, hmode, h₂.trans hon⟩, fun _ => ⟨s₂, h₂.mode_eq.trans hmode, ?_⟩⟩
    exact hthis.2 ▸ hon

/-! ### Generators -/

theorem Mirrored.whenGenerator (hg : g.Mirrored W)
    (hword : wordAt W.left.text "when" s.pos = true) :
    Mirrors W .loose b (fun _ => false) g.whenGenerator g.whenGenerator s c t
      fun _ _ c' => c < c' := by
  refine .of_linked fun hlink => .look_within position_looks position_looks (fun h => h.pos_eq) ?_
  have hlo := Nat.le_trans hlink.lo_le hlink.stands.le_pos
  refine (advance_word_mirrors "when" (by decide) hword).bind fun _ s₁ c₁ t₁ h₁ _ =>
    (expect_mirrors (by decide)).bind fun _ s₂ c₂ t₂ h₂ _ =>
      (hg.expr s₂ c₂ t₂).bind fun condition s₃ c₃ t₃ h₃ _ =>
        (expect_mirrors (by decide)).bind fun _ s₄ c₄ t₄ h₄ _ =>
          (hg.body s₄ c₄ t₄).bind fun thenBody s₅ c₅ t₅ h₅ hbody =>
            .bind_level (acceptKeyword_inner_mirrors (by decide)) fun found s₆ c₆ t₆ h₆ _ => ?_
  have := (h₁.trans (h₂.trans (h₃.trans h₄))).le
  have := hbody.lt
  have := h₆.le
  cases found with
  | true =>
    refine .bind (P := fun _ _ _ => True) (.map (hg.body s₆ c₆ t₆) (fun _ => rfl)
      fun _ _ _ _ => trivial) fun elseBody? s₇ c₇ t₇ h₇ _ =>
        .pure_of ?_ ⟨(fun h => by cases h), ?_⟩ fun h => by cases h
    · cases elseBody? <;> simp [move, ObjectMember.placed, Placement.span, Overlap.cast_place hlo]
    · have := h₇.le
      omega
  | false =>
    refine .pure_of ?_ ⟨(fun _ h => by cases h), by omega⟩ fun h => by cases h
    simp [move, ObjectMember.placed, Placement.span, Overlap.cast_place hlo]

theorem loopNames_mirrors :
    Mirrors W .loose b (fun _ => true) loopNames loopNames s c t fun _ _ c' => c < c' := by
  refine expectName_mirrors.bind fun first s₁ c₁ t₁ _ hfirst => (accept_mirrors (by decide)).bind
    fun comma s₂ c₂ t₂ h₂ _ => ?_
  have := hfirst.1.lt
  have := h₂.le
  refine .ite (fun _ => expectName_mirrors.bind fun second s₃ c₃ t₃ h₃ _ => .pure rfl ?_)
    fun _ => .pure rfl (by omega)
  have := h₃.le
  omega

theorem Mirrored.forGenerator (hg : g.Mirrored W) (hword : wordAt W.left.text "for" s.pos = true) :
    Mirrors W .loose b (fun _ => false) g.forGenerator g.forGenerator s c t
      fun _ _ c' => c < c' := by
  refine .of_linked fun hlink => .look_within position_looks position_looks (fun h => h.pos_eq) ?_
  have hlo := Nat.le_trans hlink.lo_le hlink.stands.le_pos
  refine (advance_word_mirrors "for" (by decide) hword).bind fun _ s₁ c₁ t₁ h₁ _ =>
    (expect_mirrors (by decide)).bind fun _ s₂ c₂ t₂ h₂ _ =>
      loopNames_mirrors.bind fun names s₃ c₃ t₃ h₃ _ =>
        (expectKeyword_mirrors (by decide)).bind fun _ s₄ c₄ t₄ h₄ _ =>
          (hg.expr s₄ c₄ t₄).bind fun iterable s₅ c₅ t₅ h₅ _ =>
            (expect_mirrors (by decide)).bind fun _ s₆ c₆ t₆ h₆ _ =>
              (hg.body s₆ c₆ t₆).bind fun body s₇ c₇ t₇ h₇ hbody => .pure_of ?_ ?_ nofun
  · simp [move, ObjectMember.placed, Placement.span, Overlap.cast_place hlo]
  · have := (h₁.trans (h₂.trans (h₃.trans (h₄.trans (h₅.trans h₆))))).le
    have := hbody.lt
    omega

/-! ### Properties and functions -/

/-- The property or function whose beginning has been read, when the rest of it stands at the
cursor. -/
def propertyAfter (g : Grammar) (text : Array Char) (before : Preamble) (i : Nat) :
    Parser (Option ObjectMember) := do
  if wordAt text "function" i then return some (.function (← g.functionRule before))
  else if !before.annotations.isEmpty || !before.modifiers.isEmpty || propertyHeadAt text i then
    return some (.property (← g.propertyRule before))
  else return none

/-- The property or function whose beginning has been read, if the rest of it stands at the
cursor. -/
def propertyRest? (g : Grammar) (before : Preamble) : Parser (Option ObjectMember) := do
  if ← atWord "function" then return some (.function (← g.functionRule before))
  else if !before.annotations.isEmpty || !before.modifiers.isEmpty || (← atPropertyHead) then
    return some (.property (← g.propertyRule before))
  else return none

/-- The property or function at the cursor, if there is one. Otherwise it is left open how much has
been read. -/
def propertyAhead? (g : Grammar) : Parser (Option ObjectMember) := do
  let before ← g.preamble
  g.propertyRest? before

/-- A member that is a property, a function or an element, whichever is found by reading ahead. -/
theorem namedMember_eq (g : Grammar) :
    g.namedMember = reading g.propertyAhead? (fun member => return member) (do
      let expr ← g.expr
      return .element expr expr.span) := by
  rw [namedMember, propertyMember?, reading, propertyAhead?]
  simp only [bind_assoc, propertyRest?]
  refine bind_congr fun start => bind_congr fun before => bind_congr fun found => ?_
  cases found with
  | true => simp
  | false =>
    simp only [Bool.false_eq_true, if_false, bind_assoc]
    refine bind_congr fun head => ?_
    split <;> simp

theorem propertyRest?_apply {ctx : Context} {before : Preamble} (h : Loosely ctx.text s c) :
    g.propertyRest? before ctx s = g.propertyAfter ctx.text before s.pos ctx s := by
  rw [propertyRest?, (atWord_looks _).bind_apply, propertyAfter]
  cases wordAt ctx.text "function" s.pos with
  | true => rfl
  | false =>
    simp only [Bool.false_eq_true, if_false]
    rw [bind_apply, atPropertyHead_run h]

theorem propertyAhead?_apply {ctx : Context} {before : Preamble} {s₁ : State}
    (hrun : g.preamble ctx s = .ok before s₁) (h : Loosely ctx.text s₁ c) :
    g.propertyAhead? ctx s = g.propertyAfter ctx.text before s₁.pos ctx s₁ := by
  rw [propertyAhead?, bind_apply, hrun]
  exact propertyRest?_apply h

theorem propertyAhead?_yields {ctx : Context} (hg : g.Places ctx) :
    g.propertyAhead?.Yields ctx s c fun _ _ _ => True := by
  refine hg.preamble.bind fun before s₁ c₁ _ hbefore => .look (atWord_looks _)
    (.ite (fun hword => ?_)
    fun _ => atPropertyHead_yields.bind fun head s₂ c₂ _ hhead => .ite (fun _ => ?_) fun _ =>
      .pure trivial)
  · exact (hg.functionRule hbefore.1 (Nat.le_refl _) hword).bind fun _ _ _ _ _ => .pure trivial
  · obtain ⟨rfl, rfl⟩ := hhead
    exact (hg.propertyRule hbefore.1 (Nat.le_refl _)).bind fun _ _ _ _ _ => .pure trivial

/-- When nothing is found, nothing stood at the cursor. -/
theorem propertyAfter_none {ctx : Context} {before : Preamble} {text : Array Char} {i : Nat}
    {s' : State} (h : g.propertyAfter text before i ctx s = .ok none s') :
    wordAt text "function" i = false ∧ before.annotations = [] ∧ before.modifiers.isEmpty = true ∧
      propertyHeadAt text i = false := by
  rw [propertyAfter] at h
  split at h
  · rw [bind_apply] at h
    cases hrun : g.functionRule before ctx s <;> rw [hrun] at h <;> cases h
  · rename_i hword
    split at h
    · rw [bind_apply] at h
      cases hrun : g.propertyRule before ctx s <;> rw [hrun] at h <;> cases h
    · rename_i hhead
      exact ⟨by simpa using hword, by simpa [and_assoc] using hhead⟩

/-- The rest of a property or function that is found in the left text. -/
theorem Mirrored.propertyAfter (hg : g.Mirrored W) {before : Preamble}
    (hend : s.triviaEnd = some s.pos)
    (hsome : ∀ s₁, g.propertyAfter W.left.text before s.pos W.left s ≠ .ok none s₁) :
    Mirrors W .loose true (fun _ => false) (g.propertyAfter W.left.text before s.pos)
      (g.propertyAfter W.right.text (move W.shift before) t.pos) s c t fun _ _ c' =>
        c < c' ∧ beginsDeclaration (charAt W.left.text s.pos) = true := by
  refine .of_linked fun hlink => ?_
  have hpos := (hlink.stands.of_skipped hend).1
  refine .cond_within (fun h => h.wordAt_eq (by decide)) (fun hword => ?_) fun hword => ?_
  · refine (hg.functionRule hword).bind fun decl s₁ c₁ t₁ _ hdecl =>
      .pure_of (by simp [move, ObjectMember.placed]) ⟨hdecl.1.lt, ?_⟩ nofun
    have hchar := charAt_of_matchesAt (n := 0) (c := 'f') (matchesAt_of_wordAt hword) (by decide)
    rw [Nat.add_zero] at hchar
    rw [hchar]
    decide
  have hfound : (!before.annotations.isEmpty || !before.modifiers.isEmpty ||
      propertyHeadAt W.left.text s.pos) = true := by
    rw [← Bool.not_eq_false]
    intro hnot
    refine hsome s ?_
    rw [Grammar.propertyAfter, hword, hnot]
    rfl
  rw [hfound, if_pos rfl]
  have hrule : Mirrors W .loose true (fun _ => false)
      (do return some (ObjectMember.property (← g.propertyRule before)))
      (do return some (ObjectMember.property (← g.propertyRule (move W.shift before)))) s c t
      fun _ s' c' => c < c' ∧ ∃ e, nameStop? W.left.text (skipEnd W.left.text c) = some e ∧
        Via W.left.text e s' c' :=
    hg.propertyRule.bind fun decl s₁ c₁ t₁ _ hdecl => .pure_of (by simp [move, ObjectMember.placed])
      ⟨hdecl.1.1.lt, hdecl.2⟩ nofun
  refine (Mirrors.swap (fun _ hjoined hope => ?_) hrule).mono fun _ _ _ _ h => ⟨h.1, ?_⟩
  · have hlive : W.Live false s c := hope.level _ fun _ _ _ _ _ h => absurd h Bool.false_ne_true
    have ht : W.Together false s c t := ⟨hlink.lo_le, hlink.stands, hlive, hjoined hope.live⟩
    have hheading : W.Heading c := by
      rcases hope with hw | ⟨_, s', c', -, ⟨-, e, hname, hvia⟩, hl⟩
      · exact .of_whole hw
      · exact .of_name hname hvia hl (hpos ▸ ht.inside)
    have hhead := hheading.propertyHeadAt_eq hlink.lo_le
    rw [Overlap.skipEnd_place hlink.lo_le hheading.inside, ← hpos, ← ht.pos_eq] at hhead
    have hannotations : (move W.shift before).annotations.isEmpty = before.annotations.isEmpty := by
      simp [move, Preamble.placed]
    have hfound' : (!(move W.shift before).annotations.isEmpty ||
        !(move W.shift before).modifiers.isEmpty || propertyHeadAt W.right.text t.pos) = true := by
      rw [hhead, hannotations]
      exact hfound
    rw [hfound', if_pos rfl]
  · obtain ⟨e, hname, -⟩ := h.2
    rw [← hpos] at hname
    rcases begins_of_nameStop? hname with hquote | hstart
    · rw [hquote]
      decide
    · rw [beginsDeclaration, hstart, Bool.or_true]

/-- A property or function that is found in the left text. -/
theorem Mirrored.propertyAhead? (hg : g.Mirrored W) (hend : s.triviaEnd = some s.pos)
    (hsome : ∀ s₁, g.propertyAhead? W.left s ≠ .ok none s₁) :
    Mirrors W .loose b (fun _ => false) g.propertyAhead? g.propertyAhead? s c t fun _ _ c' =>
      c < c' ∧ beginsDeclaration (charAt W.left.text s.pos) = true := by
  refine .of_linked fun hlink => ?_
  have hpos := (hlink.stands.of_skipped hend).1
  refine hg.preamble.with_run.bind_within fun before s₁ c₁ t₁ h₁ hbefore =>
    .of_linked fun hlink₁ => ?_
  obtain ⟨hrun, ⟨-, -, hend₁⟩, hnone, hplain⟩ := hbefore
  have hloose : Loosely W.left.text s₁ c₁ := ⟨hlink₁.stands, hlink₁.mode_eq⟩
  refine .congr_left (propertyRest?_apply hloose) (.swap (fun _ hjoined hope =>
    propertyRest?_apply ⟨(hjoined hope.live).stands, hlink₁.mode_right⟩)
      ((hg.propertyAfter hend₁ fun s₂ hrun₂ => hsome s₂ ?_).mono fun _ _ c' _ h => ⟨?_, ?_⟩))
  · rw [propertyAhead?_apply hrun hloose, hrun₂]
  · have := h₁.le
    omega
  · rw [← Bool.not_eq_false]
    intro hnot
    have hnone' := hnot
    simp only [beginsDeclaration, Bool.or_eq_false_iff, beq_eq_false_iff_ne] at hnone'
    obtain ⟨hannotations, hmodifiers⟩ := hplain (hpos ▸ hnone'.1.1)
      (hpos ▸ noModifier_of_not_startsName hnone'.2)
    obtain ⟨rfl, rfl⟩ := hnone hend hannotations hmodifiers
    obtain ⟨attached, heq, -⟩ := s.takeDoc_eq
    rw [heq] at h
    exact Bool.false_ne_true (hnot.symm.trans h.2)

/-- Where nothing is found in the left text and an element is read, nothing is found in the right
one either. -/
theorem Mirrored.propertyAhead?_none (hg : g.Mirrored W) (hend : s.triviaEnd = some s.pos)
    {s₁ : State} (hrun : g.propertyAhead? W.left s = .ok none s₁) (hlink : W.Linked .loose s c t)
    (hlive : W.Live false s c) (habreast : W.Abreast s c t) (hheading : W.Heading c) :
    ∃ t₁, g.propertyAhead? W.right t = .ok none t₁ := by
  have hpreamble := hg.preamble (b := false) hlink
  cases hbefore : g.preamble W.left s with
  | error stop s₂ =>
    rw [Grammar.propertyAhead?, bind_apply, hbefore] at hrun
    cases hrun
  | ok before s₂ =>
    rw [hbefore] at hpreamble
    obtain ⟨c₂, hpass, ⟨-, hnone, -⟩, hright⟩ := hpreamble
    rw [propertyAhead?_apply hbefore
      ⟨hpass.onward.stands, hpass.onward.mode_eq.trans hlink.mode_eq⟩]
      at hrun
    obtain ⟨hword, hannotations, hmodifiers, hhead⟩ := propertyAfter_none hrun
    obtain ⟨rfl, rfl⟩ := hnone hend hannotations hmodifiers
    have hlive₂ : W.Live false s.takeDoc.2 c₂ := hlive.takeDoc
    obtain ⟨t₂, hbefore', habreast₂⟩ := hright (fun _ => habreast) hlive₂
    have ht : W.Together false s.takeDoc.2 c₂ t₂ :=
      ⟨hlink.lo_le, hpass.onward.stands, hlive₂, habreast₂⟩
    have hpos : s.takeDoc.2.pos = skipEnd W.left.text c₂ := by
      obtain ⟨attached, heq, -⟩ := s.takeDoc_eq
      rw [heq]
      exact (hlink.stands.of_skipped hend).1
    refine ⟨t₂, ?_⟩
    rw [propertyAhead?_apply hbefore' ⟨habreast₂.stands, habreast₂.mode_eq.trans
      (hpass.onward.mode_eq.trans hlink.mode_eq)⟩, Grammar.propertyAfter, ht.wordAt_eq (by decide),
      hword]
    have hhead' := hheading.propertyHeadAt_eq hlink.lo_le
    rw [Overlap.skipEnd_place hlink.lo_le hheading.inside, ← hpos, ← ht.pos_eq, hhead] at hhead'
    rw [hhead', show (move W.shift before).annotations = [] by
      simp [move, Preamble.placed, hannotations],
      show (move W.shift before).modifiers.isEmpty = true from hmodifiers]
    rfl

/-- A property, a function or an element. -/
theorem Mirrored.namedMember (hg : g.Mirrored W) (hend : s.triviaEnd = some s.pos) :
    Mirrors W .loose b (fun _ => false) g.namedMember g.namedMember s c t fun _ s' c' =>
      c < c' ∧ Overlap.BehindParen W.left.text s.pos s' c' := by
  rw [namedMember_eq]
  refine .of_linked fun hlink => ?_
  have hpos := (hlink.stands.of_skipped hend).1
  refine (reading_mirrors_of_found (Q := fun _ s' c' =>
      (c < c' ∧ Overlap.BehindParen W.left.text s.pos s' c') ∧
        ((∃ s₁, g.propertyAhead? W.left s = .ok none s₁) → Opened W.left.text c s' c'))
    (P := fun _ _ c' => (∀ s₁, g.propertyAhead? W.left s ≠ .ok none s₁) ∧ c < c' ∧
      beginsDeclaration (charAt W.left.text s.pos) = true)
    (fun s₁ hrun hlinked => rewind_of_yields (propertyAhead?_yields hg.left) hlinked.stands hrun)
    (fun hsome => (hg.propertyAhead? hend hsome).mono fun _ _ _ _ h => ⟨hsome, h⟩) ?_ ?_ ?_).mono
    fun _ _ _ _ h => h.1
  · rintro member s₁ c₁ t₁ - ⟨hsome, hlt, hbegins⟩
    refine .pure_of rfl
      ⟨nofun, ⟨hlt, fun hopen => ?_⟩, fun ⟨s₂, hrun⟩ => absurd hrun (hsome s₂)⟩ nofun
    rw [hopen] at hbegins
    exact absurd hbegins (by decide)
  · refine .of_lt (fun _ _ _ _ h => absurd h Bool.false_ne_true) ((hg.exprOpened s c t).bind
      fun e s₁ c₁ t₁ _ he =>
      .pure_of (by simp [move, ObjectMember.placed])
        ⟨⟨he.1.lt, fun hopen => ?_⟩, fun _ => he.2⟩ nofun)
    rw [hpos] at hopen ⊢
    obtain ⟨hvia, -, hthis⟩ := he.2.paren hopen
    exact ⟨hvia, hthis⟩
  · intro s₁ hrun hlinked hjoined hope
    have hlive : W.Live false s c := hope.level _ fun _ _ _ _ _ h => absurd h Bool.false_ne_true
    have habreast := hjoined (hlive.mono nofun)
    have hheading : W.Heading c := by
      rcases hope with hw | ⟨_, s', c', -, ⟨-, hopened⟩, hl⟩
      · exact .of_whole hw
      · exact .of_opened (hopened ⟨s₁, hrun⟩) hl (hpos ▸ hlive.inside hlinked.stands)
    obtain ⟨t₁, hrun'⟩ := hg.propertyAhead?_none hend hrun hlinked hlive habreast hheading
    exact ⟨t₁, hrun', rewind_of_yields (propertyAhead?_yields hg.right) habreast.stands hrun'⟩

/-! ### Members -/

/-- A member of an object body. -/
theorem Mirrored.objectMember (hg : g.Mirrored W) (hend : s.triviaEnd = some s.pos) :
    Mirrors W .loose b (fun _ => false) g.objectMember g.objectMember s c t
      fun _ _ c' => c < c' := by
  refine .look_within (startsWith_looks _) (startsWith_looks _)
    (fun h => h.matchesAt_eq (by decide))
    (.ite (fun h => hg.predicateEntry h) fun _ => ?_)
  refine .look_within (startsWith_looks _) (startsWith_looks _)
    (fun h => h.matchesAt_eq (by decide))
    (.ite (fun h => hg.mappingEntry h) fun _ => ?_)
  refine .look_within (startsWith_looks _) (startsWith_looks _)
    (fun h => h.matchesAt_eq (by decide))
    (.ite (fun h => hg.spread h) fun _ => ?_)
  refine .of_linked fun hlink => ?_
  have hloose : Loosely W.left.text s c := ⟨hlink.stands, hlink.mode_eq⟩
  have hname {word : String} (hword : wordAt W.left.text word s.pos = true)
      (hfirst : word.toList.head?.any startsName = true) : charAt W.left.text s.pos ≠ '(' := by
    obtain ⟨first, hfirst, hstart⟩ := (Option.any_eq_true _ _).1 hfirst
    rw [List.head?_eq_getElem?] at hfirst
    have hchar := charAt_of_matchesAt (matchesAt_of_wordAt hword) hfirst
    rw [Nat.add_zero] at hchar
    rintro hopen
    rw [← hchar, hopen] at hstart
    exact absurd hstart (by decide)
  -- What is read in the end has gone behind what is looked at ahead.
  have hrest : Mirrors W .loose b (fun _ => false)
      (if fieldAmendAt W.left.text s.pos = true then g.fieldAmend else do
        if ← atWord "when" then g.whenGenerator
        else if ← atWord "for" then g.forGenerator
        else g.namedMember)
      (if fieldAmendAt W.left.text s.pos = true then g.fieldAmend else do
        if ← atWord "when" then g.whenGenerator
        else if ← atWord "for" then g.forGenerator
        else g.namedMember) s c t fun _ s' c' =>
      c < c' ∧ Overlap.BehindParen W.left.text s.pos s' c' := by
    refine .ite (fun hfield => ?_) fun _ => ?_
    · rw [fieldAmendAt, Bool.and_eq_true] at hfield
      exact hg.fieldAmend hfield.1
    refine .look_within (atWord_looks _) (atWord_looks _) (fun h => h.wordAt_eq (by decide))
      (.ite (fun hword => ?_) fun _ => ?_)
    · exact (hg.whenGenerator hword).mono fun _ _ _ _ h =>
        ⟨h, fun hopen => absurd hopen (hname hword (by decide))⟩
    refine .look_within (atWord_looks _) (atWord_looks _) (fun h => h.wordAt_eq (by decide))
      (.ite (fun hword => ?_) fun _ => hg.namedMember hend)
    exact (hg.forGenerator hword).mono fun _ _ _ _ h =>
      ⟨h, fun hopen => absurd hopen (hname hword (by decide))⟩
  refine (Mirrors.congr_left ?_ (.swap (fun _ hjoined hope => ?_) hrest)).mono fun _ _ _ _ h => h.1
  · rw [bind_apply, atFieldAmend_run hloose]
  · have hlive : W.Live false s c := hope.level _ fun _ _ _ _ _ h => absurd h Bool.false_ne_true
    have ht : W.Together false s c t :=
      ⟨hlink.lo_le, hlink.stands, hlive, hjoined (hlive.mono nofun)⟩
    have hfield : fieldAmendAt W.right.text t.pos = fieldAmendAt W.left.text s.pos := by
      rw [ht.pos_eq]
      refine Overlap.fieldAmendAt_place ht.lo_le_pos ht.inside fun hopen => ?_
      rcases hope with hw | ⟨_, s', c', -, ⟨-, hbehind⟩, hl⟩
      · exact ⟨.inr hw, fun _ => .inr hw⟩
      · exact ⟨hl.inside_via (hbehind hopen).1,
          fun hthis => hl.inside_via ((hbehind hopen).2 hthis)⟩
    rw [bind_apply, atFieldAmend_run ⟨ht.abreast.stands, hlink.mode_right⟩, hfield]

/-- The members up to the closing brace, which is read too. -/
theorem Mirrored.objectMembers (hg : g.Mirrored W) {opening : Span} :
    Mirrors W .loose true (fun _ => true) (g.objectMembers opening)
      (g.objectMembers (move W.shift opening)) s c t fun _ s' c' => c < c' ∧ Arrived s' c' := by
  refine .repeating false (fun _ _ _ => True) (by simp [move]) trivial nofun
    fun members s₁ c₁ t₁ h₁ _ => skip_inner_mirrors.bind_inner fun _ s₂ c₂ t₂ h₂ hskip => ?_
  obtain ⟨hskip, hend⟩ := hskip
  obtain rfl := hskip.eq
  have hle := h₂.stands.le_pos
  refine .look_inside (fun _ _ _ h => h.1) peek_looks peek_looks (fun h => h.charAt_eq)
    (.look_inside (fun _ _ _ h => h.1) atEnd_looks atEnd_looks (fun h => h.decide_size_le)
      (.ite (fun _ => failWith_mirrors rfl rfl fun _ => rfl) fun _ => .ite (fun hclose => ?_)
        fun _ => .ite (fun hsemicolon => ?_) fun _ => ?_))
  · rw [beq_iff_eq] at hclose
    refine (advance_sign_mirrors (by rw [hclose]; decide)).bind fun _ s₃ c₃ t₃ _ hadv =>
      .pure rfl ?_
    obtain ⟨-, rfl, harrived⟩ := hadv
    have hlt : c₂ < s₂.pos + 1 := by omega
    exact ⟨fun _ => hlt, fun _ _ => hlt, Nat.lt_of_le_of_lt h₁.le hlt, harrived⟩
  · rw [beq_iff_eq] at hsemicolon
    refine (advance_sign_mirrors (by rw [hsemicolon]; decide)).bind fun _ s₃ c₃ t₃ _ hadv =>
      .pure_of rfl ⟨nofun, ?_, trivial⟩ nofun
    obtain ⟨-, rfl, -⟩ := hadv
    omega
  · refine .bind_level (hg.objectMember hend) fun member s₃ c₃ t₃ _ hlt =>
      .pure_of ?_ ⟨nofun, nofun, hlt, trivial⟩ nofun
    rw [move_next, push_move]

theorem Mirrored.bodyRule (hg : g.Mirrored W) :
    Mirrors W .loose b (fun _ => true) g.bodyRule g.bodyRule s c t fun body _ c' =>
      ReadTo body.span c c' := by
  refine (expect_mirrors (by decide)).bind fun opening s₁ c₁ t₁ h₁ hopening => ?_
  refine (inMode_same_mirrors hg.objectMembers).bind fun members s₂ c₂ t₂ _ hmembers => ?_
  refine .of_linked fun hlink₂ => .look position_looks position_looks
    (fun h => (hmembers.2.sited _ h).1) (.pure ?_ ⟨?_, ?_⟩)
  · simp [move, ObjectBody.placed, Placement.span,
      Overlap.cast_place (Nat.le_trans hlink₂.lo_le hlink₂.stands.le_pos)]
  · exact Nat.lt_trans hopening.1.lt hmembers.1
  · exact congrArg Int.ofNat hmembers.2.1

/-! ### Grammars -/

/-- What a grammar reads in one of two texts that agree on a stretch it reads in the other one,
whatever depth of nesting it admits. -/
theorem mirrored_nested (W : Overlap) (depth : Nat) : (nested depth).Mirrored W := by
  induction depth with
  | zero =>
    exact ⟨fun _ _ _ => throw_mirrors .tooDeep nofun, fun _ _ _ => throw_mirrors .tooDeep nofun,
      fun _ _ _ => throw_mirrors .tooDeep nofun, places_nested _ 0, places_nested _ 0⟩
  | succ depth ih =>
    exact ⟨fun _ _ _ => ih.expressionRule, fun _ _ _ => ih.typeRule, fun _ _ _ => ih.bodyRule,
      places_nested _ _, places_nested _ _⟩

/-- The grammar in which texts are read. -/
theorem mirrored_full (W : Overlap) : full.Mirrored W := mirrored_nested W nestingLimit

end Grammar

end PklSyntax
