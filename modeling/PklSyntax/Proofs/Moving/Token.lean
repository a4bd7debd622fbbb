import PklSyntax.Proofs.Layout.Token
import PklSyntax.Proofs.Moving.Steps

/-!
# Tokens and names in two texts

The parsers for tokens and for names mirror themselves in two texts that agree on a stretch. A token
that begins with a sign may also be asked for where the stretch ends: it is found in neither text. A
name or a keyword may be asked for only in front of it.

## Main definitions

* `ReadTo`: a span that ends where the last token ends that was read.

## Main statements

* `Parser.failExpected_mirrors`: the error that something else was expected.
* `Parser.accept?_mirrors`, `Parser.expect_mirrors`, `Parser.acceptKeyword_mirrors`: tokens.
* `Parser.identifier_mirrors`, `Parser.expectName_mirrors`, `Parser.qualifiedName_mirrors`: names.
* `Parser.commaList_mirrors`: lists.
-/

namespace PklSyntax

/-- At least one token was read, and the span ends with the last one. -/
structure ReadTo (span : Span) (c c' : Nat) : Prop where
  lt : c < c'
  stop_eq : span.stop = c'

theorem ReadTo.mono {span : Span} {c c' c'' : Nat} (h : ReadTo span c c'') (hle : c' ≤ c) :
    ReadTo span c' c'' :=
  ⟨Nat.lt_of_le_of_lt hle h.lt, h.stop_eq⟩

namespace Parser

variable {α β : Type} [Movable α] {W : Overlap} {mode : Mode} {b : Bool} {s t : State} {c : Nat}

/-! ### Errors at the cursor -/

/-- What stands at the offset, for a message. -/
def describeAt (text : Array Char) (i : Nat) : String :=
  let word := sliceOf text i (skipWhile text continuesName i)
  if decide (text.size ≤ i) = true then "end of input"
  else if charAt text i == '\n' then "end of line"
  else if !word.isEmpty then "'" ++ word ++ "'"
  else "'" ++ String.singleton (charAt text i) ++ "'"

theorem describeCurrent_looks : Looks describeCurrent fun ctx s => describeAt ctx.text s.pos := by
  intro ctx s
  rw [describeCurrent, peek_looks.bind_apply, peekWord_looks.bind_apply, atEnd_looks.bind_apply]
  dsimp only [describeAt]
  split
  · rfl
  · split
    · rfl
    · split <;> rfl

theorem describeAt_eq (h : W.Together false s c t) :
    describeAt W.right.text t.pos = describeAt W.left.text s.pos := by
  have hlo := h.lo_le_pos
  have hle := le_skipWhile W.left.text continuesName s.pos
  obtain ⟨hend, hin⟩ := Overlap.nameEnd_place (p := continuesName) hlo h.inside fun _ hc => hc
  unfold describeAt
  rw [h.decide_size_le, h.charAt_eq, h.pos_eq, hend, Overlap.sliceOf_place hlo (by omega) hin]

/-- The span of the character at the cursor. -/
theorem hereAt_eq (h : W.Together false s c t) :
    (Span.ofNat t.pos (if decide (W.right.text.size ≤ t.pos) = true then t.pos else t.pos + 1)) =
      W.shift.span (.ofNat s.pos
        (if decide (W.left.text.size ≤ s.pos) = true then s.pos else s.pos + 1)) := by
  have hlo := h.lo_le_pos
  rw [h.decide_size_le, h.pos_eq, ← Overlap.ofNat_place hlo (by split <;> omega)]
  split
  · rfl
  · rw [Overlap.place_add hlo]

theorem failExpected_mirrors {what : String} {last : α → Bool} {Q : α → State → Nat → Prop} :
    Mirrors W mode b last (failExpected what) (failExpected what) s c t Q := by
  refine .mono (P := fun _ _ _ => False) ?_ fun _ _ _ _ h => h.elim
  refine .look_inside nofun peek_looks peek_looks (fun h => h.charAt_eq) ?_
  refine .look_inside nofun atEnd_looks atEnd_looks (fun h => h.decide_size_le) ?_
  refine .ite (fun _ => ?_) fun _ => ?_
  · exact .look_inside nofun here_looks here_looks hereAt_eq
      (failWith_mirrors rfl rfl fun _ => rfl)
  · exact .look_inside nofun describeCurrent_looks describeCurrent_looks describeAt_eq
      (.look_inside nofun here_looks here_looks hereAt_eq
        (failWith_mirrors rfl rfl fun _ => rfl))

/-! ### Looking at tokens -/

/-- The span from an earlier offset. -/
theorem spanFrom_mirrors {start start' : Nat} (hsited : W.Sited s c) (hlo : W.lo ≤ start)
    (hstart : W.Together true s c t → start' = W.place start) :
    Mirrors W mode true (fun _ => true) (spanFrom start) (spanFrom start') s c t
      fun span s' c' => span = .ofNat start s.pos ∧ s' = s ∧ c' = c := by
  refine .value (spanFrom_looks _) (spanFrom_looks _) (fun h => ?_) ⟨rfl, rfl, rfl⟩
  rw [hstart h, (hsited t h).1, Overlap.ofNat_place hlo h.lo_le_pos]
  rfl

theorem atToken_mirrors {token : String} (hmark : isMark token = true) :
    Mirrors W .loose true (fun _ => true) (atToken token) (atToken token) s c t fun found s' c' =>
      Skipped W.left.text c s' c' ∧ found = matchesAt W.left.text token s'.pos :=
  skip_mirrors.bind fun _ _ _ _ _ h =>
    .value (startsWith_looks _) (startsWith_looks _) (fun h => h.matchesAt_mark hmark) ⟨h.1, rfl⟩

/-- The token or the word is not asked for where the stretch ends. -/
theorem atToken_inner_mirrors {token : String} (hglued : glued token.toList = true) :
    Mirrors W .loose b (fun _ => false) (atToken token) (atToken token) s c t fun found s' c' =>
      Skipped W.left.text c s' c' ∧ found = matchesAt W.left.text token s'.pos :=
  skip_inner_mirrors.bind_inner fun _ _ _ _ _ h =>
    .value_of (startsWith_looks _) (startsWith_looks _) (fun h => h.matchesAt_eq hglued)
      ⟨nofun, h.1, rfl⟩ nofun

theorem atAssign_mirrors :
    Mirrors W .loose true (fun _ => true) atAssign atAssign s c t fun found s' c' =>
      Skipped W.left.text c s' c' ∧
        found = (matchesAt W.left.text "=" s'.pos && !matchesAt W.left.text "==" s'.pos) := by
  refine (atToken_mirrors (by decide)).bind fun found s' c' t' _ h => ?_
  obtain ⟨hskip, rfl⟩ := h
  refine .ite (fun hfound => ?_) fun hfound => ?_
  · exact .look (startsWith_looks _) (startsWith_looks _) (fun h => h.matchesAt_mark (by decide))
      (.pure rfl ⟨hskip, by rw [hfound]; rfl⟩)
  · exact .pure rfl ⟨hskip, by rw [hfound]; rfl⟩

/-! ### Reading tokens -/

theorem ne_empty_of_isMark {token : String} (h : isMark token = true) : token ≠ "" := by
  rintro rfl
  simp [isMark] at h

theorem takeToken_mirrors (token : String) (hp : Poised W.left.text s c)
    (hmatch : matchesAt W.left.text token s.pos = true) (hne : token ≠ "") :
    Mirrors W mode b (fun _ => true) (takeToken token.length) (takeToken token.length) s c t
      fun span s' c' => ReadTo span c c' ∧ Arrived s' c' := by
  refine .of_linked fun h => .look_inside (fun _ _ _ h _ => h.1.lt) position_looks position_looks
    (fun h => h.pos_eq) ?_
  have hlen : 0 < token.length := Nat.pos_of_ne_zero fun h => hne (String.length_eq_zero_iff.1 h)
  have hle := h.stands.le_pos
  have hlo := h.lo_le
  refine (advance_matched_mirrors hp hmatch hne).bind fun _ s' c' t' _ hadv =>
    (spanFrom_mirrors hadv.2.2.sited (by omega) fun _ => rfl).mono fun span s'' c'' _ hspan => ?_
  obtain ⟨rfl, rfl, rfl⟩ := hspan
  obtain ⟨-, hc, hfresh⟩ := hadv
  exact ⟨⟨by omega, congrArg Int.ofNat hfresh.1⟩, hfresh⟩

theorem accept?_mirrors {token : String} (hmark : isMark token = true) :
    Mirrors W .loose true (fun _ => true) (accept? token) (accept? token) s c t
      fun span? s' c' =>
        match span? with
        | some span => ReadTo span c c' ∧ Arrived s' c'
        | none => Skipped W.left.text c s' c' ∧ matchesAt W.left.text token s'.pos = false := by
  have hne := ne_empty_of_isMark hmark
  refine (atToken_mirrors hmark).bind fun found s₁ c₁ t₁ h₁ hfound => ?_
  obtain ⟨hskip, rfl⟩ := hfound
  obtain rfl := hskip.eq
  refine .ite (fun hmatch => ?_) fun hmatch => ?_
  · exact (takeToken_mirrors token hskip.poised hmatch hne).bind fun span s' c' t' _ h =>
      .pure rfl h
  · exact .pure rfl ⟨hskip, hmatch⟩

theorem accept_mirrors {token : String} (hmark : isMark token = true) :
    Mirrors W .loose true (fun _ => true) (accept token) (accept token) s c t fun found s' c' =>
      if found = true then c < c' ∧ Arrived s' c'
      else Skipped W.left.text c s' c' ∧ matchesAt W.left.text token s'.pos = false := by
  refine (accept?_mirrors hmark).bind fun span? s' c' t' _ h => ?_
  cases span? with
  | some span => exact .pure rfl ⟨h.1.lt, h.2⟩
  | none => exact .pure rfl h

theorem expect_mirrors {token : String} (hmark : isMark token = true) :
    Mirrors W .loose b (fun _ => true) (expect token) (expect token) s c t fun span s' c' =>
      ReadTo span c c' ∧ Arrived s' c' := by
  refine .of_lt (fun _ _ _ h _ => h.1.lt)
    ((accept?_mirrors hmark).bind fun span? s' c' t' _ h => ?_)
  cases span? with
  | some span => exact .pure rfl h
  | none => exact failExpected_mirrors

/-- A word with which no construct goes on where a declaration ends, unless it does so in the left
text. -/
theorem atWord_mirrors {word : String} (hword : isName word = true)
    (hskipped : s.triviaEnd = some s.pos)
    (hend : W.whole = false →
      wordAt W.right.text word (skipEnd W.right.text (W.place W.stop)) = true →
      wordAt W.left.text word (skipEnd W.left.text W.stop) = true) :
    Mirrors W mode true (fun found => !found) (atWord word) (atWord word) s c t
      fun found s' c' => found = wordAt W.left.text word s.pos ∧ s' = s ∧ c' = c := by
  refine .value (atWord_looks _) (atWord_looks _) ?_ ⟨rfl, rfl, rfl⟩
  cases hfound : wordAt W.left.text word s.pos with
  | true => exact fun h => (h.wordAt_eq hword).trans hfound
  | false => exact fun h => h.wordAt_of_skipped hword hskipped hend hfound

/-- Neither of the two words stands where a declaration ends. -/
theorem wordAt_stop {word : String} (hword : word = "is" ∨ word = "as") (hw : W.whole = false)
    (hat : wordAt W.right.text word (skipEnd W.right.text (W.place W.stop)) = true) :
    wordAt W.left.text word (skipEnd W.left.text W.stop) = true := by
  obtain ⟨-, -, hright, -⟩ := W.cut hw
  rcases hright.follows with hsize | ⟨-, his, has⟩
  · have hne : word ≠ "" := by rcases hword with rfl | rfl <;> decide
    have := add_length_le_of_matchesAt (matchesAt_of_wordAt hat) hne
    have hlen : 0 < word.length := by rcases hword with rfl | rfl <;> decide
    exact absurd (Nat.lt_of_lt_of_le (Nat.lt_add_of_pos_right hlen) this) (Nat.not_lt.2 hsize)
  · rcases hword with rfl | rfl
    · exact absurd (hat.symm.trans his) (by decide)
    · exact absurd (hat.symm.trans has) (by decide)

/-- When the keyword is found a token is read. -/
theorem atKeyword_mirrors {word : String} (hword : isName word = true)
    (hend : W.whole = false →
      wordAt W.right.text word (skipEnd W.right.text (W.place W.stop)) = true →
      wordAt W.left.text word (skipEnd W.left.text W.stop) = true) :
    Mirrors W .loose true (fun found => !found) (atKeyword word) (atKeyword word) s c t
      fun found s' c' => Skipped W.left.text c s' c' ∧ found = wordAt W.left.text word s'.pos := by
  refine skip_mirrors.bind fun _ s₁ c₁ t₁ _ hskip =>
    (atWord_mirrors hword hskip.2 hend).mono fun found s' c' _ h => ?_
  obtain ⟨rfl, rfl, rfl⟩ := h
  exact ⟨hskip.1, rfl⟩

theorem atKeyword_inner_mirrors {word : String} (hword : isName word = true) :
    Mirrors W .loose b (fun _ => false) (atKeyword word) (atKeyword word) s c t
      fun found s' c' => Skipped W.left.text c s' c' ∧ found = wordAt W.left.text word s'.pos :=
  skip_inner_mirrors.bind_inner fun _ _ _ _ _ hskip =>
    .value_of (atWord_looks _) (atWord_looks _) (fun h => h.wordAt_eq hword) ⟨nofun, hskip.1, rfl⟩
      nofun

theorem ne_empty_of_isName {word : String} (h : isName word = true) : word ≠ "" := by
  rintro rfl
  simp [isName] at h

/-- Moving over a keyword that was found. -/
theorem advance_keyword_mirrors {word : String} (hword : isName word = true)
    (hskip : Skipped W.left.text c s c) (hfound : wordAt W.left.text word s.pos = true) :
    Mirrors W mode b (fun _ => true) (advance word.length) (advance word.length) s c t
      fun _ s' c' => c < c' ∧ Arrived s' c' := by
  refine .of_linked fun h => (advance_matched_mirrors hskip.poised (matchesAt_of_wordAt hfound)
    (ne_empty_of_isName hword)).mono fun _ s' c' _ hadv => ⟨?_, hadv.2.2⟩
  have hle := h.stands.le_pos
  have hlen : 0 < word.length :=
    Nat.pos_of_ne_zero fun h => ne_empty_of_isName hword (String.length_eq_zero_iff.1 h)
  omega

theorem acceptKeyword_mirrors {word : String} (hword : isName word = true)
    (hend : W.whole = false →
      wordAt W.right.text word (skipEnd W.right.text (W.place W.stop)) = true →
      wordAt W.left.text word (skipEnd W.left.text W.stop) = true) :
    Mirrors W .loose true (fun _ => true) (acceptKeyword word) (acceptKeyword word) s c t
      fun found s' c' =>
        if found = true then c < c' ∧ Arrived s' c' else Skipped W.left.text c s' c' := by
  refine .bind_level (atKeyword_mirrors hword hend) fun found s₁ c₁ t₁ _ hfound => ?_
  obtain ⟨hskip, rfl⟩ := hfound
  obtain rfl := hskip.eq
  cases hword' : wordAt W.left.text word s₁.pos with
  | true =>
    exact (advance_keyword_mirrors hword hskip hword').bind fun _ s' c' t' _ h =>
      .pure rfl ⟨fun _ _ => h.1, h⟩
  | false => exact .pure rfl ⟨nofun, hskip⟩

/-- A keyword that is not asked for where the stretch ends. -/
theorem acceptKeyword_inner_mirrors {word : String} (hword : isName word = true) :
    Mirrors W .loose b (fun found => found) (acceptKeyword word) (acceptKeyword word) s c t
      fun found s' c' =>
        if found = true then c < c' ∧ Arrived s' c' else Skipped W.left.text c s' c' := by
  refine .bind_inner (atKeyword_inner_mirrors hword) fun found s₁ c₁ t₁ _ hfound => ?_
  obtain ⟨hskip, rfl⟩ := hfound
  obtain rfl := hskip.eq
  cases hword' : wordAt W.left.text word s₁.pos with
  | true =>
    exact (advance_keyword_mirrors hword hskip hword').bind fun _ s' c' t' _ h =>
      .pure rfl ⟨fun _ => h.1, h⟩
  | false => exact .pure_of rfl ⟨nofun, hskip⟩ nofun

theorem expectKeyword_mirrors {word : String} (hword : isName word = true) :
    Mirrors W .loose b (fun _ => true) (expectKeyword word) (expectKeyword word) s c t
      fun _ s' c' => c < c' ∧ Arrived s' c' := by
  refine .bind_level (acceptKeyword_inner_mirrors hword) fun found s' c' t' _ h => ?_
  cases found with
  | true => exact .pure rfl ⟨nofun, h⟩
  | false => exact failExpected_mirrors

/-! ### Names -/

/-- The text from an earlier offset. -/
theorem sliceFrom_mirrors {start start' : Nat} (hsited : W.Sited s c) (hlo : W.lo ≤ start)
    (hstart : W.Together true s c t → start' = W.place start) :
    Mirrors W mode true (fun _ => true) (sliceFrom start) (sliceFrom start') s c t
      fun value s' c' => value = sliceOf W.left.text start s.pos ∧ s' = s ∧ c' = c := by
  refine .value (sliceFrom_looks _) (sliceFrom_looks _) (fun h => ?_) ⟨rfl, rfl, rfl⟩
  rw [hstart h, (hsited t h).1, Overlap.sliceOf_place hlo h.lo_le_pos (hsited t h).2]
  rfl

theorem quotedIdentifier_mirrors (hfirst : charAt W.left.text s.pos = backtick) :
    Mirrors W mode b (fun _ => true) quotedIdentifier quotedIdentifier s c t
      fun name s' c' => NameRead W.left.text s name s' c' ∧ Arrived s' c' := by
  refine .of_linked fun hlink => ?_
  have hp : Poised W.left.text s c := hlink.stands.poised_of_opens (by rw [hfirst]; decide)
  have hlo := hlink.lo_le
  have hle := hlink.stands.le_pos
  refine .peel theText_looks theText_looks (.peel position_looks position_looks ?_)
  dsimp only
  have hskip := le_skipWhile W.left.text (fun c => c != backtick && c != '\n') (s.pos + 1)
  generalize hstop : skipWhile W.left.text (fun c => c != backtick && c != '\n') (s.pos + 1) = stop
    at hskip ⊢
  -- The closing mark is in the stretch whenever the name is.
  have hright : W.Together false s c t → W.Inside stop →
      skipWhile W.right.text (fun c => c != backtick && c != '\n') (t.pos + 1) = W.place stop ∧
        charAt W.right.text (W.place stop) = charAt W.left.text stop := by
    intro h hin
    have := hstop
    rw [h.pos_eq, ← Overlap.place_add (by omega), Overlap.skipWhile_place (by omega)
      (.inl (hstop ▸ hin)), hstop]
    exact ⟨rfl, Overlap.charAt_place (by omega) hin⟩
  cases hlast : charAt W.left.text stop == backtick with
  | false =>
    rw [if_neg (by simp)]
    refine .mono (P := fun _ _ _ => False) ?_ fun _ _ _ _ h => h.elim
    refine .swap (r := failWith .unterminatedQuotedName (.ofNat t.pos (t.pos + 1)))
      (fun _ hjoined hope => ?_) (failWith_mirrors rfl rfl fun h => ?_)
    · have hlive := hope.level false fun _ _ _ h _ => h.elim
      have hin : W.Inside stop := .inr (by
        rcases hope with hw | ⟨_, _, _, _, h, _⟩
        · exact hw
        · exact h.elim)
      obtain ⟨heq, hchar⟩ :=
        hright ⟨hlink.lo_le, hlink.stands, hlive, hjoined (hlive.mono nofun)⟩ hin
      rw [heq, hchar, hlast]
      rfl
    · rw [h.pos_eq, ← Overlap.place_add (by omega), Overlap.ofNat_place (by omega) (by omega)]
  | true =>
    rw [if_pos rfl]
    have hsize : stop < W.left.text.size := lt_size_of_charAt_ne
      (by rw [beq_iff_eq] at hlast; rw [hlast]; decide)
    refine .mono (P := fun name s' c' => c' = stop + 1 ∧ NameRead W.left.text s name s' c' ∧
      Arrived s' c') ?_ fun _ _ _ _ h => h.2
    refine .swap (r := do
      moveTo (W.place (stop + 1))
      return ⟨← slice (W.place (s.pos + 1)) (W.place stop), .backtick,
        ← spanFrom (W.place s.pos)⟩) (fun _ hjoined hope => ?_) ?_
    · have hlive := hope.level false fun _ _ _ h _ _ => by omega
      have htogether : W.Together false s c t :=
        ⟨hlink.lo_le, hlink.stands, hlive, hjoined (hlive.mono nofun)⟩
      have hin : W.Inside stop := by
        rcases hope with hw | ⟨_, _, _, hon, hQ, hl⟩
        · exact .inr hw
        · exact (hl.le_stop hon.stands).imp_left fun _ => by omega
      obtain ⟨heq, hchar⟩ := hright htogether hin
      rw [heq, hchar, hlast, htogether.pos_eq, Overlap.place_add (by omega),
        Overlap.place_add (by omega)]
      rfl
    · refine (moveTo_mirrors hp (by omega) hsize fun _ _ => rfl).bind fun _ s' c' t' _ hmove => ?_
      obtain ⟨rfl, rfl, hfresh⟩ := hmove
      refine .look (slice_looks _ _) (slice_looks _ _) (a := sliceOf W.left.text (s.pos + 1) stop)
        (fun h => ?_) ?_
      · exact Overlap.sliceOf_place (by omega) (by omega) (h.le_stop.imp_left fun _ => by omega)
      · refine (spanFrom_mirrors hfresh.sited (by omega) fun _ => rfl).bind
          fun span s' c' t' _ hspan => ?_
        obtain ⟨rfl, rfl, rfl⟩ := hspan
        exact .pure rfl ⟨rfl, ⟨rfl, by omega, rfl,
          tokenEnd_of_sign (by simpa using hlast) (by decide) (by decide)⟩, hfresh⟩

theorem identifier?_mirrors :
    Mirrors W mode b (fun name? => name?.isSome) identifier? identifier? s c t fun name? s' c' =>
      match name? with
      | some name => NameRead W.left.text s name s' c' ∧ Arrived s' c'
      | none => s' = s ∧ c' = c := by
  refine .of_linked fun hlink => ?_
  have hle := hlink.stands.le_pos
  have hlo := hlink.lo_le
  have hQ : ∀ (name? : Option Identifier) (s' : State) (c' : Nat),
      (match name? with
        | some name => NameRead W.left.text s name s' c' ∧ Arrived s' c'
        | none => s' = s ∧ c' = c) → name?.isSome = true → c < c' := by
    intro name? s' c' h hsome
    cases name? with
    | none => simp at hsome
    | some name => exact Nat.lt_of_le_of_lt hle h.1.lt
  refine .look_inside hQ peek_looks peek_looks (fun h => h.charAt_eq) ?_
  refine .ite (fun hfirst => ?_) fun _ => .ite (fun hstart => ?_) fun _ => ?_
  · rw [beq_iff_eq] at hfirst
    exact (quotedIdentifier_mirrors hfirst).bind fun name s' c' t' _ h => .pure rfl h
  · have hname := continuesName_of_startsName hstart
    have hlt := lt_nameEnd hname
    have hp := hlink.stands.poised_of_opens (opensToken_of_continuesName hname)
    have hsize := skipWhile_le_size W.left.text continuesName hlink.stands.pos_le_size
    refine .look_inside hQ position_looks position_looks (fun h => h.pos_eq) ?_
    refine .look_inside hQ wordEnd_looks wordEnd_looks (fun h => h.nameEnd_eq) ?_
    refine (moveTo_mirrors hp hlt hsize fun _ _ => rfl).bind fun _ s' c' t' _ hmove => ?_
    obtain ⟨rfl, rfl, hfresh⟩ := hmove
    refine (sliceFrom_mirrors hfresh.sited (by omega) fun _ => rfl).bind
      fun name s' c' t' _ hname => ?_
    obtain ⟨rfl, rfl, rfl⟩ := hname
    refine (spanFrom_mirrors hfresh.sited (by omega) fun _ => rfl).bind
      fun span s' c' t' _ hspan => ?_
    obtain ⟨rfl, rfl, rfl⟩ := hspan
    exact .pure rfl ⟨⟨rfl, hlt, rfl, tokenEnd_nameEnd hlt⟩, hfresh⟩
  · exact .pure_of rfl ⟨rfl, rfl⟩ nofun

theorem identifier_mirrors {what : String} :
    Mirrors W mode b (fun _ => true) (identifier what) (identifier what) s c t fun name s' c' =>
      NameRead W.left.text s name s' c' ∧ Arrived s' c' := by
  refine .bind_level identifier?_mirrors fun name? s' c' t' _ h => ?_
  cases name? with
  | some name => exact .pure rfl ⟨nofun, h⟩
  | none => exact failExpected_mirrors

@[simp] theorem isReservedWord_placed (name : Identifier) (P : Placement) :
    (name.placed P).isReservedWord = name.isReservedWord := rfl

theorem expectName_mirrors {what : String} :
    Mirrors W .loose b (fun _ => true) (expectName what) (expectName what) s c t fun name s' c' =>
      ReadTo name.span c c' ∧ Arrived s' c' := by
  refine .of_linked fun hlink => .of_lt (fun _ _ _ h _ => h.1.lt) ?_
  refine skip_mirrors.bind fun _ s₁ c₁ t₁ h₁ hskip => identifier_mirrors.bind
    fun name s' c' t' h' hname => ?_
  obtain rfl := hskip.1.eq
  have hle := h₁.stands.le_pos
  have hlt := hname.1.lt
  have hlo := hlink.lo_le
  refine .guard (fun _ => failWith_mirrors rfl rfl fun _ => rfl) fun _ =>
    .pure rfl ⟨⟨by omega, ?_⟩, hname.2⟩
  rw [hname.1.span]
  rfl

theorem atPathStep_eq (h : W.Together true s c t) :
    (charAt W.right.text t.pos == '.' &&
        (charAt W.right.text (t.pos + 1) == backtick ||
          startsName (charAt W.right.text (t.pos + 1)))) =
      (charAt W.left.text s.pos == '.' &&
        (charAt W.left.text (s.pos + 1) == backtick ||
          startsName (charAt W.left.text (s.pos + 1)))) := by
  rw [h.charAt_beq (by decide)]
  cases hpoint : charAt W.left.text s.pos == '.' with
  | false => rfl
  | true =>
    rw [beq_iff_eq] at hpoint
    have hstrict := h.strict (by rw [hpoint]; decide)
    rw [hstrict.charAt_add (Overlap.inside_succ hstrict.inside (by rw [hpoint]; decide))]

theorem qualifiedName_mirrors {what : String} :
    Mirrors W mode b (fun _ => true) (qualifiedName what) (qualifiedName what) s c t
      fun name s' c' => ReadTo name.span c c' ∧ Arrived s' c' := by
  refine .of_linked fun hlink => identifier_mirrors.bind fun first s₁ c₁ t₁ h₁ hfirst => ?_
  have hle := hlink.stands.le_pos
  have hlt := hfirst.1.lt
  refine .bind (P := fun (path : Array Identifier) s' c' =>
    c < c' ∧ (path.back?.getD first).span.stop = c' ∧ Arrived s' c') ?_
    fun path s' c' t' h hpath => .pure ?_ ⟨⟨hpath.1, hpath.2.1⟩, hpath.2.2⟩
  · refine .repeating true (fun (path : Array Identifier) s' c' =>
      c < c' ∧ (path.back?.getD first).span.stop = c' ∧ Arrived s' c') ?_
      ⟨by omega, by simp [hfirst.1.span, Span.ofNat], hfirst.2⟩ id
      fun path s₂ c₂ t₂ h₂ hpath => ?_
    · simp [move]
    · refine .look atPathStep_looks atPathStep_looks (fun h => atPathStep_eq h) ?_
      refine .ite (fun hstep => ?_) fun _ => .pure rfl ⟨(fun h => by cases h), hpath⟩
      simp only [Bool.and_eq_true, beq_iff_eq] at hstep
      refine (advance_sign_mirrors (by rw [hstep.1]; decide)).bind
        fun _ s₃ c₃ t₃ _ hadv => identifier_mirrors.bind fun name s₄ c₄ t₄ h₄ hname =>
          .pure (by rw [move_next, push_move]) ?_
      · obtain ⟨rfl, rfl, -⟩ := hadv
        have := hname.1.lt
        have hpos := hpath.2.2.1
        simp only at this
        refine ⟨by omega, by omega, ?_, hname.2⟩
        simp [hname.1.span, Span.ofNat]
  · show NamedType.mk (move W.shift path).toList
      ⟨_, ((move W.shift path).back?.getD (move W.shift first)).span.stop⟩ = _
    rw [back?_getD_move]
    simp [move, NamedType.placed, Placement.span, Identifier.placed]

/-! ### Lists -/

theorem commaList_mirrors [Movable β] {close : String} {item item' : Parser β}
    (hclose : isMark close = true)
    (hitem : ∀ s c t, Mirrors W .loose true (fun _ => true) item item' s c t
      fun _ _ c' => c < c') :
    Mirrors W .loose true (fun _ => true) (commaList close item) (commaList close item') s c t
      fun _ _ _ => True := by
  refine .bind (P := fun (_ : Array β) _ _ => True) ?_
    fun items s' c' t' _ _ => .pure (by simp [move]) trivial
  refine .repeating true (fun (_ : Array β) _ _ => True) (by simp [move]) trivial id
    fun items s₁ c₁ t₁ _ _ => ?_
  refine (atToken_mirrors hclose).bind fun found s₂ c₂ t₂ _ hfound => ?_
  obtain rfl := hfound.1.eq
  refine .ite (fun _ => .pure rfl ⟨nofun, trivial⟩) fun _ => ?_
  refine (hitem s₂ c₂ t₂).bind fun a s₃ c₃ t₃ _ hlt => ?_
  refine (accept_mirrors (by decide)).bind fun comma s₄ c₄ t₄ h₄ _ => ?_
  have := h₄.le
  cases comma with
  | true => exact .pure (by rw [move_next, push_move]) ⟨by omega, trivial⟩
  | false => exact .pure (by rw [move_done, push_move]) ⟨nofun, trivial⟩

end Parser

end PklSyntax
