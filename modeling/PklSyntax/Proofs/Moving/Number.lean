import PklSyntax.Proofs.Layout.Literal
import PklSyntax.Proofs.Moving.Token

/-!
# Numbers in two texts

A number is read in tight mode, in which the cursor is at the end of the last token throughout. A
number does not run on into a name, so all of its digits are in the stretch with it; and where the
stretch ends behind a character of a name, no name goes on there in either text.

## Main definitions

* `Overlap.OnName`: the cursor is in the stretch, or behind a character of a name.

## Main statements

* `Parser.number_mirrors`: numbers.
-/

namespace PklSyntax

variable {W : Overlap} {s t : State} {c : Nat} {b : Bool}

namespace Overlap

/-- The cursor is in the stretch, or behind a character of a name. -/
def OnName (W : Overlap) (s : State) (c : Nat) : Prop :=
  (∀ t, W.Together true s c t → W.Inside s.pos) ∨
    Arrived s c ∧ W.lo < s.pos ∧ continuesName (charAt W.left.text (s.pos - 1)) = true

namespace OnName

theorem sited (h : W.OnName s c) : W.Sited s c := by
  rcases h with hin | ⟨hfresh, -⟩
  · exact .of_inside hin
  · exact hfresh.sited

/-- Either the cursors are at the same character, or no name goes on at either of them. -/
theorem charAt_cases (h : W.OnName s c) (ht : W.Together true s c t) :
    W.Inside s.pos ∧ charAt W.right.text t.pos = charAt W.left.text s.pos ∨
      continuesName (charAt W.left.text s.pos) = false ∧
        continuesName (charAt W.right.text t.pos) = false := by
  obtain ⟨hpos, hstop⟩ := h.sited t ht
  by_cases hin : W.Inside s.pos
  · exact .inl ⟨hin, by rw [hpos, charAt_place ht.lo_le_pos hin]⟩
  · rcases h with hin' | ⟨hfresh, hlo, hlast⟩
    · exact absurd (hin' t ht) hin
    · rw [Inside, not_or, Bool.not_eq_true] at hin
      have heq : s.pos = W.stop := by
        have := hstop.resolve_right (by simp [hin.2])
        omega
      obtain ⟨hleft, hright⟩ := continuesName_of_cut hin.2 (heq ▸ hlast) (by omega)
      rw [hpos, heq]
      exact .inr ⟨hleft, hright⟩

/-- A question about characters of names has the same answer at both cursors. -/
theorem char_eq (h : W.OnName s c) (ht : W.Together true s c t) {p : Char → Bool}
    (hp : ∀ d, p d = true → continuesName d = true) :
    p (charAt W.right.text t.pos) = p (charAt W.left.text s.pos) := by
  have hnot : ∀ {d}, continuesName d = false → p d = false := fun hd =>
    Bool.eq_false_iff.2 fun hpd => Bool.false_ne_true (hd.symm.trans (hp _ hpd))
  rcases h.charAt_cases ht with ⟨-, heq⟩ | ⟨hleft, hright⟩
  · rw [heq]
  · rw [hnot hleft, hnot hright]

theorem inside (h : W.OnName s c) (ht : W.Together true s c t)
    (hchar : continuesName (charAt W.left.text s.pos) = true) : W.Inside s.pos := by
  rcases h.charAt_cases ht with ⟨hin, -⟩ | ⟨hleft, -⟩
  · exact hin
  · rw [hleft] at hchar
    cases hchar

end OnName

/-- Behind a character of a name the texts agree on a question about characters of names, also where
the stretch ends. -/
theorem charAt_succ_eq {i : Nat} (hlo : W.lo ≤ i) (hi : W.Inside i)
    (hname : continuesName (charAt W.left.text i) = true) :
    W.Inside (i + 1) ∧ charAt W.right.text (W.place i + 1) = charAt W.left.text (i + 1) ∨
      W.whole = false ∧ i + 1 = W.stop ∧ continuesName (charAt W.left.text (i + 1)) = false ∧
        continuesName (charAt W.right.text (W.place i + 1)) = false := by
  rw [← place_add hlo]
  by_cases hin : W.Inside (i + 1)
  · exact .inl ⟨hin, charAt_place (by omega) hin⟩
  · rw [Inside, not_or, Bool.not_eq_true] at hin
    have hlt : i < W.stop := hi.resolve_right (by simp [hin.2])
    have heq : i + 1 = W.stop := by omega
    have hlast : continuesName (charAt W.left.text (W.stop - 1)) = true := by
      rwa [← heq, Nat.add_sub_cancel]
    rw [heq]
    exact .inr ⟨hin.2, rfl, continuesName_of_cut hin.2 hlast (by omega)⟩

end Overlap

/-- A digit in the wide sense cannot stand directly behind a declaration. -/
theorem isSign_of_isDigitLike {d : Char} (h : isDigitLike d = true) : isSign d = true := by
  have hname := continuesName_of_isDigitLike h
  have hstart : startsName d = false := by
    rw [← Bool.not_eq_true]
    intro hstart
    rw [not_isDigitLike_of_startsName hstart] at h
    cases h
  rw [isSign, mayFollow, beginsDeclaration, not_isTriviaBlank_of_continuesName hname, hstart]
  have hslash := ne_slash_of_continuesName hname
  have hnul := ne_nul_of_continuesName hname
  have hat : d ≠ '@' := by
    rintro rfl
    exact absurd hname (by decide)
  have htick : d ≠ backtick := by
    rintro rfl
    exact absurd hname (by decide)
  simp [hslash, hnul, hat, htick]

namespace Parser

variable {mode : Mode}

/-- In tight mode the cursor may also be left where it is. -/
theorem moveTo_tight_mirrors {pos pos' : Nat} (hle : s.pos ≤ pos) (hsize : pos ≤ W.left.text.size)
    (hsited : W.Sited s c)
    (hpos' : W.Together true s c t → pos ≤ W.stop ∨ W.whole = true → pos' = W.place pos) :
    Mirrors W .tight true (fun _ => true) (moveTo pos) (moveTo pos') s c t fun _ s' c' =>
      s' = { s with pos } ∧ (c' = pos ∧ Arrived s' c' ∧ s.pos < pos ∨ pos = s.pos ∧ c' = c) := by
  refine .of_linked fun h => ?_
  rcases Nat.lt_or_eq_of_le hle with hlt | rfl
  · refine (moveTo_mirrors (poised_of_tight h.mode_eq) hlt hsize
      fun ht => hpos' (ht.mono nofun)).mono fun _ s' c' _ hQ => ?_
    exact ⟨hQ.1, .inl ⟨hQ.2.1, hQ.2.2, hlt⟩⟩
  · intro h
    refine ⟨c, .refl h.stands, ⟨rfl, .inr ⟨rfl, rfl⟩⟩, fun hjoined hlive => ?_⟩
    have ht : W.Together true s c t := ⟨h.lo_le, h.stands, hlive, hjoined hlive⟩
    obtain ⟨hpos, hstop⟩ := hsited t ht
    refine ⟨t, ?_, hjoined hlive⟩
    rw [hpos' ht hstop, ← hpos]
    rfl

theorem endOfNumber_mirrors {start start' : Nat} (hon : W.OnName s c)
    (hlo : W.lo ≤ start) (hle : start ≤ s.pos)
    (hstart : W.Together true s c t → start' = W.place start) :
    Mirrors W mode true (fun _ => true) (endOfNumber start) (endOfNumber start') s c t
      fun _ s' c' => s' = s ∧ c' = c ∧ continuesName (charAt W.left.text s.pos) = false := by
  refine .peel peek_looks peek_looks (.cond (fun ht => hon.char_eq ht fun _ h => h) (fun _ => ?_)
    fun hchar => .pure rfl ⟨rfl, rfl, hchar⟩)
  refine .mono (P := fun _ _ _ => False) ?_ fun _ _ _ _ h => h.elim
  refine .look_inside nofun wordEnd_looks wordEnd_looks (fun h => h.nameEnd_eq) ?_
  have hend := le_skipWhile W.left.text continuesName s.pos
  refine .look_inside nofun (slice_looks _ _) (slice_looks _ _)
    (a := sliceOf W.left.text start (skipWhile W.left.text continuesName s.pos)) (fun h => ?_) ?_
  · rw [hstart (h.mono nofun)]
    exact Overlap.sliceOf_place hlo (by omega)
      (Overlap.nameEnd_place h.lo_le_pos h.inside fun _ h => h).2
  · refine failWith_mirrors rfl rfl fun h => ?_
    rw [hstart (h.mono nofun), Overlap.ofNat_place hlo (by omega)]

/-- Reading digits where a character of a name stands in the stretch. -/
theorem digits_mirrors {base : IntBase} {start : Nat} (hle : start ≤ s.pos)
    (hin : ∀ t, W.Together true s c t → W.Inside s.pos)
    (hchar : continuesName (charAt W.left.text s.pos) = true) :
    Mirrors W .tight true (fun _ => true) (digits base) (digits base) s c t fun _ s' c' =>
      InNumber W.left.text start s' c' ∧ W.OnName s' c' := by
  have hdigit : ∀ d, (base.isDigit d || d == '_') = true → continuesName d = true := by
    intro d hd
    rw [Bool.or_eq_true, beq_iff_eq] at hd
    rcases hd with hd | rfl
    · exact continuesName_of_isDigit hd
    · decide
  have hsited : W.Sited s c := .of_inside hin
  refine .of_linked fun hlink => ?_
  have hlo := hlink.lo_le
  have hpos := hlink.stands.le_pos
  refine .look position_looks position_looks (fun h => (hsited t h).1)
    (.peel theText_looks theText_looks ?_)
  have hskip := le_skipWhile W.left.text (fun d => base.isDigit d || d == '_') s.pos
  have hsize := skipWhile_le_size W.left.text (fun d => base.isDigit d || d == '_')
    hlink.stands.pos_le_size
  obtain ⟨hrun, -⟩ := @skipWhile_spec W.left.text s.pos fun d => base.isDigit d || d == '_'
  refine (moveTo_tight_mirrors hskip hsize hsited fun h _ => ?_).bind fun _ s₁ c₁ t₁ _ hmove => ?_
  · exact (Overlap.nameEnd_place h.lo_le_pos (hin t h) hdigit).1
  obtain ⟨rfl, hc⟩ := hmove
  have hin₁ : InNumber W.left.text start
      { s with pos := skipWhile W.left.text (fun d => base.isDigit d || d == '_') s.pos } c₁ ∧
      W.OnName { s with pos := skipWhile W.left.text (fun d => base.isDigit d || d == '_') s.pos }
        c₁ := by
    rcases hc with ⟨rfl, hfresh, hlt⟩ | ⟨heq, rfl⟩
    · have hlast := hdigit _ (hrun _ (Nat.le_sub_one_of_lt hlt) (by omega)).2
      exact ⟨.inl ⟨Nat.lt_of_le_of_lt hle hlt, rfl, hlast⟩,
        .inr ⟨hfresh, by simp only; omega, hlast⟩⟩
    · rw [heq]
      exact ⟨.inr ⟨hle, hchar⟩, .inl hin⟩
  refine (sliceFrom_mirrors hin₁.2.sited (by omega) fun _ => rfl).bind
    fun run s₂ c₂ t₂ _ hslice => ?_
  obtain ⟨rfl, rfl, rfl⟩ := hslice
  generalize sliceOf W.left.text s.pos _ = run
  cases hplace : misplacedUnderscore? run with
  | none => exact .pure rfl hin₁
  | some found =>
    obtain ⟨i, place⟩ := found
    refine failWith_mirrors rfl rfl fun _ => ?_
    rw [← Overlap.place_add (by omega), ← Overlap.place_add (by omega),
      Overlap.ofNat_place (by omega) (by omega)]

theorem fraction_mirrors {start : Nat} (hle : start ≤ s.pos) :
    Mirrors W .tight true (fun _ => true) fraction fraction s c t fun found s' c' =>
      if found = true then InNumber W.left.text start s' c' ∧ W.OnName s' c'
      else s' = s ∧ c' = c ∧
        (charAt W.left.text s.pos == '.' &&
          isDigitLike (charAt W.left.text (s.pos + 1))) = false := by
  refine .peel peek_looks peek_looks (.peel (peekAt_looks 1) (peekAt_looks 1) ?_)
  refine .cond (fun h => ?_) (fun hpoint => ?_) fun hpoint => .pure rfl ⟨rfl, rfl, hpoint⟩
  · rw [h.charAt_beq (by decide)]
    cases hdot : charAt W.left.text s.pos == '.' with
    | false => rw [Bool.false_and, Bool.false_and]
    | true =>
      rw [beq_iff_eq] at hdot
      have hstrict := h.strict (by rw [hdot]; decide)
      rw [hstrict.charAt_add (Overlap.inside_succ hstrict.inside (by rw [hdot]; decide))]
  · simp only [Bool.and_eq_true, beq_iff_eq] at hpoint
    refine (advance_sign_mirrors (by rw [hpoint.1]; decide)).bind fun _ s₁ c₁ t₁ _ hadv => ?_
    obtain ⟨rfl, rfl, -⟩ := hadv
    have hnext := continuesName_of_isDigitLike hpoint.2
    refine (digits_mirrors (s := { s with pos := s.pos + 1 }) (Nat.le_succ_of_le hle)
      (fun t ht => ?_) hnext).bind fun _ s₂ c₂ t₂ _ h => .pure rfl h
    exact (ht.strict (isSign_of_isDigitLike hpoint.2)).inside

/-- An exponent stands at both cursors, or at none. -/
theorem exponentAt_eq (hon : W.OnName s c) (h : W.Together true s c t) :
    exponentAt W.right.text t.pos = exponentAt W.left.text s.pos := by
  have hletter : ∀ d : Char, (d == 'e' || d == 'E') = true → continuesName d = true := by
    intro d hd
    rw [Bool.or_eq_true, beq_iff_eq, beq_iff_eq] at hd
    rcases hd with rfl | rfl <;> decide
  rw [exponentAt, exponentAt, hon.char_eq h hletter]
  cases hfirst : charAt W.left.text s.pos == 'e' || charAt W.left.text s.pos == 'E' with
  | false => rw [Bool.false_and, Bool.false_and]
  | true =>
    have hname := hletter _ hfirst
    have hin := hon.inside h hname
    have hpos := h.abreast.pos_eq h.lo_le h.stands hin
    rw [hpos]
    rcases Overlap.charAt_succ_eq h.lo_le_pos hin hname with
      ⟨hin₁, hchar⟩ | ⟨hw, hstop, hleft, hright⟩
    · rw [hchar]
      cases hsign :
          charAt W.left.text (s.pos + 1) == '+' || charAt W.left.text (s.pos + 1) == '-' with
      | false => rfl
      | true =>
        have hends : endsToken (charAt W.left.text (s.pos + 1)) = false := by
          rw [Bool.or_eq_true, beq_iff_eq, beq_iff_eq] at hsign
          rcases hsign with hsign | hsign <;> rw [hsign] <;> decide
        have hin₂ := Overlap.inside_succ hin₁ hends
        have hlo := h.lo_le_pos
        rw [← Overlap.place_add hlo, Overlap.charAt_place (by omega) hin₂]
    · -- Where the stretch ends neither a digit nor a sign follows.
      obtain ⟨-, hends, hends', -⟩ := W.cut hw
      have hnot : ∀ {text e}, Ends text e → continuesName (charAt text e) = false →
          (isDigitLike (charAt text e) || (charAt text e == '+' || charAt text e == '-') &&
            isDigitLike (charAt text (e + 1))) = false := by
        intro text e hends hname
        have hdigit : isDigitLike (charAt text e) = false :=
          Bool.eq_false_iff.2 fun hd =>
            Bool.false_ne_true (hname.symm.trans (continuesName_of_isDigitLike hd))
        rw [hdigit, beq_eq_false_iff_ne.2 (hends.charAt_ne (by decide)),
          beq_eq_false_iff_ne.2 (hends.charAt_ne (by decide))]
        rfl
      have heq : W.place s.pos + 1 = (W.stop + W.offset).toNat := by
        rw [← Overlap.place_add h.lo_le_pos, hstop]
        rfl
      exact (hnot (heq ▸ hends') hright).trans (hnot (hstop ▸ hends) hleft).symm

theorem exponent_mirrors {start : Nat} (hle : start ≤ s.pos)
    (hin : InNumber W.left.text start s c) (hon : W.OnName s c) :
    Mirrors W .tight true (fun _ => true) exponent exponent s c t fun _ s' c' =>
      InNumber W.left.text start s' c' ∧ W.OnName s' c' := by
  refine .look atExponent_looks atExponent_looks (fun h => exponentAt_eq hon h) ?_
  refine .ite (fun hexp => ?_) fun _ => .pure rfl ⟨hin, hon⟩
  simp only [exponentAt, Bool.and_eq_true, Bool.or_eq_true, beq_iff_eq] at hexp
  obtain ⟨hletter, hnext⟩ := hexp
  have hopens : opensToken (charAt W.left.text s.pos) = true := by
    rcases hletter with h | h <;> rw [h] <;> decide
  refine (advance_sign_mirrors hopens).bind fun _ s₁ c₁ t₁ _ hadv => ?_
  obtain ⟨rfl, rfl, -⟩ := hadv
  have hsign : isSign (charAt W.left.text (s.pos + 1)) = true := by
    rcases hnext with hdigit | ⟨h | h, -⟩
    · exact isSign_of_isDigitLike hdigit
    · rw [h]
      decide
    · rw [h]
      decide
  refine .look peek_looks peek_looks (fun h => (h.strict hsign).charAt_eq) ?_
  refine .option (P := fun _ s' _ => start ≤ s'.pos ∧
    isDigitLike (charAt W.left.text s'.pos) = true) () rfl (fun hplus => ?_) (fun hplus => ?_)
    fun _ s₂ c₂ t₂ _ h => (digits_mirrors h.1 (fun t ht =>
      (ht.strict (isSign_of_isDigitLike h.2)).inside) (continuesName_of_isDigitLike h.2)).bind
        fun _ s₃ c₃ t₃ _ hrun => .pure rfl hrun
  · simp only [Bool.or_eq_true, beq_iff_eq] at hplus
    refine (advance_sign_mirrors (s := { s with pos := s.pos + 1 })
      (opensToken_of_isSign hsign)).mono fun _ s₂ c₂ _ hadv => ?_
    obtain ⟨rfl, -, -⟩ := hadv
    refine ⟨by simp only; omega, ?_⟩
    rcases hnext with hdigit | ⟨-, hdigit⟩
    · rcases hplus with h | h <;> rw [h] at hdigit <;> exact absurd hdigit (by decide)
    · exact hdigit
  · simp only [Bool.or_eq_false_iff, beq_eq_false_iff_ne] at hplus
    refine ⟨Nat.le_succ_of_le hle, ?_⟩
    rcases hnext with hdigit | ⟨h | h, -⟩
    · exact hdigit
    · exact absurd h hplus.1
    · exact absurd h hplus.2

theorem basedNumber_mirrors {start : Nat} {base : IntBase} (hstart : start = s.pos)
    (hin : ∀ t, W.Together true s c t → W.Inside (s.pos + 1))
    (hletter : continuesName (charAt W.left.text (s.pos + 1)) = true) :
    Mirrors W .tight true (fun _ => true) (basedNumber start base)
      (basedNumber (W.place start) base)
      s c t fun literal _ c' => ReadTo literal.span c c' := by
  subst hstart
  refine .of_linked fun hlink => ?_
  have hlo := hlink.lo_le
  have hle := hlink.stands.le_pos
  have hstart : W.lo ≤ s.pos := Nat.le_trans hlo hle
  have hsize := lt_size_of_charAt_ne (ne_nul_of_continuesName hletter)
  have hdigit : ∀ d, (base.isDigit d || d == '_') = true → continuesName d = true := by
    intro d hd
    rw [Bool.or_eq_true, beq_iff_eq] at hd
    rcases hd with hd | rfl
    · exact continuesName_of_isDigit hd
    · decide
  refine .look (peekAt_looks 1) (peekAt_looks 1) (a := charAt W.left.text (s.pos + 1))
    (fun h => ?_) ?_
  · have hin := hin t h
    have hpos := h.abreast.pos_eq h.lo_le h.stands (hin.imp_left fun _ => by omega)
    rw [hpos, ← Overlap.place_add (by omega), Overlap.charAt_place (by omega) hin]
  refine (advance_mirrors (poised_of_tight hlink.mode_eq) (by omega) hsize).bind
    fun _ s₁ c₁ t₁ _ hadv => ?_
  obtain ⟨rfl, rfl, hfresh⟩ := hadv
  have hon : W.OnName { s with pos := s.pos + 2 } (s.pos + 2) :=
    .inr ⟨hfresh, by simp only; omega, hletter⟩
  refine .peel peek_looks peek_looks (.cond (fun h => ?_) (fun _ => ?_) fun hfirst => ?_)
  · have := hon.char_eq h hdigit
    rw [bne, bne, ← Bool.not_or, ← Bool.not_or, this]
  · refine .mono (P := fun _ _ _ => False) ?_ fun _ _ _ _ h => h.elim
    refine (spanFrom_mirrors hfresh.sited hstart fun _ => rfl).bind fun span s₂ c₂ t₂ _ hspan => ?_
    obtain ⟨rfl, -, -⟩ := hspan
    exact failWith_bind_mirrors rfl rfl fun _ => rfl
  · rw [bne, ← Bool.not_or, Bool.not_eq_false'] at hfirst
    have hchar := hdigit _ hfirst
    refine (digits_mirrors (Nat.le_add_right s.pos _) (fun t ht => hon.inside ht hchar)
      hchar).bind fun run s₂ c₂ t₂ h₂ hrun => ?_
    refine (endOfNumber_mirrors hrun.2 hstart (by have := h₂.le; have := h₂.stands.le_pos; omega)
      fun _ => rfl).bind
      fun _ s₃ c₃ t₃ _ hend => ?_
    obtain ⟨rfl, rfl, hend⟩ := hend
    refine (spanFrom_mirrors hrun.2.sited hstart fun _ => rfl).bind fun span s₄ c₄ t₄ _ hspan => ?_
    obtain ⟨rfl, rfl, rfl⟩ := hspan
    obtain ⟨hlt, rfl, -⟩ := hrun.1.tokenEnd hend
    exact .pure rfl ⟨by omega, rfl⟩

theorem decimalNumber_mirrors {start : Nat} (hstart : start = s.pos)
    (hnum : isDigitLike (charAt W.left.text s.pos) = true ∨
      charAt W.left.text s.pos = '.' ∧ isDigitLike (charAt W.left.text (s.pos + 1)) = true) :
    Mirrors W .tight true (fun _ => true) (decimalNumber start W.left.options.styleWarnings)
      (decimalNumber (W.place start) W.right.options.styleWarnings) s c t fun literal _ c' =>
        ReadTo literal.span c c' := by
  subst hstart
  refine .of_linked fun hlink => ?_
  have hlo := Nat.le_trans hlink.lo_le hlink.stands.le_pos
  have hle := hlink.stands.le_pos
  have hsign : isSign (charAt W.left.text s.pos) = true := by
    rcases hnum with h | h
    · exact isSign_of_isDigitLike h
    · rw [h.1]
      decide
  refine .look peek_looks peek_looks (fun h => (h.strict hsign).charAt_eq) ?_
  -- Behind the integer part, which is missing when a point comes first.
  refine .branch (P := fun _ s' c' => s.pos ≤ s'.pos ∧ (InNumber W.left.text s.pos s' c' ∧
    W.OnName s' c' ∨
    s' = s ∧ c' = c ∧
      charAt W.left.text s.pos = '.' ∧ isDigitLike (charAt W.left.text (s.pos + 1)) = true))
    (fun hdot => .pure rfl ?_) (fun hdot => ?_) fun integer s₁ c₁ t₁ h₁ hinteger => ?_
  · rw [beq_iff_eq] at hdot
    rcases hnum with hdigit | hpoint
    · rw [hdot] at hdigit
      exact absurd hdigit (by decide)
    · exact ⟨Nat.le_refl _, .inr ⟨rfl, rfl, hpoint⟩⟩
  · rw [beq_eq_false_iff_ne] at hdot
    rcases hnum with hdigit | hpoint
    · exact (digits_mirrors (Nat.le_refl _) (fun t ht => (ht.strict hsign).inside)
        (continuesName_of_isDigitLike hdigit)).mono
        fun _ s' c' h' h => ⟨h'.pos_le, .inl h⟩
    · exact absurd hpoint.1 hdot
  refine (fraction_mirrors hinteger.1).bind fun found s₂ c₂ t₂ h₂ hfraction => ?_
  have hnumber : InNumber W.left.text s.pos s₂ c₂ ∧ W.OnName s₂ c₂ := by
    cases found with
    | true => exact hfraction
    | false =>
      obtain ⟨rfl, rfl, hnot⟩ := hfraction
      rcases hinteger.2 with hin | ⟨rfl, -, hdot, hdigit⟩
      · exact hin
      · rw [hdot, hdigit] at hnot
        simp at hnot
  have hle₂ := h₂.pos_le
  have hle₁ := hinteger.1
  refine (exponent_mirrors (by omega) hnumber.1 hnumber.2).bind
    fun hasExponent s₃ c₃ t₃ h₃ hnumber₃ => ?_
  have hle₃ := h₃.pos_le
  refine (endOfNumber_mirrors hnumber₃.2 hlo (by omega) fun _ => rfl).bind
    fun _ s₄ c₄ t₄ _ hend => ?_
  obtain ⟨rfl, rfl, hend⟩ := hend
  refine (spanFrom_mirrors hnumber₃.2.sited hlo fun _ => rfl).bind fun span s₅ c₅ t₅ _ hspan => ?_
  obtain ⟨rfl, rfl, rfl⟩ := hspan
  obtain ⟨hlt, rfl, -⟩ := hnumber₃.1.tokenEnd hend
  refine .ite (fun _ => .pure rfl ⟨by omega, rfl⟩) fun _ => ?_
  refine (sliceFrom_mirrors hnumber₃.2.sited hlo fun _ => rfl).bind
    fun value s₆ c₆ t₆ _ hslice => ?_
  obtain ⟨rfl, rfl, rfl⟩ := hslice
  rw [ite_bind, ite_bind]
  exact (warn_if_mirrors rfl rfl).bind fun _ s₇ c₇ t₇ _ hreport =>
    .pure rfl ⟨by omega, congrArg Int.ofNat hreport.2.symm⟩

theorem floatWord_mirrors {start : Nat} {word : String} (hlo : W.lo ≤ start)
    (hstart : start = s.pos)
    (hword : isName word = true) (hmatch : wordAt W.left.text word s.pos = true) :
    Mirrors W .tight true (fun _ => true) (floatWord start word) (floatWord (W.place start) word)
      s c t fun literal _ c' => ReadTo literal.span c c' := by
  subst hstart
  refine .of_linked fun hlink => ?_
  have hle := hlink.stands.le_pos
  have hlen : 0 < word.length := Nat.pos_of_ne_zero fun h =>
    ne_empty_of_isName hword (String.length_eq_zero_iff.1 h)
  refine (advance_matched_mirrors (poised_of_tight hlink.mode_eq) (matchesAt_of_wordAt hmatch)
    (ne_empty_of_isName hword)).bind fun _ s₁ c₁ t₁ _ hadv => ?_
  obtain ⟨rfl, rfl, hfresh⟩ := hadv
  refine (spanFrom_mirrors hfresh.sited hlo fun _ => rfl).bind fun span s₂ c₂ t₂ _ hspan => ?_
  obtain ⟨rfl, rfl, rfl⟩ := hspan
  exact .pure rfl ⟨by omega, rfl⟩

theorem continuesName_of_ofLetter? {d : Char} {base : IntBase}
    (h : IntBase.ofLetter? d = some base) : continuesName d = true := by
  rw [IntBase.ofLetter?] at h
  split at h
  · rename_i hd
    rw [Bool.or_eq_true, beq_iff_eq, beq_iff_eq] at hd
    rcases hd with rfl | rfl <;> decide
  · split at h
    · rename_i hd
      rw [Bool.or_eq_true, beq_iff_eq, beq_iff_eq] at hd
      rcases hd with rfl | rfl <;> decide
    · split at h
      · rename_i hd
        rw [Bool.or_eq_true, beq_iff_eq, beq_iff_eq] at hd
        rcases hd with rfl | rfl <;> decide
      · cases h

/-- Behind a character of a name the texts agree on the letters that announce a base. -/
theorem ofLetter?_eq (h : W.Together false s c t)
    (hname : continuesName (charAt W.left.text s.pos) = true) :
    IntBase.ofLetter? (charAt W.right.text (t.pos + 1)) =
      IntBase.ofLetter? (charAt W.left.text (s.pos + 1)) := by
  have hnone : ∀ {d}, continuesName d = false → IntBase.ofLetter? d = none := fun hd =>
    Option.eq_none_iff_forall_not_mem.2 fun base hbase =>
      Bool.false_ne_true (hd.symm.trans (continuesName_of_ofLetter? hbase))
  rw [h.pos_eq]
  rcases Overlap.charAt_succ_eq h.lo_le_pos h.inside hname with ⟨-, heq⟩ | ⟨-, -, hleft, hright⟩
  · rw [heq]
  · rw [hnone hleft, hnone hright]

theorem number_mirrors (hnum : numberAt W.left.text s.pos = true) :
    Mirrors W mode b (fun _ => true) (number W.left.options.styleWarnings)
      (number W.right.options.styleWarnings) s c t
      fun literal _ c' => ReadTo literal.span c c' := by
  have hQ : ∀ (a : NumberLiteral) (s' : State) (c' : Nat),
      ReadTo a.span c c' → true = true → c < c' := fun _ _ _ h _ => h.lt
  refine .of_linked fun hlink => .of_lt hQ ?_
  have hlo := Nat.le_trans hlink.lo_le hlink.stands.le_pos
  refine inMode_mirrors (hlink.stands.poised_of_opens (opensToken_of_numberAt hnum)) ?_
  refine .look_inside hQ position_looks position_looks (fun h => h.pos_eq) ?_
  refine .look_inside hQ (atWord_looks _) (atWord_looks _) (fun h => h.wordAt_eq (by decide)) ?_
  refine .ite (fun hnan => floatWord_mirrors hlo rfl (by decide) hnan) fun hnan => ?_
  refine .look_inside hQ (atWord_looks _) (atWord_looks _) (fun h => h.wordAt_eq (by decide)) ?_
  refine .ite (fun hinf => floatWord_mirrors hlo rfl (by decide) hinf) fun hinf => ?_
  refine .look_inside hQ peek_looks peek_looks (fun h => h.charAt_eq) ?_
  have hdigit : isDigitLike (charAt W.left.text s.pos) = true ∨
      charAt W.left.text s.pos = '.' ∧ isDigitLike (charAt W.left.text (s.pos + 1)) = true := by
    simp only [numberAt, Bool.or_eq_true, Bool.and_eq_true, beq_iff_eq] at hnum
    rcases hnum with (hnum | hword) | hword
    · exact hnum
    · simp only [hword] at hnan
      cases hnan
    · simp only [hword] at hinf
      cases hinf
  cases hzero : charAt W.left.text s.pos == '0' with
  | false => exact .peel (peekAt_looks 1) (peekAt_looks 1) (decimalNumber_mirrors rfl hdigit)
  | true =>
    rw [beq_iff_eq] at hzero
    have hname : continuesName (charAt W.left.text s.pos) = true := by
      rw [hzero]
      decide
    have hsign : isSign (charAt W.left.text s.pos) = true := by
      rw [hzero]
      decide
    -- Behind the zero the texts agree on the letters that announce a base.
    refine .peel (peekAt_looks 1) (peekAt_looks 1)
      (.swap (r := (IntBase.ofLetter? (charAt W.left.text (s.pos + 1))).elim
        (decimalNumber (W.place s.pos) W.right.options.styleWarnings)
        (basedNumber (W.place s.pos))) (fun _ hjoined hope => ?_) ?_)
    · have hlive : W.Live false _ _ := hope.level _ fun a s' c' hq _ => hQ a s' c' hq
      have hletter := ofLetter?_eq
        ⟨hlink.lo_le, hlink.stands.with_mode _, hlive, hjoined (hlive.mono fun h => by cases h)⟩
        hname
      generalize IntBase.ofLetter? (charAt W.right.text _) = letter at hletter ⊢
      rw [← hletter]
      cases letter <;> rfl
    · dsimp only
      cases hbase : IntBase.ofLetter? (charAt W.left.text (s.pos + 1)) with
      | none => exact decimalNumber_mirrors rfl hdigit
      | some base =>
        refine basedNumber_mirrors rfl (fun t ht => ?_) (continuesName_of_ofLetter? hbase)
        have hin := (ht.strict hsign).inside
        rcases Overlap.charAt_succ_eq ht.lo_le_pos hin hname with ⟨hin, -⟩ | ⟨-, -, hleft, -⟩
        · exact hin
        · rw [continuesName_of_ofLetter? hbase] at hleft
          cases hleft

end Parser

end PklSyntax
