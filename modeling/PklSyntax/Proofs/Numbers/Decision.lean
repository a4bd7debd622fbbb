import PklSyntax.Proofs.Numbers.Reading

/-!
# What is a number

A number is read exactly where a literal stands that does not run on into a name, and up to its end.
Everywhere else one error is recorded, always with the same code, and the number is given up.

A part of a number that is looked for comes to one of three ends: the part stands in the text; one
error is recorded; or a digit is found that is none of `0` to `9`. Behind such a digit nothing more
is read, and since it can stand in a name the number runs on into one.

## Main definitions

* `Parser.Decides`: a parser comes to a result, or records one error and gives up.

## Main statements

* `Parser.number_decides`: where a number is read, a literal stands.
* `Parser.number_iff_stands`: what is read is what stands in the text.
-/

namespace PklSyntax

namespace Parser

variable {α β : Type} {ctx : Context} {s s' : State} {before : Array Diagnostic} {base : IntBase}

/-! ### Results and errors -/

/-- The parser comes to a result in a state that is as `Q` says; or it records one error about a
number, behind what was recorded before, and gives up. -/
def Decides (p : Parser α) (ctx : Context) (s : State) (before : Array Diagnostic)
    (Q : State → Prop) : Prop :=
  p.Reads ctx s (fun _ => Q) ∨ ∃ d s', p ctx s = .error .failed s' ∧
    s'.diagnostics = before.push d ∧ d.code = "E103" ∧ d.isError = true

namespace Decides

variable {p q : Parser α} {f : α → Parser β} {P Q : State → Prop}

theorem pure {b : β} (h : Q s) : Decides (Pure.pure b) ctx s before Q := .inl (.pure h)

theorem bind (hp : p.Decides ctx s before P)
    (hf : ∀ a s', P s' → (f a).Decides ctx s' before Q) : (p >>= f).Decides ctx s before Q := by
  rcases hp with ⟨a, s', hrun, hP⟩ | ⟨d, s', hrun, hfault⟩
  · rcases hf a s' hP with ⟨b, s'', hrun', hQ⟩ | ⟨d, s'', hrun', hfault⟩
    · exact .inl ⟨b, s'', by rw [bind_apply, hrun]; exact hrun', hQ⟩
    · exact .inr ⟨d, s'', by rw [bind_apply, hrun]; exact hrun', hfault⟩
  · exact .inr ⟨d, s', by rw [bind_apply, hrun], hfault⟩

/-- What follows a run that is known. -/
theorem of_run {a : α} {s' : State} (hrun : p ctx s = .ok a s')
    (hf : (f a).Decides ctx s' before Q) : (p >>= f).Decides ctx s before Q := by
  rcases hf with ⟨b, s'', hrun', hQ⟩ | ⟨d, s'', hrun', hfault⟩
  · exact .inl ⟨b, s'', by rw [bind_apply, hrun]; exact hrun', hQ⟩
  · exact .inr ⟨d, s'', by rw [bind_apply, hrun]; exact hrun', hfault⟩

theorem look {v : Context → State → α} (hp : Looks p v)
    (hf : (f (v ctx s)).Decides ctx s before Q) : (p >>= f).Decides ctx s before Q :=
  of_run (hp ctx s) hf

theorem ite {b : Bool} {p q : Parser β} (hp : b = true → p.Decides ctx s before Q)
    (hq : b = false → q.Decides ctx s before Q) :
    (if b = true then p else q).Decides ctx s before Q := by
  cases b with
  | true => exact hp rfl
  | false => exact hq rfl

/-- One way or the other, and what follows both. -/
theorem branch {b : Bool} (hp : b = true → p.Decides ctx s before P)
    (hq : b = false → q.Decides ctx s before P)
    (hf : ∀ a s', P s' → (f a).Decides ctx s' before Q) :
    (if b = true then p >>= f else q >>= f).Decides ctx s before Q :=
  ite (fun hb => (hp hb).bind hf) fun hb => (hq hb).bind hf

theorem mono (hp : p.Decides ctx s before P) (h : ∀ s', P s' → Q s') :
    p.Decides ctx s before Q :=
  hp.imp_left fun hreads => hreads.mono fun _ => h

theorem failWith {problem : Problem} {span : Span} (hs : s.diagnostics = before)
    (hcode : (problem.diagnostic span).code = "E103")
    (herror : (problem.diagnostic span).isError = true) :
    (Parser.failWith problem span : Parser β).Decides ctx s before Q :=
  .inr ⟨problem.diagnostic span, _, rfl, by rw [← hs], hcode, herror⟩

theorem failWith_bind {problem : Problem} {span : Span} (hs : s.diagnostics = before)
    (hcode : (problem.diagnostic span).code = "E103")
    (herror : (problem.diagnostic span).isError = true) :
    ((Parser.failWith problem span : Parser α) >>= f).Decides ctx s before Q :=
  .inr ⟨problem.diagnostic span, _, rfl, by rw [← hs], hcode, herror⟩

/-- A parser in a mode of its own. -/
theorem inMode {mode : Mode}
    (hp : p.Decides ctx { s with mode } before fun s' => P { s' with mode := s.mode }) :
    (Parser.inMode mode p).Decides ctx s before P := by
  rcases hp with hreads | ⟨d, s', hrun, hfault⟩
  · exact .inl (.inMode hreads)
  · exact .inr ⟨d, { s' with mode := s.mode }, by rw [Parser.inMode, hrun], hfault⟩

end Decides

/-! ### What is read stands in the text -/

/-- The cursor has been moved over some characters. -/
structure Passed (text : Array Char) (s s' : State) (part : List Char) : Prop where
  exists_rest : ∃ rest, text.toList.drop s.pos = part ++ rest
  state_eq : s' = { s with pos := s.pos + part.length }

/-- A digit in the wide sense is at the cursor, and nothing has been recorded. -/
structure AtWideDigit (text : Array Char) (before : Array Diagnostic) (s : State) : Prop where
  isDigitLike : isDigitLike (charAt text s.pos) = true
  diagnostics : s.diagnostics = before

theorem Passed.nil {text : Array Char} : Passed text s s [] := ⟨⟨_, rfl⟩, rfl⟩

theorem Passed.append {text : Array Char} {s s₁ s₂ : State} {part part' : List Char}
    (h : Passed text s s₁ part) (h' : Passed text s₁ s₂ part') :
    Passed text s s₂ (part ++ part') := by
  obtain ⟨⟨rest, hrest⟩, rfl⟩ := h
  obtain ⟨⟨rest', hrest'⟩, rfl⟩ := h'
  have htail : rest = part' ++ rest' := (drop_add part hrest).symm.trans hrest'
  refine ⟨⟨rest', by rw [hrest, htail, List.append_assoc]⟩, ?_⟩
  rw [List.length_append, Nat.add_assoc]

theorem Passed.pos_eq {text : Array Char} {part : List Char} (h : Passed text s s' part) :
    s'.pos = s.pos + part.length := by rw [h.state_eq]

theorem Passed.diagnostics_eq {text : Array Char} {part : List Char} (h : Passed text s s' part) :
    s'.diagnostics = s.diagnostics := by rw [h.state_eq]

/-- A run of digits is read, or nothing of one stands there, or an underscore is misplaced. -/
theorem digits_decides (hs : s.diagnostics = before) :
    (digits base).Decides ctx s before fun s' =>
      (∃ run, DigitRun base.isDigit run ∧ Passed ctx.text s s' run) ∨
        base.inRun (charAt ctx.text s.pos) = false ∧ s' = s := by
  have hrest : ctx.text.toList.drop s.pos =
      (ctx.text.toList.drop s.pos).takeWhile base.inRun ++
        (ctx.text.toList.drop s.pos).dropWhile base.inRun := List.takeWhile_append_dropWhile.symm
  generalize hrun : (ctx.text.toList.drop s.pos).takeWhile base.inRun = run at hrest
  have hall : ∀ c ∈ run, base.inRun c = true := fun c hc => by
    rw [← hrun] at hc
    exact List.all_eq_true.1 List.all_takeWhile c hc
  have hmove : moveTo (skipWhile ctx.text base.inRun s.pos) ctx s =
      .ok () { s with pos := s.pos + run.length } := by
    rw [← hrun, ← skipWhile_of_drop rfl]
    rfl
  have hslice : sliceOf ctx.text s.pos (s.pos + run.length) = String.ofList run :=
    sliceOf_of_drop hrest
  refine .look position_looks (.look theText_looks (.of_run hmove (.look (sliceFrom_looks _) ?_)))
  rw [hslice]
  split
  · exact .failWith hs rfl rfl
  · rename_i hplaced
    refine .pure ?_
    rcases (misplacedUnderscore?_eq_none hall).1 hplaced with rfl | hdigits
    · refine .inr ⟨?_, rfl⟩
      -- Where no run is, its first character is none of a run, or the text is at its end.
      show base.inRun (charAt ctx.text (s.pos + 0)) = false
      rw [charAt_of_drop rfl]
      cases hchars : ctx.text.toList.drop s.pos with
      | nil => cases base <;> rfl
      | cons c chars =>
        rw [hchars, List.takeWhile_cons] at hrun
        split at hrun
        · cases hrun
        · rename_i hc
          exact Bool.eq_false_iff.2 hc
    · exact .inl ⟨run, hdigits, ⟨_, hrest⟩, rfl⟩

theorem fraction_decides (hs : s.diagnostics = before) :
    fraction.Decides ctx s before fun s' =>
      (∃ part, FractionPart ctx.text s'.pos part ∧ Passed ctx.text s s' part) ∨
        AtWideDigit ctx.text before s' := by
  refine .look peek_looks (.look (peekAt_looks 1) (.ite (fun hpoint => ?_) fun hpoint => ?_))
  · rw [Bool.and_eq_true, beq_iff_eq] at hpoint
    have hrest := drop_of_charAt hpoint.1 (by decide)
    have hadvance : advance 1 ctx s = .ok () { s with pos := s.pos + 1 } :=
      advance_over ['.'] hrest rfl Nat.one_pos
    refine .of_run hadvance (.bind
      (digits_decides (s := { s with pos := s.pos + 1 }) hs) fun _ s' hdigits => .pure ?_)
    rcases hdigits with ⟨run, hrun, ⟨rest, hrun_rest⟩, rfl⟩ | ⟨-, rfl⟩
    · refine .inl ⟨'.' :: run, .inr ⟨run, rfl, hrun⟩, ⟨rest, ?_⟩, ?_⟩
      · rw [hrest, show ctx.text.toList.drop (s.pos + 1) = run ++ rest from hrun_rest]
        rfl
      · simp only [List.length_cons, Nat.add_assoc, Nat.add_comm 1]
    · exact .inr ⟨hpoint.2, hs⟩
  · exact .pure (.inl ⟨[], .inl ⟨rfl, hpoint⟩, .nil⟩)

theorem exponent_decides (hs : s.diagnostics = before) :
    exponent.Decides ctx s before fun s' =>
      (∃ part, ExponentPart ctx.text s'.pos part ∧ Passed ctx.text s s' part) ∨
        AtWideDigit ctx.text before s' := by
  refine .look atExponent_looks (.ite (fun hexponent => ?_) fun hnone => ?_)
  · simp only [exponentAt, Bool.and_eq_true, Bool.or_eq_true, beq_iff_eq] at hexponent
    obtain ⟨hletter, hnext⟩ := hexponent
    generalize hchar : charAt ctx.text s.pos = letter at hletter
    have hrest := drop_of_charAt hchar (by rcases hletter with rfl | rfl <;> decide)
    have hadvance : advance 1 ctx s = .ok () { s with pos := s.pos + 1 } :=
      advance_over [letter] hrest rfl Nat.one_pos
    -- Behind the letter, and the sign if there is one.
    have hdigits (sign : List Char) {tail : List Char} (hsign : sign ∈ [[], ['+'], ['-']])
        (hbehind : ctx.text.toList.drop (s.pos + 1) = sign ++ tail)
        (hwide : isDigitLike (charAt ctx.text (s.pos + 1 + sign.length)) = true) :
        (digits .decimal >>= fun _ => Pure.pure true).Decides ctx
          { s with pos := s.pos + 1 + sign.length } before fun s' =>
            (∃ part, ExponentPart ctx.text s'.pos part ∧ Passed ctx.text s s' part) ∨
              AtWideDigit ctx.text before s' := by
      refine .bind (digits_decides (s := { s with pos := s.pos + 1 + sign.length }) hs)
        fun _ s' hdigits => .pure ?_
      rcases hdigits with ⟨run, hrun, ⟨rest, hrun_rest⟩, rfl⟩ | ⟨-, rfl⟩
      · refine .inl ⟨letter :: (sign ++ run), .inr (.mk (by simpa using hletter) hsign hrun),
          ⟨rest, ?_⟩, ?_⟩
        · have htail : tail = run ++ rest := (drop_add sign hbehind).symm.trans hrun_rest
          rw [hrest, hbehind, htail]
          simp
        · simp only [List.length_cons, List.length_append, State.mk.injEq, and_true]
          omega
      · exact .inr ⟨hwide, hs⟩
    refine .of_run hadvance (.look peek_looks (.ite (fun hsign => ?_) fun hsign => ?_))
    · rw [Bool.or_eq_true, beq_iff_eq, beq_iff_eq] at hsign
      generalize hchar : charAt ctx.text (s.pos + 1) = sign at hsign hnext
      obtain ⟨hnul, hnarrow⟩ : sign ≠ '\x00' ∧ isDigitLike sign ≠ true := by
        rcases hsign with rfl | rfl <;> decide
      have hrest := drop_of_charAt hchar hnul
      exact .of_run (advance_over (s := { s with pos := s.pos + 1 }) [sign] hrest rfl Nat.one_pos)
        (hdigits [sign] (by simpa using hsign) hrest (hnext.resolve_left hnarrow).2)
    · rw [Bool.or_eq_false_iff, beq_eq_false_iff_ne, beq_eq_false_iff_ne] at hsign
      exact hdigits [] (by simp) rfl
        (hnext.resolve_right fun hnext => hnext.1.elim hsign.1 hsign.2)
  · exact .pure (.inl ⟨[], .inl ⟨rfl, hnone⟩, .nil⟩)

/-- Where a digit in the wide sense is found, a number runs on into a name. -/
theorem endOfNumber_decides (start : Nat) (hs : s.diagnostics = before) :
    (endOfNumber start).Decides ctx s before fun s' =>
      s' = s ∧ continuesName (charAt ctx.text s.pos) = false := by
  refine .look peek_looks (.ite (fun _ => ?_) fun hend => .pure ⟨rfl, hend⟩)
  exact .look wordEnd_looks (.look (slice_looks _ _) (.failWith hs rfl rfl))

theorem AtWideDigit.ne {text : Array Char} (h : AtWideDigit text before s) {c : Char}
    (hc : PklSyntax.isDigitLike c = false) : charAt text s.pos ≠ c := by
  rintro rfl
  rw [h.isDigitLike] at hc
  cases hc

/-- Nothing more is read of a fraction or an exponent where a digit in the wide sense is found. -/
theorem fraction_at_wideDigit (h : AtWideDigit ctx.text before s) :
    fraction.Decides ctx s before (AtWideDigit ctx.text before) := by
  refine .look peek_looks (.look (peekAt_looks 1) (.ite (fun hpoint => ?_) fun _ => .pure h))
  rw [Bool.and_eq_true, beq_iff_eq] at hpoint
  exact absurd hpoint.1 (h.ne (by decide))

theorem exponent_at_wideDigit (h : AtWideDigit ctx.text before s) :
    exponent.Decides ctx s before (AtWideDigit ctx.text before) := by
  refine .look atExponent_looks (.ite (fun hexponent => ?_) fun _ => .pure h)
  simp only [exponentAt, Bool.and_eq_true, Bool.or_eq_true, beq_iff_eq] at hexponent
  exact absurd hexponent.1 (not_or.2 ⟨h.ne (by decide), h.ne (by decide)⟩)

theorem not_continuesName_at_wideDigit {text : Array Char} (h : AtWideDigit text before s) :
    continuesName (charAt text s.pos) ≠ false := by
  rw [continuesName_of_isDigitLike h.isDigitLike]
  decide

/-- A literal stands in the text from an offset on. -/
def NumberBegins (text : Array Char) (start : Nat) : Prop :=
  ∃ stop literal, NumberStands text start stop literal

theorem decimalNumber_decides {styleWarnings : Bool} (hs : s.diagnostics = before)
    (hnumber : isDigitLike (charAt ctx.text s.pos) = true ∨ pointAt ctx.text s.pos = true) :
    (decimalNumber s.pos styleWarnings).Decides ctx s before fun _ =>
      NumberBegins ctx.text s.pos := by
  -- Behind the integer, behind the fraction and behind the exponent.
  refine .look peek_looks (.branch (P := fun s' =>
    (∃ whole, (whole = [] ∧ pointAt ctx.text s.pos = true ∨
      DigitRun IntBase.decimal.isDigit whole) ∧ Passed ctx.text s s' whole) ∨
        AtWideDigit ctx.text before s') (fun hpoint => ?_) (fun hpoint => ?_) ?_)
  · refine .pure (.inl ⟨[], .inl ⟨rfl, hnumber.resolve_left fun hdigit => ?_⟩, .nil⟩)
    rw [beq_iff_eq.1 hpoint] at hdigit
    exact absurd hdigit (by decide)
  · refine (digits_decides hs).mono fun s' hdigits => ?_
    rcases hdigits with ⟨run, hrun, hpassed⟩ | ⟨-, rfl⟩
    · exact .inl ⟨run, .inr hrun, hpassed⟩
    · refine .inr ⟨hnumber.resolve_right fun hpoint' => ?_, hs⟩
      rw [pointAt, hpoint] at hpoint'
      cases hpoint'
  intro integer s₁ hwhole
  refine .bind (P := fun s' => (∃ whole fractional,
    (whole = [] ∧ fractional ≠ [] ∨ DigitRun IntBase.decimal.isDigit whole) ∧
      FractionPart ctx.text s'.pos fractional ∧ Passed ctx.text s s' (whole ++ fractional)) ∨
        AtWideDigit ctx.text before s') ?_ fun hasFraction s₂ hfractional => ?_
  · rcases hwhole with ⟨whole, hwhole, hpassed⟩ | hwide
    · refine (fraction_decides (hpassed.diagnostics_eq.trans hs)).mono fun s' hfraction =>
        hfraction.imp_left ?_
      rintro ⟨part, hpart, hpassed'⟩
      refine ⟨whole, part, hwhole.imp_left fun hnone => ⟨hnone.1, ?_⟩, hpart,
        hpassed.append hpassed'⟩
      rintro rfl
      rcases hpart with ⟨-, hpoint⟩ | ⟨run, hrun, -⟩
      · rw [hpassed'.pos_eq, hpassed.pos_eq, hnone.1] at hpoint
        exact absurd hnone.2 (Bool.eq_false_iff.1 hpoint)
      · cases hrun
    · exact (fraction_at_wideDigit hwide).mono fun _ => .inr
  refine .bind (P := fun s' => (∃ whole fractional power,
    DecimalParts ctx.text s.pos whole fractional power ∧
      Passed ctx.text s s' (whole ++ fractional ++ power)) ∨
        AtWideDigit ctx.text before s') ?_ fun hasExponent s₃ hpower => ?_
  · rcases hfractional with ⟨whole, fractional, hwhole, hfractional, hpassed⟩ | hwide
    · refine (exponent_decides (hpassed.diagnostics_eq.trans hs)).mono fun s' hexponent =>
        hexponent.imp_left ?_
      rintro ⟨part, hpart, hpassed'⟩
      have hpos := hpassed.pos_eq
      rw [List.length_append, ← Nat.add_assoc] at hpos
      rw [hpassed'.pos_eq, hpos] at hpart
      exact ⟨whole, fractional, part, ⟨hwhole, hpos ▸ hfractional, hpart⟩, hpassed.append hpassed'⟩
    · exact (exponent_at_wideDigit hwide).mono fun _ => .inr
  have hs₃ : s₃.diagnostics = before := by
    rcases hpower with ⟨_, _, _, _, hpassed⟩ | hwide
    · exact hpassed.diagnostics_eq.trans hs
    · exact hwide.diagnostics
  refine .bind (endOfNumber_decides _ hs₃) fun _ s₄ hend => ?_
  obtain ⟨rfl, hend⟩ := hend
  have hbegins : NumberBegins ctx.text s.pos := by
    rcases hpower with ⟨whole, fractional, power, hparts, hpassed⟩ | hwide
    · obtain ⟨rest, hrest⟩ := hpassed.exists_rest
      exact ⟨s₄.pos, _, ⟨_, rest, hrest, hpassed.pos_eq, hparts.numberText hpassed.pos_eq⟩, hend⟩
    · exact absurd hend (not_continuesName_at_wideDigit hwide)
  refine .look (spanFrom_looks _) (.ite (fun _ => .pure hbegins) fun _ =>
    .look (sliceFrom_looks _) ?_)
  dsimp only
  split
  · exact .inl ⟨_, _, rfl, hbegins⟩
  · exact .pure hbegins

theorem basedNumber_decides {mark : Char} (hs : s.diagnostics = before)
    (hzero : charAt ctx.text s.pos = '0') (hmark : charAt ctx.text (s.pos + 1) = mark)
    (hbase : mark ∈ base.marks) :
    (basedNumber s.pos base).Decides ctx s before fun _ => NumberBegins ctx.text s.pos := by
  have hrest : ctx.text.toList.drop s.pos = '0' :: mark :: ctx.text.toList.drop (s.pos + 2) := by
    have hname := (IntBase.spec_of_mem_marks hbase).2.1
    rw [drop_of_charAt hzero (by decide), drop_of_charAt hmark (ne_nul_of_continuesName hname)]
  have hadvance : advance 2 ctx s = .ok () { s with pos := s.pos + 2 } :=
    advance_over ['0', mark] hrest rfl Nat.two_pos
  refine .look (peekAt_looks 1) (.of_run hadvance (.look peek_looks (.ite (fun _ => ?_)
    fun hfirst => ?_)))
  · exact .look (spanFrom_looks _) (.failWith_bind hs rfl rfl)
  have hrun : base.inRun (charAt ctx.text (s.pos + 2)) = true := by
    rw [IntBase.inRun]
    cases hdigit : base.isDigit (charAt ctx.text (s.pos + 2)) with
    | true => rfl
    | false => simpa [hdigit] using hfirst
  refine .bind (digits_decides (s := { s with pos := s.pos + 2 }) hs) fun _ s₁ hdigits => ?_
  obtain ⟨run, hdigitRun, hpassed⟩ := hdigits.resolve_right fun h => Bool.eq_false_iff.1 h.1 hrun
  refine .bind (endOfNumber_decides _ (hpassed.diagnostics_eq.trans hs)) fun _ s₂ hend => ?_
  obtain ⟨rfl, hend⟩ := hend
  obtain ⟨⟨rest, hrest'⟩, hstate⟩ := hpassed
  have hpos : s₂.pos = s.pos + ('0' :: mark :: run).length := by
    rw [hstate, List.length_cons, List.length_cons, Nat.add_assoc, Nat.add_comm 2]
  have hword : ctx.text.toList.drop s.pos = '0' :: mark :: run ++ rest := by
    rw [hrest, show ctx.text.toList.drop (s.pos + 2) = run ++ rest from hrest']
    rfl
  exact .look (spanFrom_looks _) (.pure
    ⟨s₂.pos, _, ⟨_, rest, hword, hpos, .based hbase hdigitRun⟩, hend⟩)

/-- Where a number is read, a literal stands. -/
theorem number_decides {styleWarnings : Bool}
    (hnumber : isDigitLike (charAt ctx.text s.pos) = true ∨ pointAt ctx.text s.pos = true)
    (hnan : wordAt ctx.text "NaN" s.pos = false)
    (hinfinity : wordAt ctx.text "Infinity" s.pos = false) :
    (number styleWarnings).Decides ctx s s.diagnostics fun _ => NumberBegins ctx.text s.pos := by
  refine .inMode (.look position_looks (.look (atWord_looks _) (.ite
    (fun hword => absurd hword (Bool.eq_false_iff.1 hnan)) fun _ => .look (atWord_looks _) (.ite
    (fun hword => absurd hword (Bool.eq_false_iff.1 hinfinity)) fun _ =>
      .look peek_looks (.look (peekAt_looks 1) ?_)))))
  dsimp only
  split
  · rename_i base hzero hletter
    exact basedNumber_decides (s := { s with mode := .tight }) rfl (beq_iff_eq.1 hzero) rfl
      (IntBase.ofLetter?_eq_some.1 hletter)
  · exact decimalNumber_decides (s := { s with mode := .tight }) rfl hnumber

/-- Where a number begins with a digit or a point, it is read up to an offset exactly when a literal
stands up to there that does not run on into a name, and then this literal is what is read. Of an
integer the value is that of its digits, which in base ten may be too many to have one. Besides,
nothing is recorded but perhaps a warning. Where no literal stands, one error is recorded, and the
number is given up. -/
theorem number_iff_stands {styleWarnings : Bool}
    (hnumber : atNumber ctx s = .ok true s) (hnan : atWord "NaN" ctx s = .ok false s)
    (hinfinity : atWord "Infinity" ctx s = .ok false s) :
    (∀ stop literal, (∃ s', number styleWarnings ctx s = .ok literal s' ∧ s'.pos = stop) ↔
        NumberStands ctx.text s.pos stop literal) ∧
      (∀ stop literal, NumberStands ctx.text s.pos stop (.int literal) →
        (literal.base = .decimal →
          (withoutUnderscores literal.digits).length ≤ decimalDigitLimit) →
        literal.value? = some (Nat.ofDigits literal.base.radix
          ((withoutUnderscores literal.digits).reverse.map digitValue))) ∧
      (∀ literal s', number styleWarnings ctx s = .ok literal s' → AtMostWarns s s') ∧
      ((∀ stop literal, ¬ NumberStands ctx.text s.pos stop literal) →
        ∃ d s', number styleWarnings ctx s = .error .failed s' ∧
          s'.diagnostics = s.diagnostics.push d ∧ d.code = "E103" ∧ d.isError = true) := by
  rw [atNumber_looks ctx s] at hnumber
  rw [atWord_looks "NaN" ctx s] at hnan
  rw [atWord_looks "Infinity" ctx s] at hinfinity
  have hnumber : numberAt ctx.text s.pos = true := (EStateM.Result.ok.inj hnumber).1
  have hnan : wordAt ctx.text "NaN" s.pos = false := (EStateM.Result.ok.inj hnan).1
  have hinfinity : wordAt ctx.text "Infinity" s.pos = false := (EStateM.Result.ok.inj hinfinity).1
  have hdigit : isDigitLike (charAt ctx.text s.pos) = true ∨ pointAt ctx.text s.pos = true := by
    simpa [numberAt, pointAt, hnan, hinfinity] using hnumber
  have hreads {stop : Nat} {literal : NumberLiteral}
      (hstands : NumberStands ctx.text s.pos stop literal) :
      (number styleWarnings).Reads ctx s fun found s' =>
        found = literal ∧ s'.pos = stop ∧ AtMostWarns s s' :=
    number_reads hstands hnan hinfinity
  have hdecides : (number styleWarnings).Decides ctx s s.diagnostics fun _ =>
      NumberBegins ctx.text s.pos := number_decides hdigit hnan hinfinity
  -- What is read is what stands in the text, since a run has one result.
  have hresult {literal : NumberLiteral} {s' : State}
      (hrun : number styleWarnings ctx s = .ok literal s') :
      NumberStands ctx.text s.pos s'.pos literal ∧ AtMostWarns s s' := by
    rcases hdecides with ⟨_, _, _, stop, literal', hstands⟩ | ⟨d, s'', hrun', -⟩
    · obtain ⟨_, s'', hrun', rfl, rfl, hwarns⟩ := hreads hstands
      cases hrun.symm.trans hrun'
      exact ⟨hstands, hwarns⟩
    · cases hrun.symm.trans hrun'
  refine ⟨fun stop literal => ⟨?_, fun hstands => ?_⟩, fun stop literal => NumberStands.value?_eq,
    fun literal s' hrun => (hresult hrun).2, fun hnone => ?_⟩
  · rintro ⟨s', hrun, rfl⟩
    exact (hresult hrun).1
  · obtain ⟨_, s', hrun, rfl, hpos, -⟩ := hreads hstands
    exact ⟨s', hrun, hpos⟩
  · refine hdecides.resolve_left ?_
    rintro ⟨_, _, _, stop, literal, hstands⟩
    exact hnone stop literal hstands

/-- A hexadecimal integer in front of a blank. -/
theorem number_stands_hexadecimal :
    let ctx : Context := ⟨#['0', 'x', '1', '_', 'F', ' '], {}⟩
    atNumber ctx {} = .ok true {} ∧ atWord "NaN" ctx {} = .ok false {} ∧
      atWord "Infinity" ctx {} = .ok false {} ∧
      ∃ s', number true ctx {} = .ok (.int ⟨.hexadecimal, "1_F", .ofNat 0 5⟩) s' ∧ s'.pos = 5 := by
  refine ⟨rfl, rfl, rfl, ((number_iff_stands rfl rfl rfl).1 5 _).2
    ⟨⟨['0', 'x', '1', '_', 'F'], [' '], rfl, rfl, ?_⟩, ?_⟩⟩
  · exact .based (by decide : 'x' ∈ IntBase.hexadecimal.marks) (.separated rfl (.single rfl))
  · decide

end Parser

end PklSyntax
