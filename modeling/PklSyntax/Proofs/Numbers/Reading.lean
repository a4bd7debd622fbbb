import PklSyntax.Proofs.Numbers.Text
import PklSyntax.Proofs.Printing.StringText

/-!
# Reading numbers

A literal that stands in the text and does not run on into a name is read up to its end. In base ten
it is made of an integer, a fraction and an exponent, each of which may be missing; the parts are
read one behind the other.

## Main definitions

* `FractionPart`, `ExponentPart`: the text of a part that may be missing.
* `DecimalParts`: the parts of a literal.

## Main statements

* `DecimalParts.numberText`, `NumberText.exists_parts`: literals are made of parts.
* `Parser.number_reads`: what stands in the text is read.
-/

namespace PklSyntax

/-- What begins with a character that is not NUL. -/
theorem drop_of_charAt {text : Array Char} {i : Nat} {c : Char} (h : charAt text i = c)
    (hc : c ≠ '\x00') : text.toList.drop i = c :: text.toList.drop (i + 1) := by
  have hlt : i < text.size := lt_size_of_charAt_ne (by rw [h]; exact hc)
  rw [charAt_of_lt hlt] at h
  rw [List.drop_eq_getElem_cons (by simpa using hlt), Array.getElem_toList, h]

/-! ### The parts of a literal -/

/-- The text of a fraction that ends at the offset; nothing when there is none. -/
def FractionPart (text : Array Char) (stop : Nat) (part : List Char) : Prop :=
  part = [] ∧ pointAt text stop = false ∨
    ∃ run, part = '.' :: run ∧ DigitRun IntBase.decimal.isDigit run

/-- The text of an exponent that ends at the offset; nothing when there is none. -/
def ExponentPart (text : Array Char) (stop : Nat) (part : List Char) : Prop :=
  part = [] ∧ Parser.exponentAt text stop = false ∨ ExponentText part

/-- The parts of a literal in base ten that begins at the offset. -/
structure DecimalParts (text : Array Char) (start : Nat) (integer fraction exponent : List Char) :
    Prop where
  integer_run : integer = [] ∧ fraction ≠ [] ∨ DigitRun IntBase.decimal.isDigit integer
  fraction_part : FractionPart text (start + integer.length + fraction.length) fraction
  exponent_part :
    ExponentPart text (start + integer.length + fraction.length + exponent.length) exponent

/-- The literal that is made of its parts. -/
def NumberLiteral.ofParts (span : Span) (integer fraction exponent : List Char) : NumberLiteral :=
  if fraction = [] ∧ exponent = [] then .int ⟨.decimal, String.ofList integer, span⟩
  else .float ⟨String.ofList (integer ++ fraction ++ exponent), span⟩

section Parts

variable {text : Array Char} {start : Nat} {integer fraction exponent word rest : List Char}

theorem ExponentText.exists_first (h : ExponentText exponent) :
    ∃ letter others, exponent = letter :: others ∧ letter ∈ ['e', 'E'] := by
  obtain ⟨hletter, -, -⟩ := h
  exact ⟨_, _, rfl, hletter⟩

theorem ExponentText.ne_nil (h : ExponentText exponent) : exponent ≠ [] := by
  obtain ⟨letter, others, rfl, -⟩ := h.exists_first
  exact List.cons_ne_nil _ _

theorem ExponentText.exponentAt (h : ExponentText exponent)
    (hrest : text.toList.drop start = exponent ++ rest) :
    Parser.exponentAt text start = true := by
  obtain @⟨letter, sign, run, hletter, hsign, hrun⟩ := h
  obtain ⟨first, others, rfl, hdigit⟩ := hrun.exists_first
  have hchar (n : Nat) := charAt_of_drop hrest n
  have hdigit := isDigitLike_of_isDigit hdigit
  simp only [List.mem_cons, List.not_mem_nil, or_false] at hletter hsign
  rw [Parser.exponentAt, show charAt text start = letter from hchar 0, hchar 1, hchar 2]
  rcases hsign with rfl | rfl | rfl <;> simp [hletter, hdigit]

/-- Parts that follow one another are a literal. -/
theorem DecimalParts.numberText (h : DecimalParts text start integer fraction exponent) {stop : Nat}
    (hstop : stop = start + (integer ++ fraction ++ exponent).length) :
    NumberText text start stop (integer ++ fraction ++ exponent)
      (.ofParts (.ofNat start stop) integer fraction exponent) := by
  obtain ⟨hinteger, hfraction, hexponent⟩ := h
  rw [List.length_append, List.length_append, ← Nat.add_assoc, ← Nat.add_assoc] at hstop
  rw [← hstop] at hexponent
  rcases hfraction with ⟨rfl, hpoint⟩ | ⟨run, rfl, hrun⟩ <;>
    rcases hexponent with ⟨rfl, hnone⟩ | hexponent
  · have hrun := hinteger.resolve_left fun h => h.2 rfl
    rw [List.append_nil, List.append_nil, NumberLiteral.ofParts, if_pos ⟨rfl, rfl⟩]
    exact .integer hrun (hstop ▸ hpoint) hnone
  · have hrun := hinteger.resolve_left fun h => h.2 rfl
    rw [NumberLiteral.ofParts, if_neg fun h => hexponent.ne_nil h.2, List.append_nil]
    exact .exponent hrun hexponent
  · rw [NumberLiteral.ofParts, if_neg fun h => List.cons_ne_nil _ _ h.1, List.append_nil]
    exact .fraction (hinteger.imp_left And.left) hrun hnone
  · rw [NumberLiteral.ofParts, if_neg fun h => List.cons_ne_nil _ _ h.1]
    exact .fractionExponent (hinteger.imp_left And.left) hrun hexponent

/-- A literal that stands in a text has the mark of a base or is made of parts. -/
theorem NumberText.exists_parts {stop : Nat} {literal : NumberLiteral}
    (h : NumberText text start stop word literal) (hstop : stop = start + word.length)
    (hrest : text.toList.drop start = word ++ rest) :
    (∃ base mark run, mark ∈ IntBase.marks base ∧ DigitRun base.isDigit run ∧
      word = '0' :: mark :: run ∧ literal = .int ⟨base, String.ofList run, .ofNat start stop⟩) ∨
    ∃ integer fraction exponent, DecimalParts text start integer fraction exponent ∧
      word = integer ++ fraction ++ exponent ∧
      literal = .ofParts (.ofNat start stop) integer fraction exponent := by
  cases h with
  | based hmark hrun => exact .inl ⟨_, _, _, hmark, hrun, rfl, rfl⟩
  | integer hrun hpoint hnone =>
    subst hstop
    exact .inr ⟨word, [], [], ⟨.inr hrun, .inl ⟨rfl, hpoint⟩, .inl ⟨rfl, hnone⟩⟩, by simp, rfl⟩
  | @fraction integer run hinteger hrun hnone =>
    refine .inr ⟨integer, '.' :: run, [], ⟨hinteger.imp_left fun h => ⟨h, List.cons_ne_nil _ _⟩,
      .inr ⟨run, rfl, hrun⟩, .inl ⟨rfl, ?_⟩⟩, by simp, ?_⟩
    · rwa [hstop, List.length_append, ← Nat.add_assoc] at hnone
    · rw [NumberLiteral.ofParts, if_neg fun h => List.cons_ne_nil _ _ h.1, List.append_nil]
  | @fractionExponent integer run exponent hinteger hrun hexponent =>
    refine .inr ⟨integer, '.' :: run, exponent,
      ⟨hinteger.imp_left fun h => ⟨h, List.cons_ne_nil _ _⟩, .inr ⟨run, rfl, hrun⟩,
        .inr hexponent⟩, rfl, ?_⟩
    rw [NumberLiteral.ofParts, if_neg fun h => List.cons_ne_nil _ _ h.1]
  | @exponent integer exponent hinteger hexponent =>
    refine .inr ⟨integer, [], exponent, ⟨.inr hinteger, .inl ⟨rfl, ?_⟩, .inr hexponent⟩,
      by rw [List.append_nil], ?_⟩
    · -- Where the letter of an exponent stands, there is no point.
      obtain ⟨letter, others, rfl, hletter⟩ := hexponent.exists_first
      have hchar : charAt text (start + integer.length) = letter := by
        rw [charAt_of_drop hrest]
        simp
      have hne : letter ≠ '.' := by
        rintro rfl
        exact absurd hletter (by decide)
      show pointAt text (start + integer.length) = false
      rw [pointAt, hchar, beq_false_of_ne hne, Bool.false_and]
    · rw [NumberLiteral.ofParts, if_neg fun h => hexponent.ne_nil h.2, List.append_nil]

/-- A fraction or an exponent does not begin as a run of digits would go on. -/
theorem FractionPart.inRun_charAt {i stop : Nat} {part : List Char}
    (h : FractionPart text stop part) (hrest : text.toList.drop i = part ++ rest)
    (hend : IntBase.decimal.inRun (charAt text (i + part.length)) = false) :
    IntBase.decimal.inRun (charAt text i) = false := by
  rcases h with ⟨rfl, -⟩ | ⟨run, rfl, -⟩
  · exact hend
  · rw [show charAt text i = '.' from charAt_of_drop hrest 0]
    decide

theorem ExponentPart.inRun_charAt {i stop : Nat} {part : List Char}
    (h : ExponentPart text stop part) (hrest : text.toList.drop i = part ++ rest)
    (hend : IntBase.decimal.inRun (charAt text (i + part.length)) = false) :
    IntBase.decimal.inRun (charAt text i) = false := by
  rcases h with ⟨rfl, -⟩ | hexponent
  · exact hend
  · obtain ⟨letter, others, rfl, hletter⟩ := hexponent.exists_first
    rw [show charAt text i = letter from charAt_of_drop hrest 0]
    simp only [List.mem_cons, List.not_mem_nil, or_false] at hletter
    rcases hletter with rfl | rfl <;> rfl

/-- No letter announces a base behind a zero with which parts begin. -/
theorem DecimalParts.ofLetter?_ne (h : DecimalParts text start integer fraction exponent)
    (hrest : text.toList.drop start = integer ++ (fraction ++ (exponent ++ rest)))
    (hzero : charAt text start = '0')
    (hend : continuesName (charAt text
      (start + integer.length + fraction.length + exponent.length)) = false) (base : IntBase) :
    IntBase.ofLetter? (charAt text (start + 1)) ≠ some base := by
  intro hletter
  obtain ⟨hrun, hname, hother⟩ := base.spec_of_mem_marks (IntBase.ofLetter?_eq_some.1 hletter)
  obtain ⟨hinteger, hfraction, hexponent⟩ := h
  have hdigits := hinteger.resolve_left fun ⟨hnil, hne⟩ => by
    obtain ⟨run, rfl, -⟩ := hfraction.resolve_left fun h => hne h.1
    rw [hnil] at hrest
    rw [show charAt text start = '.' from charAt_of_drop hrest 0] at hzero
    exact absurd hzero (by decide)
  obtain ⟨first, others, rfl, -⟩ := hdigits.exists_first
  cases others with
  | cons second others =>
    rw [show charAt text (start + 1) = second from charAt_of_drop hrest 1,
      hdigits.inRun second (by simp)] at hrun
    cases hrun
  | nil =>
    have hrest₁ : text.toList.drop (start + 1) = fraction ++ (exponent ++ rest) := drop_one hrest
    rcases hfraction with ⟨rfl, -⟩ | ⟨run, rfl, -⟩
    · rcases hexponent with ⟨rfl, -⟩ | hexponent
      · exact absurd hname (Bool.eq_false_iff.1 hend)
      · obtain ⟨letter, others, rfl, hmem⟩ := hexponent.exists_first
        rw [show charAt text (start + 1) = letter from charAt_of_drop hrest₁ 0] at hother
        exact hother (List.mem_cons_of_mem _ hmem)
    · rw [show charAt text (start + 1) = '.' from charAt_of_drop hrest₁ 0] at hother
      exact hother List.mem_cons_self

end Parts

namespace Parser

variable {α β : Type} {ctx : Context} {s : State} {base : IntBase} {run part rest : List Char}

/-- One way or the other, and what follows both. -/
theorem Reads.branch {b : Bool} {p q : Parser α} {f : α → Parser β} {P : α → State → Prop}
    {Q : β → State → Prop} (hp : b = true → p.Reads ctx s P) (hq : b = false → q.Reads ctx s P)
    (hf : ∀ a s', P a s' → (f a).Reads ctx s' Q) :
    (if b = true then p >>= f else q >>= f).Reads ctx s Q := by
  cases b with
  | true => exact (hp rfl).bind hf
  | false => exact (hq rfl).bind hf

/-! ### What stands in the text is read -/

/-- A run of digits that does not go on is read. -/
theorem digits_reads_run (hrest : ctx.text.toList.drop s.pos = run ++ rest)
    (hrun : DigitRun base.isDigit run)
    (hend : base.inRun (charAt ctx.text (s.pos + run.length)) = false) :
    (digits base).Reads ctx s fun found s' =>
      found = String.ofList run ∧ s' = { s with pos := s.pos + run.length } := by
  have htail : rest.takeWhile base.inRun = [] := by
    cases rest with
    | nil => rfl
    | cons c rest =>
      rw [show charAt ctx.text (s.pos + run.length) = c from
        charAt_of_drop (drop_add run hrest) 0] at hend
      exact List.takeWhile_cons_of_neg (Bool.eq_false_iff.1 hend)
  have hstop : skipWhile ctx.text base.inRun s.pos = s.pos + run.length := by
    rw [skipWhile_of_drop hrest, List.takeWhile_append_of_pos hrun.inRun, htail, List.append_nil]
  have hmove : moveTo (skipWhile ctx.text base.inRun s.pos) ctx s =
      .ok () { s with pos := s.pos + run.length } := by rw [← hstop]; rfl
  have hslice : sliceOf ctx.text s.pos (s.pos + run.length) = String.ofList run :=
    sliceOf_of_drop hrest
  refine .look position_looks (.look theText_looks (.of_run hmove (.look (sliceFrom_looks _) ?_)))
  rw [hslice, (misplacedUnderscore?_eq_none hrun.inRun).2 (.inr hrun)]
  exact .pure ⟨rfl, rfl⟩

theorem fraction_reads_part (hrest : ctx.text.toList.drop s.pos = part ++ rest)
    (hpart : FractionPart ctx.text (s.pos + part.length) part)
    (hend : IntBase.decimal.inRun (charAt ctx.text (s.pos + part.length)) = false) :
    fraction.Reads ctx s fun found s' =>
      found = !part.isEmpty ∧ s' = { s with pos := s.pos + part.length } := by
  refine .look peek_looks (.look (peekAt_looks 1) ?_)
  rcases hpart with ⟨rfl, hpoint⟩ | ⟨run, rfl, hrun⟩
  · exact .ite_false hpoint (.pure ⟨rfl, rfl⟩)
  · have hlength : s.pos + ('.' :: run).length = s.pos + 1 + run.length := by
      rw [List.length_cons]
      omega
    obtain ⟨first, others, hfirst, hdigit⟩ := hrun.exists_first
    have hchar : charAt ctx.text s.pos = '.' := charAt_of_drop hrest 0
    have hnext : charAt ctx.text (s.pos + 1) = first := by
      rw [charAt_of_drop hrest, hfirst]
      rfl
    have hadvance : advance 1 ctx s = .ok () { s with pos := s.pos + 1 } :=
      advance_over ['.'] hrest rfl Nat.one_pos
    rw [hchar, hnext]
    refine .ite_true (isDigitLike_of_isDigit hdigit) (.of_run hadvance ?_)
    rw [hlength] at hend ⊢
    refine (digits_reads_run (s := { s with pos := s.pos + 1 }) (drop_one hrest) hrun hend).bind ?_
    rintro _ _ ⟨-, rfl⟩
    exact .pure ⟨rfl, rfl⟩

theorem exponent_reads_part (hrest : ctx.text.toList.drop s.pos = part ++ rest)
    (hpart : ExponentPart ctx.text (s.pos + part.length) part)
    (hend : IntBase.decimal.inRun (charAt ctx.text (s.pos + part.length)) = false) :
    exponent.Reads ctx s fun found s' =>
      found = !part.isEmpty ∧ s' = { s with pos := s.pos + part.length } := by
  refine .look atExponent_looks ?_
  rcases hpart with ⟨rfl, hnone⟩ | hexponent
  · exact .ite_false hnone (.pure ⟨rfl, rfl⟩)
  · refine .ite_true (hexponent.exponentAt hrest) ?_
    obtain @⟨letter, sign, run, -, hsign, hrun⟩ := hexponent
    have hadvance : advance 1 ctx s = .ok () { s with pos := s.pos + 1 } :=
      advance_over [letter] hrest rfl Nat.one_pos
    have hbehind : ctx.text.toList.drop (s.pos + 1) = sign ++ (run ++ rest) := by
      rw [← List.append_assoc]
      exact drop_one hrest
    have hlength : s.pos + (letter :: (sign ++ run)).length =
        s.pos + 1 + sign.length + run.length := by
      rw [List.length_cons, List.length_append]
      omega
    rw [hlength] at hend ⊢
    have hdigits : (digits .decimal >>= fun _ => Pure.pure true).Reads ctx
        { s with pos := s.pos + 1 + sign.length } fun found s' =>
          found = !(letter :: (sign ++ run)).isEmpty ∧
            s' = { s with pos := s.pos + 1 + sign.length + run.length } := by
      refine (digits_reads_run (s := { s with pos := s.pos + 1 + sign.length })
        (drop_add sign hbehind) hrun hend).bind ?_
      rintro _ _ ⟨-, rfl⟩
      exact .pure ⟨rfl, rfl⟩
    refine .of_run hadvance (.look peek_looks ?_)
    simp only [List.mem_cons, List.not_mem_nil, or_false] at hsign
    rcases hsign with rfl | rfl | rfl
    · obtain ⟨first, others, rfl, hdigit⟩ := hrun.exists_first
      have hchar : charAt ctx.text (s.pos + 1) = first := charAt_of_drop hbehind 0
      refine .ite_false ?_ hdigits
      rw [hchar, Bool.or_eq_false_iff, beq_eq_false_iff_ne, beq_eq_false_iff_ne]
      constructor <;>
        · rintro rfl
          exact absurd hdigit (by decide)
    all_goals
      have hadvance' := advance_over (s := { s with pos := s.pos + 1 }) [_] hbehind rfl Nat.one_pos
      have hchar := charAt_of_drop hbehind 0
      refine .ite_true ?_ (.of_run hadvance' hdigits)
      rw [show charAt ctx.text _ = _ from hchar]
      rfl

/-- Nothing has been recorded but perhaps a warning. -/
def AtMostWarns (s s' : State) : Prop :=
  s'.diagnostics = s.diagnostics ∨
    ∃ d, s'.diagnostics = s.diagnostics.push d ∧ d.isError = false

theorem endOfNumber_reads_apart (start : Nat)
    (hend : continuesName (charAt ctx.text s.pos) = false) :
    (endOfNumber start).Reads ctx s fun _ s' => s' = s :=
  .look peek_looks (.ite_false hend (.pure rfl))

theorem inRun_of_not_continuesName {c : Char} (h : continuesName c = false) :
    base.inRun c = false := by
  rw [← Bool.not_eq_true]
  intro hrun
  rw [IntBase.continuesName_of_inRun hrun] at h
  cases h

/-- The parts of a literal are read one behind the other. -/
theorem decimalNumber_reads_parts {whole fractional power : List Char} {styleWarnings : Bool}
    (h : DecimalParts ctx.text s.pos whole fractional power)
    (hrest : ctx.text.toList.drop s.pos = whole ++ (fractional ++ (power ++ rest)))
    (hend : continuesName (charAt ctx.text
      (s.pos + whole.length + fractional.length + power.length)) = false) :
    (decimalNumber s.pos styleWarnings).Reads ctx s fun literal s' =>
      literal = .ofParts (.ofNat s.pos s'.pos) whole fractional power ∧
        s'.pos = s.pos + whole.length + fractional.length + power.length ∧
        AtMostWarns s s' := by
  obtain ⟨hwhole, hfractional, hpower⟩ := h
  have hrest₁ := drop_add whole hrest
  have hrest₂ := drop_add fractional hrest₁
  have hend₂ := hpower.inRun_charAt hrest₂ (inRun_of_not_continuesName hend)
  have hend₁ := hfractional.inRun_charAt hrest₁ hend₂
  refine .look peek_looks ?_
  refine .branch (P := fun integer s' => integer = String.ofList whole ∧
    s' = { s with pos := s.pos + whole.length }) (fun hpoint => ?_) (fun hpoint => ?_) ?_
  · obtain ⟨rfl, -⟩ := hwhole.resolve_right fun hrun => by
      obtain ⟨first, others, rfl, hdigit⟩ := hrun.exists_first
      rw [show charAt ctx.text s.pos = first from charAt_of_drop hrest 0, beq_iff_eq] at hpoint
      rw [hpoint] at hdigit
      exact absurd hdigit (by decide)
    exact .pure ⟨rfl, rfl⟩
  · refine digits_reads_run hrest (hwhole.resolve_left ?_) hend₁
    rintro ⟨rfl, hne⟩
    obtain ⟨run, rfl, -⟩ := hfractional.resolve_left fun h => hne h.1
    rw [show charAt ctx.text s.pos = '.' from charAt_of_drop hrest 0] at hpoint
    exact absurd hpoint (by decide)
  rintro _ _ ⟨rfl, rfl⟩
  refine .bind (fraction_reads_part (s := { s with pos := s.pos + whole.length })
    hrest₁ hfractional hend₂) ?_
  rintro _ _ ⟨rfl, rfl⟩
  refine .bind (exponent_reads_part hrest₂ hpower (inRun_of_not_continuesName hend)) ?_
  rintro _ _ ⟨rfl, rfl⟩
  refine .bind (endOfNumber_reads_apart _ hend) ?_
  rintro _ _ rfl
  refine .look (spanFrom_looks _) ?_
  by_cases hnone : fractional = [] ∧ power = []
  · obtain ⟨rfl, rfl⟩ := hnone
    exact .ite_true rfl (.pure ⟨rfl, rfl, .inl rfl⟩)
  · have hslice : sliceOf ctx.text s.pos
        (s.pos + whole.length + fractional.length + power.length) =
          String.ofList (whole ++ fractional ++ power) := by
      have hword : ctx.text.toList.drop s.pos = (whole ++ fractional ++ power) ++ rest := by
        rw [hrest, List.append_assoc, List.append_assoc]
      rw [← sliceOf_of_drop hword, List.length_append, List.length_append, Nat.add_assoc,
        Nat.add_assoc, Nat.add_assoc]
    refine .ite_false ?_ (.look (sliceFrom_looks _) ?_)
    · cases fractional <;> cases power <;> simp_all
    have hliteral (span : Span) : NumberLiteral.float ⟨sliceOf ctx.text s.pos
        (s.pos + whole.length + fractional.length + power.length), span⟩ =
          .ofParts span whole fractional power := by
      rw [hslice, NumberLiteral.ofParts, if_neg hnone]
    dsimp only
    split
    · exact ⟨_, _, rfl, hliteral _, rfl, .inr ⟨_, rfl, rfl⟩⟩
    · exact .pure ⟨hliteral _, rfl, .inl rfl⟩

/-- A run behind the mark of a base is read. -/
theorem basedNumber_reads_run {mark : Char} (hrun : DigitRun base.isDigit run)
    (hrest : ctx.text.toList.drop s.pos = '0' :: mark :: (run ++ rest))
    (hend : continuesName (charAt ctx.text (s.pos + 2 + run.length)) = false) :
    (basedNumber s.pos base).Reads ctx s fun literal s' =>
      literal = .int ⟨base, String.ofList run, .ofNat s.pos s'.pos⟩ ∧
        s' = { s with pos := s.pos + 2 + run.length } := by
  have hadvance : advance 2 ctx s = .ok () { s with pos := s.pos + 2 } :=
    advance_over ['0', mark] hrest rfl Nat.two_pos
  have hbehind : ctx.text.toList.drop (s.pos + 2) = run ++ rest := drop_add ['0', mark] hrest
  have hfirst : base.isDigit (charAt ctx.text (s.pos + 2)) = true := by
    obtain ⟨first, others, rfl, hdigit⟩ := hrun.exists_first
    rwa [show charAt ctx.text (s.pos + 2) = first from charAt_of_drop hbehind 0]
  refine .look (peekAt_looks 1) (.of_run hadvance (.look peek_looks (.ite_false ?_ ?_)))
  · rw [hfirst]
    rfl
  refine (digits_reads_run (s := { s with pos := s.pos + 2 }) hbehind hrun
    (inRun_of_not_continuesName hend)).bind ?_
  rintro _ _ ⟨rfl, rfl⟩
  refine .bind (endOfNumber_reads_apart _ hend) ?_
  rintro _ _ rfl
  exact .look (spanFrom_looks _) (.pure ⟨rfl, rfl⟩)

/-- A literal that stands in the text and does not run on into a name is read up to its end. -/
theorem number_reads {styleWarnings : Bool} {stop : Nat} {literal : NumberLiteral}
    (h : NumberStands ctx.text s.pos stop literal) (hnan : wordAt ctx.text "NaN" s.pos = false)
    (hinfinity : wordAt ctx.text "Infinity" s.pos = false) :
    (number styleWarnings).Reads ctx s fun found s' =>
      found = literal ∧ s'.pos = stop ∧ AtMostWarns s s' := by
  obtain ⟨⟨word, rest, hrest, rfl, htext⟩, hend⟩ := h
  refine .inMode (.look position_looks (.look (atWord_looks _) (.ite_false hnan
    (.look (atWord_looks _) (.ite_false hinfinity
      (.look peek_looks (.look (peekAt_looks 1) ?_)))))))
  rcases htext.exists_parts rfl hrest with ⟨base, mark, run, hmark, hrun, rfl, rfl⟩ |
    ⟨whole, fractional, power, hparts, rfl, rfl⟩
  · have hzero : charAt ctx.text s.pos = '0' := charAt_of_drop hrest 0
    have hletter : charAt ctx.text (s.pos + 1) = mark := charAt_of_drop hrest 1
    have hlength : s.pos + ('0' :: mark :: run).length = s.pos + 2 + run.length := by
      rw [List.length_cons, List.length_cons]
      omega
    rw [hlength] at hend ⊢
    dsimp only
    rw [hzero, hletter, IntBase.ofLetter?_eq_some.2 hmark]
    refine (basedNumber_reads_run (s := { s with mode := .tight }) hrun hrest hend).mono ?_
    rintro _ _ ⟨rfl, rfl⟩
    exact ⟨rfl, rfl, .inl rfl⟩
  · have hlength : s.pos + (whole ++ fractional ++ power).length =
        s.pos + whole.length + fractional.length + power.length := by
      rw [List.length_append, List.length_append]
      omega
    rw [List.append_assoc, List.append_assoc] at hrest
    rw [hlength] at hend ⊢
    have hdecimal : (decimalNumber s.pos styleWarnings).Reads ctx { s with mode := .tight }
        fun found s' => found = .ofParts (.ofNat s.pos
            (s.pos + whole.length + fractional.length + power.length)) whole fractional power ∧
          s'.pos = s.pos + whole.length + fractional.length + power.length ∧
          AtMostWarns s { s' with mode := s.mode } := by
      refine (decimalNumber_reads_parts (s := { s with mode := .tight }) hparts hrest hend).mono ?_
      rintro _ s' ⟨rfl, hpos, hwarns⟩
      exact ⟨by rw [hpos], hpos, hwarns⟩
    dsimp only
    split
    · rename_i base hzero hletter
      exact absurd hletter (hparts.ofLetter?_ne hrest (by simpa using hzero) hend base)
    · exact hdecimal

end Parser

end PklSyntax
