import Mathlib.Data.Nat.Digits.Defs
import PklSyntax.Literal.Value
import PklSyntax.Proofs.Layout.Literal

/-!
# The text of numbers

The language of number literals, apart from any way to read them. A run of digits has single
underscores between its digits and nowhere else. An integer is a run, or a run behind `0` and the
mark of its base. A float has a point with a run behind it, an exponent, or both. A literal is as
long as it can be: where a point has a digit behind it, or where an exponent begins, an integer is
not at its end.

A digit behind a point or in an exponent is looked for in the wide sense, in which it need not be
one of `0` to `9`; only these can make up a run. Where another digit stands, the number therefore
goes on, and cannot go on.

## Main definitions

* `DigitRun`: digits with single underscores between them.
* `IntBase.marks`: the letters behind a zero that announce a base.
* `ExponentText`, `NumberText`: how exponents and literals are written.
* `NumberStands`: a literal stands in a text.

## Main statements

* `misplacedUnderscore?_eq_none`: the runs in which no underscore is misplaced.
* `NumberStands.value?_eq`: the value of an integer.
-/

namespace PklSyntax

/-! ### Runs of digits -/

/-- Digits with single underscores between them. -/
inductive DigitRun (isDigit : Char → Bool) : List Char → Prop
  | single {c : Char} (hc : isDigit c = true) : DigitRun isDigit [c]
  | digit {c : Char} {run : List Char} (hc : isDigit c = true) (hrun : DigitRun isDigit run) :
      DigitRun isDigit (c :: run)
  | separated {c : Char} {run : List Char} (hc : isDigit c = true) (hrun : DigitRun isDigit run) :
      DigitRun isDigit (c :: '_' :: run)

/-- The characters of which runs of digits in a base are made. -/
def IntBase.inRun (base : IntBase) (c : Char) : Bool := base.isDigit c || c == '_'

theorem IntBase.isDigit_underscore (base : IntBase) : base.isDigit '_' = false := by
  cases base <;> decide

theorem IntBase.ne_underscore (base : IntBase) {c : Char} (h : base.isDigit c = true) :
    c ≠ '_' := by
  rintro rfl
  rw [base.isDigit_underscore] at h
  cases h

theorem IntBase.continuesName_of_inRun {base : IntBase} {c : Char} (h : base.inRun c = true) :
    continuesName c = true := by
  simp only [inRun, Bool.or_eq_true, beq_iff_eq] at h
  rcases h with hdigit | rfl
  · exact continuesName_of_isDigit hdigit
  · decide

section Runs

variable {base : IntBase} {c : Char} {run : List Char}

/-- A run begins with a digit. -/
theorem DigitRun.exists_first (h : DigitRun base.isDigit run) :
    ∃ first others, run = first :: others ∧ base.isDigit first = true := by
  cases h with
  | single hc => exact ⟨_, _, rfl, hc⟩
  | digit hc _ => exact ⟨_, _, rfl, hc⟩
  | separated hc _ => exact ⟨_, _, rfl, hc⟩

theorem DigitRun.inRun (h : DigitRun base.isDigit run) : ∀ c ∈ run, base.inRun c = true := by
  have hdigit {c : Char} (hc : base.isDigit c = true) : base.inRun c = true := by
    rw [IntBase.inRun, hc, Bool.true_or]
  induction h with
  | single hc => exact List.forall_mem_singleton.2 (hdigit hc)
  | digit hc _ ih => exact List.forall_mem_cons.2 ⟨hdigit hc, ih⟩
  | separated hc _ ih =>
    exact List.forall_mem_cons.2 ⟨hdigit hc, List.forall_mem_cons.2 ⟨Bool.or_true _, ih⟩⟩

theorem DigitRun.withoutUnderscores_ne_nil (h : DigitRun base.isDigit run) :
    withoutUnderscores (String.ofList run) ≠ [] := by
  obtain ⟨first, others, rfl, hfirst⟩ := h.exists_first
  simp [withoutUnderscores, base.ne_underscore hfirst]

theorem not_digitRun_underscore : ¬ DigitRun base.isDigit ('_' :: run) := by
  intro h
  obtain ⟨first, others, heq, hfirst⟩ := h.exists_first
  exact base.ne_underscore hfirst (List.cons.inj heq).1.symm

theorem digitRun_cons_cons {d : Char} (hc : base.isDigit c = true) (hd : d ≠ '_') :
    DigitRun base.isDigit (c :: d :: run) ↔ DigitRun base.isDigit (d :: run) := by
  refine ⟨fun h => ?_, .digit hc⟩
  cases h with
  | digit _ hrun => exact hrun
  | separated _ _ => exact absurd rfl hd

theorem digitRun_cons_underscore (hc : base.isDigit c = true) :
    DigitRun base.isDigit (c :: '_' :: run) ↔ DigitRun base.isDigit run := by
  refine ⟨fun h => ?_, .separated hc⟩
  cases h with
  | digit _ hrun => exact absurd hrun not_digitRun_underscore
  | separated _ hrun => exact hrun

theorem misplacedUnderscoreFrom?_cons (i : Nat) (hc : c ≠ '_') :
    misplacedUnderscoreFrom? i (c :: run) = misplacedUnderscoreFrom? (i + 1) run := by
  simp [misplacedUnderscoreFrom?]

/-- An underscore is behind a digit: behind it there is a digit as well, or it is misplaced. -/
theorem misplacedUnderscoreFrom?_underscore (i : Nat) (hrun : ∀ d ∈ run, base.inRun d = true) :
    misplacedUnderscoreFrom? (i + 1) ('_' :: run) = none ↔
      (∃ d rest, run = d :: rest ∧ base.isDigit d = true) ∧
        misplacedUnderscoreFrom? (i + 2) run = none := by
  cases run with
  | nil => simp [misplacedUnderscoreFrom?]
  | cons d rest =>
    by_cases hd : d = '_'
    · subst hd
      simp [misplacedUnderscoreFrom?, base.isDigit_underscore]
    · have hdigit : base.isDigit d = true := by
        simpa [IntBase.inRun, hd] using hrun d List.mem_cons_self
      simp [misplacedUnderscoreFrom?, hd, hdigit]

/-- Behind a digit, the underscores are where they may be when the digits with them are a run. -/
theorem misplacedUnderscoreFrom?_eq_none (i : Nat) (hc : base.isDigit c = true)
    (hrun : ∀ d ∈ run, base.inRun d = true) :
    misplacedUnderscoreFrom? i (c :: run) = none ↔ DigitRun base.isDigit (c :: run) := by
  -- With an underscore behind it, a digit is taken with two characters at once.
  induction hn : run.length using Nat.strong_induction_on generalizing run c i with
  | _ n ih =>
    subst hn
    rw [misplacedUnderscoreFrom?_cons i (base.ne_underscore hc)]
    cases run with
    | nil => exact iff_of_true rfl (.single hc)
    | cons d rest =>
      have hrest : ∀ e ∈ rest, base.inRun e = true := fun e he =>
        hrun e (List.mem_cons_of_mem _ he)
      by_cases hd : d = '_'
      · subst hd
        rw [digitRun_cons_underscore hc, misplacedUnderscoreFrom?_underscore i hrest]
        constructor
        · rintro ⟨⟨e, others, rfl, he⟩, hnone⟩
          exact (ih others.length (by simp only [List.length_cons]; omega) (i + 2) he
            (fun f hf => hrest f (List.mem_cons_of_mem _ hf)) rfl).1 hnone
        · intro hdigits
          obtain ⟨e, others, rfl, he⟩ := hdigits.exists_first
          exact ⟨⟨e, others, rfl, he⟩,
            (ih others.length (by simp only [List.length_cons]; omega) (i + 2) he
              (fun f hf => hrest f (List.mem_cons_of_mem _ hf)) rfl).2 hdigits⟩
      · have hdigit : base.isDigit d = true := by
          simpa [IntBase.inRun, hd] using hrun d List.mem_cons_self
        rw [digitRun_cons_cons hc hd]
        exact ih rest.length (Nat.lt_succ_self _) (i + 1) hdigit hrest rfl

/-- Among digits and underscores, no underscore is misplaced when they are a run, or nothing. -/
theorem misplacedUnderscore?_eq_none (hrun : ∀ c ∈ run, base.inRun c = true) :
    misplacedUnderscore? (String.ofList run) = none ↔ run = [] ∨ DigitRun base.isDigit run := by
  rw [misplacedUnderscore?, String.toList_ofList]
  cases run with
  | nil => exact iff_of_true rfl (.inl rfl)
  | cons c run =>
    rw [or_iff_right (List.cons_ne_nil c run)]
    by_cases hc : c = '_'
    · subst hc
      exact iff_of_false (fun h => nomatch h) not_digitRun_underscore
    · have hdigit : base.isDigit c = true := by
        simpa [IntBase.inRun, hc] using hrun c List.mem_cons_self
      exact misplacedUnderscoreFrom?_eq_none 0 hdigit
        fun d hd => hrun d (List.mem_cons_of_mem _ hd)

end Runs

/-! ### Literals -/

/-- The letters behind a zero that announce the base. -/
def IntBase.marks : IntBase → List Char
  | decimal => []
  | hexadecimal => ['x', 'X']
  | octal => ['o', 'O']
  | binary => ['b', 'B']

theorem IntBase.ofLetter?_eq_some {base : IntBase} {c : Char} :
    ofLetter? c = some base ↔ c ∈ base.marks := by
  constructor
  · intro h
    rw [ofLetter?] at h
    split at h
    next hx => cases h; simpa [marks] using hx
    next =>
      split at h
      next ho => cases h; simpa [marks] using ho
      next =>
        split at h
        next hb => cases h; simpa [marks] using hb
        next => cases h
  · intro h
    cases base <;>
      simp only [marks, List.mem_cons, List.not_mem_nil, or_false] at h
    all_goals rcases h with rfl | rfl <;> rfl

/-- The mark of a base goes on as a name does, but not as a number in base ten. -/
theorem IntBase.spec_of_mem_marks {base : IntBase} {c : Char} (h : c ∈ base.marks) :
    decimal.inRun c = false ∧ continuesName c = true ∧ c ∉ ['.', 'e', 'E'] := by
  cases base <;> simp only [marks, List.mem_cons, List.not_mem_nil, or_false] at h
  all_goals rcases h with rfl | rfl <;> exact ⟨rfl, rfl, by simp⟩

/-- A point with a digit behind it is at the offset. -/
def pointAt (text : Array Char) (i : Nat) : Bool :=
  charAt text i == '.' && isDigitLike (charAt text (i + 1))

/-- An exponent: its letter, perhaps a sign, and a run of digits. -/
inductive ExponentText : List Char → Prop
  | mk {letter : Char} {sign run : List Char} (hletter : letter ∈ ['e', 'E'])
      (hsign : sign ∈ [[], ['+'], ['-']]) (hrun : DigitRun IntBase.decimal.isDigit run) :
      ExponentText (letter :: (sign ++ run))

/-- The characters are those of a literal that ends at `stop`: of an integer with or without the
mark of its base, of a float with a point and perhaps an exponent, or of one with an exponent alone.
What could make an integer a float, or give a float an exponent, is not at `stop`. -/
inductive NumberText (text : Array Char) (start stop : Nat) : List Char → NumberLiteral → Prop
  | based {base : IntBase} {mark : Char} {run : List Char} (hmark : mark ∈ base.marks)
      (hrun : DigitRun base.isDigit run) :
      NumberText text start stop ('0' :: mark :: run)
        (.int ⟨base, String.ofList run, .ofNat start stop⟩)
  | integer {run : List Char} (hrun : DigitRun IntBase.decimal.isDigit run)
      (hpoint : pointAt text stop = false) (hexponent : Parser.exponentAt text stop = false) :
      NumberText text start stop run (.int ⟨.decimal, String.ofList run, .ofNat start stop⟩)
  | fraction {integer run : List Char}
      (hinteger : integer = [] ∨ DigitRun IntBase.decimal.isDigit integer)
      (hrun : DigitRun IntBase.decimal.isDigit run)
      (hexponent : Parser.exponentAt text stop = false) :
      NumberText text start stop (integer ++ '.' :: run)
        (.float ⟨String.ofList (integer ++ '.' :: run), .ofNat start stop⟩)
  | fractionExponent {integer run exponent : List Char}
      (hinteger : integer = [] ∨ DigitRun IntBase.decimal.isDigit integer)
      (hrun : DigitRun IntBase.decimal.isDigit run) (hexponent : ExponentText exponent) :
      NumberText text start stop (integer ++ '.' :: run ++ exponent)
        (.float ⟨String.ofList (integer ++ '.' :: run ++ exponent), .ofNat start stop⟩)
  | exponent {integer exponent : List Char} (hinteger : DigitRun IntBase.decimal.isDigit integer)
      (hexponent : ExponentText exponent) :
      NumberText text start stop (integer ++ exponent)
        (.float ⟨String.ofList (integer ++ exponent), .ofNat start stop⟩)

/-- The literal stands in the text from `start` up to `stop`, and does not run on into a name. -/
structure NumberStands (text : Array Char) (start stop : Nat) (literal : NumberLiteral) : Prop where
  exists_text : ∃ word rest, text.toList.drop start = word ++ rest ∧ stop = start + word.length ∧
    NumberText text start stop word literal
  apart : continuesName (charAt text stop) = false

/-! ### Values -/

/-- The value of digits is that of the digits as they follow one another, the last one counted
once. -/
theorem digitsValue_eq_ofDigits (radix : Nat) (digits : List Char) :
    digitsValue radix digits = Nat.ofDigits radix (digits.reverse.map digitValue) := by
  rw [digitsValue, List.foldl_eq_foldr_reverse, Nat.ofDigits_eq_foldr, List.foldr_map]
  congr 1
  funext c value
  rw [Nat.cast_id, Nat.add_comm, Nat.mul_comm]

/-- The value of an integer that stands in a text is that of its digits without the underscores, if
they are decimal only up to a number of them. -/
theorem NumberStands.value?_eq {text : Array Char} {start stop : Nat} {literal : IntLiteral}
    (h : NumberStands text start stop (.int literal))
    (hlimit : literal.base = .decimal →
      (withoutUnderscores literal.digits).length ≤ decimalDigitLimit) :
    literal.value? =
      some (Nat.ofDigits literal.base.radix
        ((withoutUnderscores literal.digits).reverse.map digitValue)) := by
  obtain ⟨word, rest, -, -, htext⟩ := h.exists_text
  have hdigits : withoutUnderscores literal.digits ≠ [] := by
    cases htext with
    | based _ hrun => exact hrun.withoutUnderscores_ne_nil
    | integer hrun _ _ => exact hrun.withoutUnderscores_ne_nil
  rw [IntLiteral.value?, if_neg, digitsValue_eq_ofDigits]
  rintro (hempty | ⟨hbase, hlong⟩)
  · exact hdigits (List.isEmpty_iff.1 hempty)
  · exact absurd (hlimit hbase) (Nat.not_le.2 hlong)

end PklSyntax
