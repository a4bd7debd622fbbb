import PklSyntax.Proofs.Options.Module

/-!
# What the options of a parse change

The two kinds of options are compared on the results of parses. Warnings that are not asked for are
left out and nothing else changes. With a limit on errors, a parse gives the first of the declarations
that a parse with a greater limit gives, or with none; and a text with fewer errors than the limit is
read as it is without a limit.

## Main definitions

* `Options.keeps`: whether a diagnostic is among those that the options ask for.

## Main statements

* `filter_mergeSort`: sorting what is left over is leaving out of what is sorted.
* `parse_diagnostics_filter`: warning options only filter.
* `parse_maxErrors_mono`: the limit on errors is monotone.
-/

namespace PklSyntax

open PklSyntax.Parser

/-! ### Sorting -/

/-- A list is cut in one way only into a part whose members have a property and a part whose members
do not have it. -/
theorem append_inj_of_forall {α : Type} {p : α → Bool} {as bs cs ds : List α}
    (h : as ++ bs = cs ++ ds) (has : ∀ a ∈ as, p a = true) (hbs : ∀ b ∈ bs, p b = false)
    (hcs : ∀ c ∈ cs, p c = true) (hds : ∀ d ∈ ds, p d = false) : as = cs ∧ bs = ds := by
  have hfirst := congrArg (List.filter p) h
  rw [List.filter_append, List.filter_append, List.filter_eq_self.2 has, List.filter_eq_self.2 hcs,
    List.filter_eq_nil_iff.2 fun b hb => by simp [hbs b hb],
    List.filter_eq_nil_iff.2 fun d hd => by simp [hds d hd], List.append_nil, List.append_nil] at hfirst
  exact ⟨hfirst, List.append_cancel_left (hfirst ▸ h)⟩

/-- A stable sort of some entries of a list gives them in the order in which they stand in the sorted
list. The induction is on the list: an entry is put behind all those that it must not precede. -/
theorem filter_mergeSort {α : Type} {le : α → α → Bool}
    (htrans : ∀ a b c, le a b = true → le b c = true → le a c = true)
    (htotal : ∀ a b, (le a b || le b a) = true) (p : α → Bool) (l : List α) :
    (l.mergeSort le).filter p = (l.filter p).mergeSort le := by
  induction l with
  | nil => simp
  | cons a l ih =>
    obtain ⟨before, behind, hsorted, hrest, hbefore⟩ := List.mergeSort_cons htrans htotal a l
    have hpairwise := List.pairwise_mergeSort htrans htotal (a :: l)
    rw [hsorted, List.pairwise_append, List.pairwise_cons] at hpairwise
    rw [hrest, List.filter_append] at ih
    rw [hsorted, List.filter_append]
    cases ha : p a with
    | false => rw [List.filter_cons_of_neg (by simp [ha]), List.filter_cons_of_neg (by simp [ha]), ih]
    | true =>
      rw [List.filter_cons_of_pos ha, List.filter_cons_of_pos ha]
      obtain ⟨before', behind', hsorted', hrest', hbefore'⟩ :=
        List.mergeSort_cons htrans htotal a (l.filter p)
      have hpairwise' := List.pairwise_mergeSort htrans htotal (a :: l.filter p)
      rw [hsorted', List.pairwise_append, List.pairwise_cons] at hpairwise'
      obtain ⟨heq, heq'⟩ := append_inj_of_forall (p := fun b => !le a b) (ih.trans hrest')
        (fun b hb => hbefore b (List.mem_of_mem_filter hb))
        (fun b hb => by simp [hpairwise.2.1.1 b (List.mem_of_mem_filter hb)])
        hbefore' (fun b hb => by simp [hpairwise'.2.1.1 b hb])
      rw [hsorted', heq, heq']

/-- Leaving diagnostics out does not change the order of the others. -/
theorem inTextOrder_filter (keep : Diagnostic → Bool) (ds : Array Diagnostic) :
    inTextOrder (ds.filter keep) = (inTextOrder ds).filter keep := by
  rw [inTextOrder, inTextOrder, filter_mergeSort, Array.toList_filter]
  · intro a b c hab hbc
    simp only [decide_eq_true_eq] at hab hbc ⊢
    omega
  · intro a b
    simp only [Bool.or_eq_true, decide_eq_true_eq]
    omega

/-! ### Warnings -/

/-- The diagnostic is no warning that is not asked for. -/
def Options.keeps (options : Options) (d : Diagnostic) : Bool :=
  (options.styleWarnings || !(d.code == "W304" || d.code == "W305")) &&
    (options.docCommentWarnings || !(d.code == "W300"))

/-- A problem is told by its code from those that are reported on request. -/
theorem Options.keeps_diagnostic (options : Options) (problem : Problem) (span : Span) :
    options.keeps (problem.diagnostic span) = options.asksFor problem := by
  cases problem <;> simp [keeps, asksFor, Problem.diagnostic, Problem.errorAt, Problem.escapeErrorAt,
    Problem.warningAt]

/-- Warning options only filter. Under other options for warnings a text has the same tree, and the
diagnostics are those with all warnings on, in the same order, without the warnings that are not asked
for. -/
theorem parse_diagnostics_filter (text filename : String) (options : Options) :
    let full := parse text filename
      { options with styleWarnings := true, docCommentWarnings := true }
    (parse text filename options).module = full.module ∧
      (parse text filename options).diagnostics = full.diagnostics.filter options.keeps := by
  let W : Sieve := {
    text := text.toList.toArray
    first := { options with styleWarnings := true, docCommentWarnings := true }
    second := options
    keep := options.keeps
    asksFor := fun problem _ => by cases problem <;> rfl
    keep_diagnostic := fun problem span _ => options.keeps_diagnostic problem span
    maxErrors := fun h => ⟨h, Int.le_refl _⟩ }
  obtain ⟨decls₁, s₁, decls₂, s₂, hfirst, hsecond, ⟨rfl, rfl, -⟩ | houtruns⟩ :=
    W.moduleDeclarations_sifted
  · intro full
    have hfull : full = _ := parse_of_run hfirst
    rw [hfull, parse_of_run hsecond]
    exact ⟨rfl, inTextOrder_filter options.keeps s₁.diagnostics⟩
  · obtain ⟨t, hhalts⟩ := houtruns.halts
    exact absurd hhalts (W.not_halts rfl)

/-! ### The limit on errors -/

/-- When nothing is left out, nothing changes. -/
theorem State.sifted_true (s : State) : s.sifted (fun _ => true) = s := by
  have hrecord : s.diagnostics.filter (fun _ => true) = s.diagnostics :=
    Array.filter_eq_self.2 fun _ _ => rfl
  rw [sifted, hrecord]

/-- Two readings that differ in the limit on errors only. -/
def Sieve.ofLimits (text : Array Char) (options : Options) (k₁ k₂ : Int) (hpos : 0 < k₁)
    (hle : k₁ ≤ k₂ ∨ k₂ ≤ 0) : Sieve where
  text := text
  first := { options with maxErrors := k₁ }
  second := { options with maxErrors := k₂ }
  keep := fun _ => true
  asksFor := fun problem h => by cases problem <;> exact h
  keep_diagnostic := fun problem span h => by cases problem <;> exact h.symm
  maxErrors := fun h => ⟨hpos, hle.resolve_right (by simp only at h; omega)⟩

/-- What a parse with a limit on errors and one with a greater limit come to. -/
theorem parse_of_limits (text filename : String) (options : Options) {k₁ k₂ : Int} (hpos : 0 < k₁)
    (hle : k₁ ≤ k₂ ∨ k₂ ≤ 0) :
    let first := parse text filename { options with maxErrors := k₁ }
    let second := parse text filename { options with maxErrors := k₂ }
    first = second ∨ first.module.declarations <+: second.module.declarations ∧
      (k₁ ≤ Diagnostic.errorCount second.diagnostics ∨ ∃ d ∈ second.diagnostics, d.code = "E204") := by
  obtain ⟨decls₁, s₁, decls₂, s₂, hfirst, hsecond, houtcome⟩ :=
    (Sieve.ofLimits text.toList.toArray options k₁ k₂ hpos hle).moduleDeclarations_sifted
  intro first second
  have hfirst : first = _ := parse_of_run hfirst
  have hsecond : second = _ := parse_of_run hsecond
  rw [hfirst, hsecond]
  rcases houtcome with ⟨rfl, rfl, -⟩ | houtruns
  · refine .inl ?_
    rw [Sieve.ofLimits, State.sifted_true]
  · refine .inr ⟨houtruns.declarations, ?_⟩
    have hsorted : (inTextOrder s₂.diagnostics).Perm s₂.diagnostics.toList :=
      List.mergeSort_perm _ _
    rcases houtruns.exceeds with hlimit | ⟨span, hmem⟩
    · refine .inl ?_
      simp only [Options.limitReached, Bool.and_eq_true, decide_eq_true_eq, State.errorCount,
        ← Array.countP_toList] at hlimit
      show k₁ ≤ ((inTextOrder s₂.diagnostics).countP Diagnostic.isError : Nat)
      rw [hsorted.countP_eq]
      exact hlimit.2
    · exact .inr ⟨_, hsorted.mem_iff.2 (Array.mem_toList_iff.2 hmem), rfl⟩

/-- The limit on errors is monotone. With a limit the declarations are the first ones of those with a
greater limit, or with none. A text with fewer errors than the limit, in which nothing is nested too
deeply, has the same tree and the same diagnostics as without a limit. -/
theorem parse_maxErrors_mono (text filename : String) (options : Options) (k₁ k₂ : Int)
    (hpos : 0 < k₁) (hle : k₁ ≤ k₂ ∨ k₂ ≤ 0) :
    let limited (k : Int) := parse text filename { options with maxErrors := k }
    (limited k₁).module.declarations <+: (limited k₂).module.declarations ∧
      ∀ k₀ ≤ 0, (∀ d ∈ (limited k₀).diagnostics, d.code ≠ "E204") →
        Diagnostic.errorCount (limited k₀).diagnostics < k₁ →
        (limited k₁).module = (limited k₀).module ∧
          (limited k₁).diagnostics = (limited k₀).diagnostics := by
  intro limited
  refine ⟨?_, fun k₀ hk₀ hdeep hcount => ?_⟩
  · rcases parse_of_limits text filename options hpos hle with heq | ⟨hinit, -⟩
    · exact (congrArg (fun result => result.module.declarations) heq) ▸ List.prefix_rfl
    · exact hinit
  · rcases parse_of_limits text filename options hpos (.inr hk₀) with heq | ⟨-, hmany | ⟨d, hd, hcode⟩⟩
    · exact ⟨congrArg ParseResult.module heq, congrArg ParseResult.diagnostics heq⟩
    · exact absurd hmany (Int.not_le.2 hcount)
    · exact absurd hcode (hdeep d hd)

/-- A text with one error and a declaration behind it: with a limit of one the declaration is not
reached, and with a limit of two the text is read as it is without a limit. -/
theorem parse_maxErrors_mono_two :
    (parse "x y\nz = 1" "m" { maxErrors := 1 }).module.declarations <+:
        (parse "x y\nz = 1" "m" { maxErrors := 2 }).module.declarations ∧
      (parse "x y\nz = 1" "m" { maxErrors := 2 }).module =
        (parse "x y\nz = 1" "m" {}).module := by
  have hcodes : ((parse "x y\nz = 1" "m" {}).diagnostics.map Diagnostic.code) = ["E203"] := by
    decide +kernel
  have hcount : (Diagnostic.errorCount (parse "x y\nz = 1" "m" {}).diagnostics : Int) < 2 := by
    decide +kernel
  refine ⟨(parse_maxErrors_mono "x y\nz = 1" "m" {} 1 2 (by decide) (by decide)).1,
    ((parse_maxErrors_mono "x y\nz = 1" "m" {} 2 3 (by decide) (by decide)).2 0 (by decide)
      (fun d hd hcode => ?_) hcount).1⟩
  have hmem : "E204" ∈ (parse "x y\nz = 1" "m" {}).diagnostics.map Diagnostic.code :=
    List.mem_map.2 ⟨d, hd, hcode⟩
  rw [hcodes] at hmem
  simp at hmem

end PklSyntax
