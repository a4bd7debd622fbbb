import PklSyntax.Proofs.Growth.Module
import PklSyntax.Proofs.Moving.Between
import PklSyntax.Proofs.Options.Result
import PklSyntax.Proofs.Printing.Results

/-!
# Modules in two texts

A declaration that is read in one of two texts is read in the other one, and then only warnings are
recorded of it, which need not be the same on both sides: they depend on the header. A text without
errors is read by a row of declarations, each where the one before it has ended.

What a loop over the declarations comes to is the result of the parse, as errors are concerned: the
warnings that only the end of a text brings are none.

## Main definitions

* `PlainRun`: a row of declarations that are read without errors up to the end of the text.

## Main statements

* `Overlap.Abreast.of_between`: parses between declarations are abreast.
* `Overlap.declaration_abreast`: a declaration is read in both texts.
* `exists_plainRun`: how a text without errors is read.
* `Parser.Loops.parse`: what the loop over the declarations says of a parse.
-/

namespace PklSyntax

open PklSyntax.Parser

variable {text : Array Char} {ctx : Context} {s s' t t' u v : State} {c c' e n : Nat}
  {decl : Declaration} {decls : List Declaration} {progress progress' : Progress}

/-! ### Errors on record -/

namespace State

theorem errors_eq_nil : s.errors = [] ↔ ¬ s.HasError := by
  rw [errors, List.filter_eq_nil_iff, HasError]
  simp only [not_exists, not_and]

theorem hasError_push {d : Diagnostic} (h : d.isError = true) :
    HasError { s with diagnostics := s.diagnostics.push d } :=
  ⟨d, by simp, h⟩

/-- Warnings are no errors. -/
theorem errors_record {ds : List Diagnostic} (h : ∀ d ∈ ds, d.isError = false) :
    { s with diagnostics := s.diagnostics ++ ds }.errors = s.errors := by
  rw [errors_append, List.filter_eq_nil_iff.2 fun d hd => by simp [h d hd], List.append_nil]

end State

/-- The offset of a diagnostic that is placed. -/
theorem Diagnostic.offset_shift {δ : Int} {d : Diagnostic} (h : d.span?.isSome = true) :
    (d.placed (.shift δ)).offset = d.offset + δ := by
  have hprimary : Label.isPrimary ∘ Label.placed (.shift δ) = Label.isPrimary := rfl
  simp only [Diagnostic.offset, Diagnostic.span?, Diagnostic.placed, List.find?_map, hprimary,
    Option.map_map] at h ⊢
  cases hfind : d.labels.find? Label.isPrimary with
  | none => simp [hfind] at h
  | some label => rfl

namespace Parser

/-! ### Recording -/

/-- A declaration that is read is added, and warnings are recorded of it. -/
theorem nextDeclaration_of_read (progress : Progress)
    (h : Grammar.full.declarationRule ctx u = .ok decl t) :
    ∃ ds : List Diagnostic, (∀ d ∈ ds, d.isError = false) ∧ nextDeclaration progress ctx u =
      .ok ⟨progress.declarations.push decl, progress.header.add decl⟩
        { t with diagnostics := t.diagnostics ++ ds } := by
  refine ⟨(progress.header.problems decl).map fun problem => problem.diagnostic decl.span, ?_, ?_⟩
  · intro d hd
    obtain ⟨problem, hproblem, rfl⟩ := List.mem_map.1 hd
    exact (Header.problems_spec hproblem decl.span).1
  · rw [nextDeclaration_eq_of_ok progress h, bind_apply,
      forM_report_run (fun problem => problem) fun _ => decl.span]
    rfl

/-- Of doc comments that no declaration has taken only warnings are recorded. -/
theorem reportOrphans_run (ctx : Context) (s : State) :
    ∃ ds : List Diagnostic, (∀ d ∈ ds, d.isError = false) ∧
      reportOrphans ctx s = .ok () { s with diagnostics := s.diagnostics ++ ds } := by
  refine ⟨s.orphanWarnings ctx.options, fun d hd => ?_, reportOrphans_eq ctx s⟩
  obtain ⟨doc, -, rfl⟩ := State.mem_orphanWarnings hd
  rfl

end Parser

/-! ### The result of a parse -/

/-- Diagnostics in the order of the text. -/
def sortedByOffset (ds : List Diagnostic) : List Diagnostic :=
  ds.mergeSort fun a b => a.offset ≤ b.offset

theorem sortedByOffset_eq_nil {ds : List Diagnostic} : sortedByOffset ds = [] ↔ ds = [] := by
  rw [← List.length_eq_zero_iff, ← List.length_eq_zero_iff, sortedByOffset, List.length_mergeSort]

/-- Diagnostics stay in their order when all of them are moved. -/
theorem sortedByOffset_shift {δ : Int} {ds : List Diagnostic}
    (h : ∀ d ∈ ds, d.span?.isSome = true) :
    sortedByOffset (ds.map (Diagnostic.placed (.shift δ))) =
      (sortedByOffset ds).map (Diagnostic.placed (.shift δ)) := by
  refine (List.map_mergeSort fun a ha b hb => ?_).symm
  simp [Diagnostic.offset_shift (h a ha), Diagnostic.offset_shift (h b hb)]

theorem filter_isError_inTextOrder (s : State) :
    (inTextOrder s.diagnostics).filter Diagnostic.isError = sortedByOffset s.errors := by
  rw [← inTextOrder_filter, inTextOrder, Array.toList_filter]
  rfl

/-- The errors of a parse. -/
def ParseResult.errors (result : ParseResult) : List Diagnostic :=
  result.diagnostics.filter Diagnostic.isError

theorem ParseResult.hasErrors_eq_false {result : ParseResult} :
    result.hasErrors = false ↔ result.errors = [] := by
  rw [hasErrors, errors, List.any_eq_false, List.filter_eq_nil_iff]

/-- The loop over the declarations is all that the declarations and the errors of a parse depend
on. -/
theorem parse_of_rounds (text filename : String) (options : Options) :
    ∃ progress s, rounds declarationRound (text.toList.toArray.size + 1) {}
        ⟨text.toList.toArray, options⟩ {} = .ok progress s ∧
      (parse text filename options).module.declarations = progress.declarations.toList ∧
      (parse text filename options).errors = sortedByOffset s.errors := by
  obtain ⟨progress, t, s, hrounds, horphans, -, hrun⟩ :=
    moduleDeclarations_rounds ⟨text.toList.toArray, options⟩
  obtain ⟨ds, hds, horphans'⟩ := reportOrphans_run ⟨text.toList.toArray, options⟩ t
  rw [horphans] at horphans'
  cases horphans'
  refine ⟨progress, t, hrounds, by rw [parse_of_run hrun], ?_⟩
  rw [parse_of_run hrun, ParseResult.errors, filter_isError_inTextOrder, State.errors_record hds]

/-- What the loop over the declarations comes to. -/
theorem Parser.Loops.parse {text : String} {options : Options} {Q : Progress → State → Prop}
    (h : Loops declarationRound ⟨text.toList.toArray, options⟩ Q {} {}) (filename : String) :
    ∃ progress s, Q progress s ∧
      (parse text filename options).module.declarations = progress.declarations.toList ∧
      (parse text filename options).errors = sortedByOffset s.errors := by
  obtain ⟨progress, s, hrounds, hparse⟩ := parse_of_rounds text filename options
  obtain ⟨progress', s', hrun, hQ⟩ := h.reads
  have hloop : repeating declarationRound {} ⟨text.toList.toArray, options⟩ {} =
      rounds declarationRound (text.toList.toArray.size + 1) {} ⟨text.toList.toArray, options⟩ {} :=
    rfl
  rw [hloop, hrounds] at hrun
  cases hrun
  exact ⟨progress, s, hQ, hparse⟩

/-! ### Texts without errors -/

/-- The declarations are read one after the other without an error, from a state between
declarations up to the end of the text. The last of them ends at `e`. -/
inductive PlainRun (ctx : Context) : State → Nat → List Declaration → Nat → Prop
  | done {s : State} {c : Nat} (hs : Between ctx.text s c) (hclosed : AllClosed ctx.text c)
      (hend : skipEnd ctx.text c = ctx.text.size) : PlainRun ctx s c [] c
  | read {s t : State} {c c' e : Nat} {decl : Declaration} {decls : List Declaration}
      {ds : List Diagnostic} (hs : Between ctx.text s c) (hclosed : AllClosed ctx.text c)
      (hrun : Grammar.full.declarationRule ctx (s.skipTrivia ctx.text) = .ok decl t)
      (hread : DeclarationRead ctx.text (s.skipTrivia ctx.text) c decl t c') (herror : ¬ t.HasError)
      (hds : ∀ d ∈ ds, d.isError = false)
      (hrest : PlainRun ctx { t with diagnostics := t.diagnostics ++ ds } c' decls e) :
      PlainRun ctx s c (decl :: decls) e

namespace PlainRun

theorem closed (h : PlainRun ctx s c decls e) : AllClosed ctx.text c := by
  cases h <;> assumption

/-- The next declaration, or the end of the text, goes on with no construct. -/
theorem follows (h : PlainRun ctx s c decls e) : Follows ctx.text (skipEnd ctx.text c) := by
  cases h with
  | done hs hclosed hend => exact .inl (Nat.le_of_eq hend.symm)
  | read hs hclosed hrun =>
    obtain ⟨hskip, hpos, hend⟩ := hs.skipTrivia
    rw [← hpos]
    exact Grammar.follows_of_declaration hskip hend hrun

/-- A declaration may end where the run goes on. -/
theorem ends (h : PlainRun ctx s c decls e) (hend : TokenEnd ctx.text c) : Ends ctx.text c :=
  ⟨hend, h.closed, h.follows⟩

/-- Either the run is at its end, or the next declaration begins in front of that. -/
theorem end_cases (h : PlainRun ctx s c decls e) : c = e ∨ skipEnd ctx.text c < e := by
  induction h with
  | done => exact .inl rfl
  | @read s t c c' e decl decls ds hs _ _ hread _ _ _ ih =>
    have hlt := hread.lt
    have hle := @le_skipEnd ctx.text c'
    rw [hs.skipTrivia.2.1] at hlt
    exact .inr (by omega)

/-- Behind the last declaration there are only trivia. -/
theorem trivia_end (h : PlainRun ctx s c decls e) :
    AllClosed ctx.text e ∧ skipEnd ctx.text e = ctx.text.size ∧ e ≤ ctx.text.size := by
  induction h with
  | done hs hclosed hend => exact ⟨hclosed, hend, hs.stands.le_size⟩
  | read _ _ _ _ _ _ _ ih => exact ih

/-- The last declaration ends with a token. -/
theorem tokenEnd (h : PlainRun ctx s c decls e) (hend : c = e → TokenEnd ctx.text c) :
    TokenEnd ctx.text e := by
  induction h with
  | done => exact hend rfl
  | read _ _ _ hread _ _ _ ih => exact ih fun _ => hread.tokenEnd

/-- Where the last declaration ends. -/
theorem end_eq (h : PlainRun ctx s c decls e) :
    e = decls.getLast?.elim c fun decl => decl.span.stop.toNat := by
  induction h with
  | done => rfl
  | @read s t c c' e decl decls ds _ _ _ hread _ _ hrest ih =>
    cases decls with
    | nil =>
      rw [List.getLast?_nil, Option.elim_none] at ih
      rw [List.getLast?_singleton, Option.elim_some, hread.span_eq, ih]
      rfl
    | cons next decls =>
      obtain ⟨last, hlast⟩ : ∃ last, (next :: decls).getLast? = some last :=
        Option.isSome_iff_exists.1 (by simp)
      rw [List.getLast?_cons_cons, ih, hlast]
      rfl

end PlainRun

/-- A loop over declarations that ends without an error is a plain run. The induction is on the
rounds. -/
theorem exists_plainRun (hs : Between ctx.text s c)
    (hrun : rounds declarationRound n progress ctx s = .ok progress' s') (herror : ¬ s'.HasError) :
    ∃ decls e, progress'.declarations.toList = progress.declarations.toList ++ decls ∧
      PlainRun ctx s c decls e := by
  induction n generalizing s c progress with
  | zero => cases hrun
  | succ n ih =>
    obtain ⟨hskip, hpos, hend⟩ := hs.skipTrivia
    have hclosed (hno : ¬ (s.skipTrivia ctx.text).HasError) : AllClosed ctx.text c := by
      rcases hskip.stands.place with ⟨hc, hfresh⟩ | ⟨-, -, -, hclosed⟩
      · have := hfresh _ hend
        omega
      · exact hclosed.resolve_right hno
    rcases rounds_declarationRound_cases ctx rfl hrun with
      ⟨hdone, rfl, rfl⟩ | ⟨hlt, -, progress₁, v, hnext, hrest⟩
    · refine ⟨[], c, (List.append_nil _).symm, .done hs (hclosed herror) ?_⟩
      have hsize : ctx.text.size ≤ (s.skipTrivia ctx.text).pos :=
        hdone.resolve_right fun hlimit => herror (hasError_of_limitReached hlimit)
      have := hskip.stands.pos_le_size
      omega
    · have hno {w : State} (hkept : w.diagnostics.toList <+: v.diagnostics.toList) : ¬ w.HasError :=
        fun he => herror ((he.mono hkept).mono (prefix_of_rounds hrest).2.diagnostics)
      cases hcall : Grammar.full.declarationRule ctx (s.skipTrivia ctx.text) with
      | ok decl t =>
        obtain ⟨ds, hds, hnext'⟩ := nextDeclaration_of_read progress hcall
        rw [hnext] at hnext'
        cases hnext'
        obtain ⟨c', hread⟩ := Grammar.declarationRead hskip hcall
        obtain ⟨decls, e, hdecls, hplain⟩ := ih ((hskip.read hread).record ds) hrest
        have hno' : ¬ t.HasError := hno (by simp)
        refine ⟨decl :: decls, e, by simpa using hdecls, .read hs (hclosed fun he => ?_) hcall hread
          hno' hds hplain⟩
        exact hno' (hread.passes.onward.hasError he)
      | error stop t =>
        have hkept := (Grammar.grows_full ctx).declaration_of_error hcall
        exfalso
        cases stop with
        | failed =>
          rw [nextDeclaration_of_failed hcall] at hnext
          cases hnext
          have hplaces := (Grammar.places_full ctx).declarationRule hskip.stands
          rw [EndsFrom, hcall] at hplaces
          exact hno (w := t) List.prefix_rfl (hplaces.2.1 rfl)
        | tooDeep =>
          rw [nextDeclaration_of_tooDeep hcall hkept] at hnext
          cases hnext
          exact hno List.prefix_rfl (State.hasError_push rfl)
        | stalled =>
          rw [nextDeclaration_of_stalled hcall] at hnext
          cases hnext

/-- A declaration that is read without an error makes a round of the loop. -/
theorem Parser.Loops.read {Q : Progress → State → Prop} {c₀ : Nat} (hs : Between ctx.text s c)
    (hrun : Grammar.full.declarationRule ctx (s.skipTrivia ctx.text) = .ok decl t)
    (hread : DeclarationRead ctx.text (s.skipTrivia ctx.text) c₀ decl t c') (herror : ¬ t.HasError)
    (hmore : ∀ ds : List Diagnostic, (∀ d ∈ ds, d.isError = false) →
      Loops declarationRound ctx Q ⟨progress.declarations.push decl, progress.header.add decl⟩
        { t with diagnostics := t.diagnostics ++ ds }) :
    Loops declarationRound ctx Q progress s := by
  obtain ⟨ds, hds, hnext⟩ := nextDeclaration_of_read progress hrun
  have hlt : (s.skipTrivia ctx.text).pos < t.pos :=
    Nat.lt_of_lt_of_le hread.lt hread.passes.onward.stands.le_pos
  have hsize := hread.passes.onward.stands.pos_le_size
  have hle := (hs.stands.skipTrivia hs.mode_eq).1.pos_le
  have hlimit : ctx.options.limitReached (s.skipTrivia ctx.text) = false := Bool.eq_false_iff.2
    fun hlimit => herror (hread.passes.onward.hasError (hasError_of_limitReached hlimit))
  exact .more (declarationRound_of_next rfl (Nat.lt_of_lt_of_le hlt hsize) hlimit hnext)
    (Nat.lt_of_le_of_lt hle hlt) hsize (hmore ds hds)

/-! ### Declarations in two texts -/

/-- Where no comment is left open, skipping trivia records no error. -/
theorem Between.errors_skipTrivia (h : Between text s c) (hclosed : AllClosed text c) :
    (s.skipTrivia text).errors = s.errors := by
  by_cases hend : s.triviaEnd = some s.pos
  · rw [h.stands.skipTrivia_of_skipped hend]
  · rw [h.stands.skipTrivia_of_fresh h.mode_eq hend, hclosed]
    show State.errors { s with diagnostics := s.diagnostics ++ ([] : List Diagnostic) } = _
    rw [State.errors_append, List.filter_nil, List.append_nil]

namespace Overlap

variable {W : Overlap}

/-- Two parses between declarations are abreast when they stand at corresponding places and the same
errors are on record. -/
theorem Abreast.of_between (hlo : W.lo ≤ c) (hs : Between W.left.text s c)
    (ht : Between W.right.text t (W.place c))
    (hskipped : t.triviaEnd = some t.pos ↔ s.triviaEnd = some s.pos)
    (herrors : t.errors = s.errors.map (Diagnostic.placed W.shift)) : W.Abreast s c t where
  stands := ht.stands
  mode_eq := ht.mode_eq.trans hs.mode_eq.symm
  skipped := hskipped
  pending := fun hi => by
    by_cases hend : s.triviaEnd = some s.pos
    · have hpos := (hs.stands.of_skipped hend).1
      rw [hs.pending hend, ht.pending (hskipped.2 hend), docsFrom_place hlo (hpos ▸ hi),
        List.getLast?_map]
    · rw [State.pending_eq, State.pending_eq, if_neg fun h => hend (hskipped.1 h.1),
        if_neg fun h => hend h.1]
      rfl
  errors := herrors

/-- Behind the trivia in front of a declaration two parses without errors are abreast, wherever
these trivia begin. -/
theorem abreast_skipTrivia {d : Nat} (hlo : W.lo ≤ c) (hs : Between W.left.text s d)
    (hl : Leads W.left.text d c) (ht : Between W.right.text t e)
    (hr : Leads W.right.text e (W.place c)) (hno : ¬ s.HasError) (hno' : ¬ t.HasError) :
    Between W.left.text (s.skipTrivia W.left.text) c ∧
      Between W.right.text (t.skipTrivia W.right.text) (W.place c) ∧
      W.Abreast (s.skipTrivia W.left.text) c (t.skipTrivia W.right.text) := by
  obtain ⟨hskip, -, hend⟩ := hs.skipTrivia
  obtain ⟨hskip', -, hend'⟩ := ht.skipTrivia
  refine ⟨hskip.anchor hend hl, hskip'.anchor hend' hr, .of_between hlo (hskip.anchor hend hl)
    (hskip'.anchor hend' hr) (iff_of_true hend' hend) ?_⟩
  rw [hs.errors_skipTrivia hl.closed, ht.errors_skipTrivia hr.closed, State.errors_eq_nil.2 hno,
    State.errors_eq_nil.2 hno']
  rfl

/-- A declaration that is read in the left text, and leaves it live, is read in the right one. -/
theorem declaration_abreast (hlo : W.lo ≤ c) (hs : Between W.left.text u c)
    (ht : Between W.right.text v (W.place c)) (h : W.Abreast u c v)
    (hrun : Grammar.full.declarationRule W.left u = .ok decl t)
    (hspan : decl.span = ⟨u.lead, c'⟩) (hlive : W.Live true t c') :
    ∃ t', Grammar.full.declarationRule W.right v = .ok (decl.placed W.shift) t' ∧
      W.Abreast t c' t' ∧
      DeclarationRead W.right.text v (W.place c) (decl.placed W.shift) t' (W.place c') := by
  have hmirror := (Grammar.mirrored_full W).declarationRule (b := true)
    (⟨hlo, hs.stands, hs.mode_eq, ht.mode_eq⟩ : W.Linked .loose u c v)
  rw [hrun] at hmirror
  obtain ⟨c₁, hpass, ⟨hstop, -⟩, hright⟩ := hmirror
  obtain rfl : c' = c₁ := by
    have hstop := hstop.stop_eq
    rw [hspan] at hstop
    exact Int.ofNat.inj hstop
  obtain ⟨t', hrun', habreast⟩ := hright (fun _ => h) hlive
  have hrun' : Grammar.full.declarationRule W.right v = .ok (decl.placed W.shift) t' := hrun'
  refine ⟨t', hrun', habreast, ?_⟩
  obtain ⟨c₂, hread'⟩ := Grammar.declarationRead ht hrun'
  obtain rfl : c₂ = W.place c' := by
    have hspan' := hread'.span_eq
    rw [Declaration.span_placed, hspan] at hspan'
    have hend := congrArg Span.stop hspan'
    have hplace := W.cast_place (i := c') (Nat.le_trans hlo hpass.onward.le)
    simp only [Placement.stop_span, offset_shift] at hend
    omega
  exact hread'

end Overlap

end PklSyntax
