import PklSyntax.Proofs.Header.Rules
import PklSyntax.Proofs.Upkeep.Production
import PklSyntax.Proofs.Options.Result

/-!
# The header of a module that is read

Productions never warn of the header, nor do the trivia between declarations, nor what is done
behind a declaration that was given up. So the warnings of the header that a parse comes to are
those of the declarations in its tree, in their order, and a declaration that was given up has no
part in them.

## Main definitions

* `Diagnostic.concernsHeader`, `State.headerWarnings`: the warnings of the header on record.
* `headerUpkeep`: no production changes them.

## Main statements

* `ModuleRun.headerWarnings_eq`: the warnings of the header that a run over declarations records.
* `parse_headerWarnings`: those of a parse.
-/

namespace PklSyntax

open PklSyntax.Parser

/-! ### Warnings of the header -/

/-- The diagnostic is a warning of the header of a module. -/
def Diagnostic.concernsHeader (d : Diagnostic) : Bool :=
  d.code == "W301" || d.code == "W302" || d.code == "W306"

/-- A warning of the header is told by its code. -/
@[simp] theorem concernsHeader_diagnostic (problem : Problem) (span : Span) :
    (problem.diagnostic span).concernsHeader = problem.concernsHeader := by
  cases problem <;> rfl

/-- The rules for the header are about the header only. -/
theorem Declaration.concernsHeader_of_mem {decl : Declaration} {before : List Declaration}
    {problem : Problem} (h : problem ∈ decl.headerProblems before) :
    problem.concernsHeader = true := by
  rw [headerProblems, List.mem_append, Option.mem_toList, Option.mem_toList] at h
  rcases h with h | h
  · obtain ⟨clause, -, h⟩ := Option.bind_eq_some_iff.1 h
    split at h
    · cases h
      rfl
    · split at h <;> cases h
      rfl
  · rw [orderProblem?] at h
    split at h <;> cases h
    rfl

theorem concernsHeader_of_mem_headerWarnings {before decls : List Declaration} {d : Diagnostic}
    (h : d ∈ headerWarnings before decls) : d.concernsHeader = true := by
  induction decls generalizing before with
  | nil => cases h
  | cons decl decls ih =>
    rcases List.mem_append.1 h with h | h
    · obtain ⟨problem, hproblem, rfl⟩ := List.mem_map.1 h
      rw [concernsHeader_diagnostic, Declaration.concernsHeader_of_mem hproblem]
    · exact ih h

/-- The warnings of the header on record. -/
def State.headerWarnings (s : State) : List Diagnostic :=
  s.diagnostics.toList.filter Diagnostic.concernsHeader

namespace State

/-- Other problems are no warnings of the header. -/
theorem headerWarnings_push (s : State) {problem : Problem} (span : Span)
    (h : problem.concernsHeader = false) :
    { s with diagnostics := s.diagnostics.push (problem.diagnostic span) }.headerWarnings =
      s.headerWarnings := by
  simp [headerWarnings, h]

theorem headerWarnings_recording (s : State) (ds : List Diagnostic) :
    (s.recording ds).headerWarnings = s.headerWarnings ++ ds.filter Diagnostic.concernsHeader := by
  simp [headerWarnings, recording]

end State

/-- No step of a production changes the warnings of the header. -/
def headerUpkeep (ctx : Context) : Upkeep :=
  .silent ctx Diagnostic.concernsHeader fun problem span h =>
    (concernsHeader_diagnostic problem span).trans (Problem.concernsHeader_eq_false h)

/-- A declaration has no warning of the header on record when its production ends. -/
theorem headerWarnings_declarationRule (ctx : Context) (s : State) :
    (endState (Grammar.full.declarationRule ctx s)).headerWarnings = s.headerWarnings :=
  (Grammar.upholds_full (headerUpkeep ctx)).declarationRule s

/-- Neither are the orphaned doc comments warnings of the header. -/
theorem headerWarnings_reportOrphans (ctx : Context) (s : State) :
    (endState (reportOrphans ctx s)).headerWarnings = s.headerWarnings := by
  rw [reportOrphans_eq]
  refine (s.onRecord_append Diagnostic.concernsHeader _).trans ?_
  rw [List.filter_eq_nil_iff.2, List.append_nil]
  · rfl
  · intro d hd
    obtain ⟨doc, -, rfl⟩ := State.mem_orphanWarnings hd
    rw [concernsHeader_diagnostic]
    exact Bool.false_ne_true

/-! ### Runs over declarations -/

/-- One more declaration: when it is read, the header is checked, and when it is given up, nothing
of this changes. -/
theorem nextDeclaration_headerWarnings {ctx : Context} {progress progress' : Progress}
    {u t v : State}
    {result : Except Stop Declaration}
    (hknows : progress.header.Knows progress.declarations.toList)
    (hcall : outcome Grammar.full.declarationRule ctx u = .ok result t)
    (hnext : nextDeclaration progress ctx u = .ok progress' v) :
    progress'.header.Knows progress'.declarations.toList ∧
      v.headerWarnings =
        u.headerWarnings ++ headerWarnings progress.declarations.toList result.toOption.toList := by
  have hsame := headerWarnings_declarationRule ctx u
  rw [outcome] at hcall
  cases hrun : Grammar.full.declarationRule ctx u with
  | ok decl t' =>
    rw [hrun] at hcall hsame
    cases hcall
    rw [nextDeclaration_eq_checkHeader progress hrun, bind_apply, checkHeader_apply,
      hknows.problems_eq] at hnext
    cases hnext
    refine ⟨by simpa using hknows.add decl, ?_⟩
    have hone : (decl.headerProblems progress.declarations.toList).map (·.diagnostic decl.span) =
        headerWarnings progress.declarations.toList [decl] := (List.append_nil _).symm
    have hall : ∀ d ∈ headerWarnings progress.declarations.toList [decl], d.concernsHeader = true :=
      fun d hd => concernsHeader_of_mem_headerWarnings hd
    rw [State.headerWarnings_recording, hone, List.filter_eq_self.2 hall]
    exact congrArg (· ++ _) hsame
  | error stop t' =>
    rw [hrun] at hcall hsame
    cases hcall
    cases stop with
    | failed =>
      rw [nextDeclaration_of_failed hrun] at hnext
      cases hnext
      exact ⟨hknows, hsame.trans (List.append_nil _).symm⟩
    | tooDeep =>
      have hgrown := (Grammar.grows_full ctx).declaration_of_error hrun
      rw [nextDeclaration_of_tooDeep hrun hgrown] at hnext
      cases hnext
      exact ⟨hknows, (u.headerWarnings_push _ rfl).trans (List.append_nil _).symm⟩
    | stalled =>
      rw [nextDeclaration_of_stalled hrun] at hnext
      cases hnext

/-- The warnings of the header that a run records are those of the declarations that its calls have
read. -/
theorem ModuleRun.headerWarnings_eq {ctx : Context} {progress progress' : Progress} {s s' : State}
    {calls : List DeclarationCall} (h : ModuleRun ctx progress s calls progress' s')
    (hknows : progress.header.Knows progress.declarations.toList) :
    s'.headerWarnings = s.headerWarnings ++
      headerWarnings progress.declarations.toList
        (calls.filterMap DeclarationCall.declaration?) := by
  have hskipped (s : State) : (s.skipTrivia ctx.text).headerWarnings = s.headerWarnings :=
    (headerUpkeep ctx).skipTrivia s
  induction h with
  | done hskip _ =>
    subst hskip
    simpa [headerWarnings] using hskipped _
  | @call progress progress' _ s u t v s' result calls hskip hlt hcall hnext _ ih =>
    obtain ⟨hknows', hwarnings⟩ := nextDeclaration_headerWarnings hknows hcall hnext
    have hdecls := (nextDeclaration_spec hlt hcall hnext).declarations
    have hcalls : (⟨u, result, t⟩ :: calls).filterMap DeclarationCall.declaration? =
        result.toOption.toList ++ calls.filterMap DeclarationCall.declaration? := by
      rw [List.filterMap_cons, DeclarationCall.declaration?]
      split
      next hnone => rw [hnone]; rfl
      next hsome => rw [hsome]; rfl
    have hu : u.headerWarnings = s.headerWarnings := hskip ▸ hskipped s
    rw [ih hknows', hwarnings, hu, hdecls, hcalls, headerWarnings_append, List.append_assoc]

/-! ### Parses -/

/-- Nodes of a row begin one after the other. -/
theorem Row.pairwise_start {lo hi : Int} {ns : List Node} (h : Row lo ns hi) :
    ns.Pairwise fun a b => a.span.start ≤ b.span.start := by
  induction h with
  | nil => exact .nil
  | cons hstart hsound hrest ih =>
    refine .cons (fun b hb => ?_) ih
    have := (hrest.within hb).1
    have := hsound.start_lt_stop
    omega

/-- Each warning of the header stands at one of the declarations. -/
theorem offset_of_mem_headerWarnings {before decls : List Declaration} {d : Diagnostic}
    (h : d ∈ headerWarnings before decls) : ∃ decl ∈ decls, d.offset = decl.span.start := by
  induction decls generalizing before with
  | nil => cases h
  | cons decl decls ih =>
    rcases List.mem_append.1 h with h | h
    · obtain ⟨problem, -, rfl⟩ := List.mem_map.1 h
      exact ⟨decl, List.mem_cons_self, by simp [Diagnostic.offset]⟩
    · obtain ⟨decl', hmem, hoffset⟩ := ih h
      exact ⟨decl', List.mem_cons_of_mem _ hmem, hoffset⟩

/-- The warnings of declarations that stand in order stand in order themselves. -/
theorem pairwise_offset_headerWarnings (before : List Declaration) {decls : List Declaration}
    (h : decls.Pairwise fun a b => a.span.start ≤ b.span.start) :
    (headerWarnings before decls).Pairwise fun a b => a.offset ≤ b.offset := by
  induction decls generalizing before with
  | nil => exact .nil
  | cons decl decls ih =>
    rw [List.pairwise_cons] at h
    have hhead : ∀ d ∈ (decl.headerProblems before).map (·.diagnostic decl.span),
        d.offset = decl.span.start := by
      simp [Diagnostic.offset]
    refine List.pairwise_append.2 ⟨?_, ih _ h.2, fun a ha b hb => ?_⟩
    · exact List.pairwise_of_forall_mem_list fun a ha b hb =>
        Int.le_of_eq ((hhead a ha).trans (hhead b hb).symm)
    · obtain ⟨decl', hdecl', hoffset⟩ := offset_of_mem_headerWarnings hb
      rw [hhead a ha, hoffset]
      exact h.1 decl' hdecl'

/-- The warnings of the header in a parse are those of the rules for the declarations of the tree,
in their order; a declaration that could not be read has no part in them. -/
theorem filter_concernsHeader_parse (text filename : String) (options : Options) :
    (parse text filename options).diagnostics.filter Diagnostic.concernsHeader =
      headerWarnings [] (parse text filename options).module.declarations := by
  obtain ⟨progress, t, s, hrounds, horphans, -, hresult⟩ :=
    moduleDeclarations_rounds ⟨text.toList.toArray, options⟩
  obtain ⟨calls, hrun⟩ := rounds_declarations hrounds
  have hdecls : progress.declarations.toList = calls.filterMap DeclarationCall.declaration? := by
    simpa using hrun.declarations_eq
  have hrecord : s.headerWarnings = headerWarnings [] progress.declarations.toList := by
    have hsame := headerWarnings_reportOrphans ⟨text.toList.toArray, options⟩ t
    rw [horphans] at hsame
    rw [hdecls]
    exact hsame.trans (hrun.headerWarnings_eq .nil)
  have hrow := (parse_spec text filename options).2.1.pairwise_start
  rw [parse_of_run hresult] at hrow ⊢
  show (inTextOrder s.diagnostics).filter Diagnostic.concernsHeader = _
  rw [← inTextOrder_filter, inTextOrder, Array.toList_filter]
  show s.headerWarnings.mergeSort _ = _
  rw [hrecord]
  refine List.mergeSort_of_pairwise ((pairwise_offset_headerWarnings [] ?_).imp decide_eq_true)
  simpa only [List.pairwise_map, span_ofDeclaration] using hrow

/-- The header of a module over whole runs. When the header is checked behind each of a row of
declarations, what is recorded are the warnings of the rules, each at its declaration: a clause that
is repeated (W302), the first clause of its kind behind the one that does not go with it (W301), and
a declaration behind one of a later phase (W306). Those of a parse are the warnings of the rules for
the declarations of its tree, whatever else could not be read. And no declaration is warned of its
place just when the phases never decrease. -/
theorem parse_headerWarnings :
    (∀ (decls : List Declaration) (ctx : Context) (s : State), ∃ header,
      decls.foldlM checkHeader {} ctx s =
        .ok header (s.recording (headerWarnings [] decls))) ∧
    (∀ (text filename : String) (options : Options),
      (parse text filename options).diagnostics.filter Diagnostic.concernsHeader =
        headerWarnings [] (parse text filename options).module.declarations) ∧
    ∀ decls : List Declaration,
      (∀ d ∈ headerWarnings [] decls, d.code ≠ "W306") ↔
        decls.Pairwise fun a b => a.phase.rank ≤ b.phase.rank := by
  refine ⟨fun decls ctx s => ?_, filter_concernsHeader_parse, fun decls => ?_⟩
  · obtain ⟨header, hrun, -⟩ : ∃ header, decls.foldlM checkHeader {} ctx s =
        .ok header (s.recording (headerWarnings [] decls)) ∧ header.Knows ([] ++ decls) :=
      foldlM_checkHeader .nil decls s
    exact ⟨header, hrun⟩
  · simpa using no_order_warning_iff [] decls

/-- A module that imports, extends, names itself, amends and extends again, with a declaration in
between that cannot be read. -/
example :
    (endState (moduleDeclarations
      ⟨"import \"a\"\nextends \"b\"\nmodule c\n)\namends \"d\"\nextends \"e\"".toList.toArray, {}⟩
      {})).headerWarnings.map (fun d => (d.code, d.offset)) =
      [("W306", 11), ("W306", 23), ("W301", 34), ("W306", 34), ("W302", 45), ("W306", 45)] := by
  decide +kernel

end PklSyntax
