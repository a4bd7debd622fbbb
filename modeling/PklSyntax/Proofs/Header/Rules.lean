import PklSyntax.Proofs.Growth.Module

/-!
# The rules of a module header

What the header of a module may be is said here of the declarations as they stand one behind the
other, without a state that is carried along: a clause is not repeated, a module does not both amend
and extend, and no declaration stands behind one of a later phase. The state that is carried along,
`Header`, *knows* of the declarations before it just what these rules ask for, and so the warnings
that are recorded one after the other are those of the rules.

## Main definitions

* `Clause.rival?`: the clause that does not go with a clause.
* `Declaration.headerProblems`: the rules that a declaration behind others offends against.
* `headerWarnings`: the warnings of a row of declarations.
* `Header.Knows`: a header that is up to date.
* `Parser.checkHeader`: what is done with the header behind each declaration that is read.

## Main statements

* `Header.Knows.add`: one more declaration.
* `Header.Knows.problems_eq`: the problems that are reported are those of the rules.
* `Parser.foldlM_checkHeader`: what is recorded of a row of declarations.
* `no_order_warning_iff`: the order of the phases.
-/

namespace PklSyntax

/-! ### The rules -/

/-- The clause that does not go with a clause: a module does not both amend and extend. -/
def Clause.rival? : Clause → Option Clause
  | own => none
  | amending => some extending
  | extending => some amending

namespace Declaration

/-- The rule for clauses: one that stands before is not repeated; and when the clause is the first
of its kind, the one that does not go with it does not stand before either. -/
def clauseProblem? (decl : Declaration) (before : List Declaration) : Option Problem :=
  decl.clause?.bind fun clause =>
    if ∃ d ∈ before, d.clause? = some clause then some (.duplicateClause clause.keyword)
    else if ∃ d ∈ before, d.clause?.isSome ∧ d.clause? = clause.rival? then
      some (.conflictingClause clause.keyword)
    else none

/-- The rule for the order: no declaration of a later phase stands before. -/
def orderProblem? (decl : Declaration) (before : List Declaration) : Option Problem :=
  if ∃ d ∈ before, decl.phase.rank < d.phase.rank then some (.outOfOrder decl.phase) else none

/-- The rules that the declaration offends against behind those before it. -/
def headerProblems (decl : Declaration) (before : List Declaration) : List Problem :=
  (decl.clauseProblem? before).toList ++ (decl.orderProblem? before).toList

end Declaration

/-- The warnings of a row of declarations that stands behind others, each at the declaration that
offends against a rule. -/
def headerWarnings (before : List Declaration) : List Declaration → List Diagnostic
  | [] => []
  | decl :: decls =>
    (decl.headerProblems before).map (·.diagnostic decl.span) ++
      headerWarnings (before ++ [decl]) decls

theorem headerWarnings_append (before decls decls' : List Declaration) :
    headerWarnings before (decls ++ decls') =
      headerWarnings before decls ++ headerWarnings (before ++ decls) decls' := by
  induction decls generalizing before with
  | nil => simp [headerWarnings]
  | cons decl decls ih => simp [headerWarnings, ih, List.append_assoc]

/-! ### What a header knows -/

namespace Header

/-- The header is up to date behind the declarations: it has their clauses, and its latest phase is
the latest of theirs. -/
structure Knows (header : Header) (before : List Declaration) : Prop where
  clauses : ∀ clause, clause ∈ header.clauses ↔ ∃ d ∈ before, d.clause? = some clause
  latest : ∀ phase : HeaderPhase,
    phase.rank < header.latest.rank ↔ ∃ d ∈ before, phase.rank < d.phase.rank

variable {header : Header} {before : List Declaration}

/-- Before any declaration nothing is known. -/
theorem Knows.nil : Knows {} [] where
  clauses := by simp
  latest := fun phase => by cases phase <;> simp [HeaderPhase.rank]

/-- One more declaration is added to what is known. -/
theorem Knows.add (h : header.Knows before) (decl : Declaration) :
    (header.add decl).Knows (before ++ [decl]) where
  clauses := fun clause => by
    simp [Header.add, h.clauses, or_comm]
  latest := fun phase => by
    have hlatest := h.latest phase
    simp only [Header.add, List.mem_append, List.mem_singleton, or_and_right, exists_or,
      exists_eq_left, ← hlatest]
    split <;> omega

/-- Of the clauses that name a parent, all but the clause itself are its rivals. -/
theorem rival?_eq_some_iff {clause other : Clause} (hne : other ≠ clause) :
    clause.rival? = some other ↔ clause.namesParent = true ∧ other.namesParent = true := by
  cases clause <;> cases other <;> simp_all [Clause.rival?, Clause.namesParent]

/-- What is wrong with a clause is what the rule for clauses says. -/
theorem Knows.clauseProblem?_eq (h : header.Knows before) (decl : Declaration) :
    decl.clause?.bind header.clauseProblem? = decl.clauseProblem? before := by
  refine Option.bind_congr fun clause _ => ?_
  rw [Header.clauseProblem?]
  by_cases hsame : ∃ d ∈ before, d.clause? = some clause
  · rw [if_pos (List.contains_iff_mem.2 ((h.clauses clause).2 hsame)), if_pos hsame]
  · have hnew : clause ∉ header.clauses := fun hmem => hsame ((h.clauses clause).1 hmem)
    rw [if_neg (by simpa using hnew), if_neg hsame]
    refine if_congr ?_ rfl rfl
    simp only [Bool.and_eq_true, List.any_eq_true]
    constructor
    · rintro ⟨hparent, other, hother, hparent'⟩
      obtain ⟨d, hd, heq⟩ := (h.clauses other).1 hother
      have hne : other ≠ clause := fun heq => hnew (heq ▸ hother)
      exact ⟨d, hd, by simp [heq], heq.trans ((rival?_eq_some_iff hne).2 ⟨hparent, hparent'⟩).symm⟩
    · rintro ⟨d, hd, hsome, heq⟩
      obtain ⟨other, hother⟩ := Option.isSome_iff_exists.1 hsome
      have hmem : other ∈ header.clauses := (h.clauses other).2 ⟨d, hd, hother⟩
      have hne : other ≠ clause := fun heq => hnew (heq ▸ hmem)
      obtain ⟨hparent, hparent'⟩ := (rival?_eq_some_iff hne).1 (heq.symm.trans hother)
      exact ⟨hparent, other, hmem, hparent'⟩

/-- The problems that are reported of one more declaration are those of the rules. -/
theorem Knows.problems_eq (h : header.Knows before) (decl : Declaration) :
    header.problems decl = decl.headerProblems before := by
  have horder : header.orderProblem? decl.phase = decl.orderProblem? before :=
    if_congr (h.latest decl.phase) rfl rfl
  rw [problems, Declaration.headerProblems, h.clauseProblem?_eq, horder]

end Header

/-! ### What is recorded -/

/-- The state with more diagnostics on record. -/
def State.recording (s : State) (ds : List Diagnostic) : State :=
  { s with diagnostics := s.diagnostics ++ ds }

@[simp] theorem State.recording_nil (s : State) : s.recording [] = s := by
  simp [recording]

@[simp] theorem State.recording_recording (s : State) (ds es : List Diagnostic) :
    (s.recording ds).recording es = s.recording (ds ++ es) := by
  have hrecord : s.diagnostics ++ ds ++ es = s.diagnostics ++ (ds ++ es) := by
    apply Array.toList_inj.1
    simp
  simp only [recording, hrecord]

namespace Parser

variable {ctx : Context}

/-- Reporting several problems at one place. -/
theorem forM_report_apply (problems : List Problem) (span : Span) (s : State) :
    (problems.forM fun problem => report problem span) ctx s =
      .ok () (s.recording (problems.map (·.diagnostic span))) := by
  induction problems generalizing s with
  | nil => exact congrArg (EStateM.Result.ok ()) s.recording_nil.symm
  | cons problem problems ih =>
    have hreport : report problem span ctx s = .ok () (s.recording [problem.diagnostic span]) := by
      simp [State.recording]
      rfl
    show (report problem span >>= fun _ =>
      problems.forM fun problem => report problem span) ctx s = _
    rw [bind_apply, hreport, List.map_cons]
    exact (ih _).trans (congrArg (EStateM.Result.ok ()) (s.recording_recording _ _))

/-- What is done with the header behind each declaration that is read. -/
def checkHeader (header : Header) (decl : Declaration) : Parser Header := do
  (header.problems decl).forM fun problem => report problem decl.span
  return header.add decl

theorem checkHeader_apply (header : Header) (decl : Declaration) (s : State) :
    checkHeader header decl ctx s =
      .ok (header.add decl)
        (s.recording ((header.problems decl).map (·.diagnostic decl.span))) := by
  rw [checkHeader, bind_apply, forM_report_apply]
  rfl

/-- Behind a declaration that is read, the header is checked. -/
theorem nextDeclaration_eq_checkHeader (progress : Progress) {decl : Declaration} {t u : State}
    (h : Grammar.full.declarationRule ctx u = .ok decl t) :
    nextDeclaration progress ctx u =
      (do
        let header ← checkHeader progress.header decl
        return ⟨progress.declarations.push decl, header⟩ : Parser Progress) ctx t := by
  rw [nextDeclaration_eq_of_ok progress h, checkHeader, bind_assoc]
  rfl

/-- The header is checked behind each of a row of declarations: what is recorded are the warnings of
the rules, in the order of the declarations. The induction is on the declarations, and the header is
up to date before each of them. -/
theorem foldlM_checkHeader {header : Header} {before : List Declaration} (h : header.Knows before)
    (decls : List Declaration) (s : State) :
    ∃ header', decls.foldlM checkHeader header ctx s =
        .ok header' (s.recording (headerWarnings before decls)) ∧
      header'.Knows (before ++ decls) := by
  induction decls generalizing header before s with
  | nil =>
    exact ⟨header, congrArg (EStateM.Result.ok header) s.recording_nil.symm, by simpa using h⟩
  | cons decl decls ih =>
    obtain ⟨header', hrun, hknows⟩ := ih (h.add decl)
      (s.recording ((header.problems decl).map (·.diagnostic decl.span)))
    refine ⟨header', ?_, by simpa using hknows⟩
    rw [List.foldlM_cons, bind_apply, checkHeader_apply]
    refine hrun.trans ?_
    rw [State.recording_recording, h.problems_eq, headerWarnings]

end Parser

/-! ### The order of the phases -/

/-- Only one problem is reported under the code for the order. -/
theorem Problem.code_eq_iff_outOfOrder (problem : Problem) (span : Span) :
    (problem.diagnostic span).code = "W306" ↔ ∃ phase, problem = .outOfOrder phase := by
  cases problem <;> simp [diagnostic, errorAt, warningAt, escapeErrorAt]

/-- A declaration is warned of its place just when it stands behind one of a later phase. -/
theorem Declaration.outOfOrder_mem_headerProblems_iff (decl : Declaration)
    (before : List Declaration) :
    (∃ phase, Problem.outOfOrder phase ∈ decl.headerProblems before) ↔
      ∃ d ∈ before, decl.phase.rank < d.phase.rank := by
  have hclause (phase : HeaderPhase) :
      Problem.outOfOrder phase ∉ (decl.clauseProblem? before).toList := by
    rw [Option.mem_toList, clauseProblem?]
    rintro hmem
    obtain ⟨clause, -, hmem⟩ := Option.bind_eq_some_iff.1 hmem
    split at hmem
    · cases hmem
    · split at hmem <;> cases hmem
  simp only [headerProblems, List.mem_append, hclause, false_or, Option.mem_toList, orderProblem?]
  split <;> simp_all

/-- The declarations of a row are not warned of their place just when the phases never decrease,
from those before the row on. The induction is on the row. -/
theorem no_order_warning_iff (before decls : List Declaration) :
    (∀ d ∈ headerWarnings before decls, d.code ≠ "W306") ↔
      (∀ d ∈ before, ∀ decl ∈ decls, d.phase.rank ≤ decl.phase.rank) ∧
        decls.Pairwise fun a b => a.phase.rank ≤ b.phase.rank := by
  induction decls generalizing before with
  | nil => simp [headerWarnings]
  | cons decl decls ih =>
    have hhead :
        (∀ d ∈ (decl.headerProblems before).map (·.diagnostic decl.span), d.code ≠ "W306") ↔
        ∀ d ∈ before, d.phase.rank ≤ decl.phase.rank := by
      have hplace := not_congr (decl.outOfOrder_mem_headerProblems_iff before)
      simp only [not_exists, not_and, Nat.not_lt] at hplace
      rw [← hplace, List.forall_mem_map]
      simp only [ne_eq, Problem.code_eq_iff_outOfOrder, not_exists]
      exact ⟨fun h phase hmem => h _ hmem phase rfl,
        fun h problem hmem phase heq => h phase (heq ▸ hmem)⟩
    rw [headerWarnings, List.forall_mem_append, hhead, ih, List.pairwise_cons]
    simp only [List.forall_mem_append, List.forall_mem_cons, List.mem_singleton, forall_eq,
      forall_and]
    tauto

end PklSyntax
