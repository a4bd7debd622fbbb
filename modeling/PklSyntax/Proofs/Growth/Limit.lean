import PklSyntax.Proofs.Growth.Module
import PklSyntax.Proofs.Options.Sieve

/-!
# The limit on errors

The limit on errors is looked at in front of each declaration, and behind each member of a class
that was given up. From one such place to the next at most one construct is given up, and so the
faults never outnumber the limit. An error of another kind is not counted on the way: that a comment
is not closed is recorded with the trivia in which the comment begins, and those may stand behind
the place at which the limit was reached. It is recorded once at most, so that there is one error
more than the limit at most.

## Main statements

* `ClassBodyRun.faults_le`: within the body of a class.
* `Parser.faults_le_of_nextDeclaration`: from one declaration to the next.
* `parse_errorCount_le`: the errors of a parse.
-/

namespace PklSyntax

open PklSyntax.Parser

variable {ctx : Context} {text : Array Char} {s s' t u v : State}

/-- The limit on errors leaves room for the faults on record. -/
def Options.HasRoom (options : Options) (s : State) : Prop :=
  (s.faults.length : Int) < options.maxErrors

/-- The faults on record do not outnumber the limit on errors. -/
def Options.Bears (options : Options) (s : State) : Prop :=
  (s.faults.length : Int) ≤ options.maxErrors

/-- A fault is an error. -/
theorem State.length_faults_le (s : State) : s.faults.length ≤ s.errorCount := by
  rw [faults, errorCount, ← List.countP_eq_length_filter, ← Array.countP_toList]
  refine List.countP_mono_left fun d _ hd => ?_
  rw [Diagnostic.isFault, Bool.and_eq_true] at hd
  exact hd.1

/-- An error is a fault, or it says that a comment is not closed. -/
theorem Diagnostic.errorCount_le (ds : List Diagnostic) :
    errorCount ds ≤ ds.countP isFault + ds.countP isUnclosedComment := by
  rw [errorCount]
  induction ds with
  | nil => simp
  | cons d ds ih =>
    by_cases herror : d.isError = true <;> by_cases hcomment : d.isUnclosedComment = true <;>
      simp [isFault, herror, hcomment] <;> omega

/-- Before the limit is reached there is room for a fault. -/
theorem Options.hasRoom_of_limitReached {options : Options} (hpos : 0 < options.maxErrors)
    (h : options.limitReached s = false) : options.HasRoom s := by
  have := s.length_faults_le
  simp only [limitReached, hpos, decide_true, Bool.true_and, decide_eq_false_iff_not] at h
  rw [HasRoom]
  omega

/-- A construct that is given up takes the room that there is. -/
theorem GivenUp.bears {options : Options} (h : GivenUp text s s') (hroom : options.HasRoom s) :
    options.Bears s' := by
  obtain ⟨fault, -, hfaults⟩ := h.exists_fault
  rw [Options.HasRoom] at hroom
  rw [Options.Bears, hfaults, List.length_append, List.length_singleton]
  omega

/-- Where no fault is recorded there is as much room as before. -/
theorem Grown.hasRoom {options : Options} (h : Grown text s s') (hroom : options.HasRoom s) :
    options.HasRoom s' := by
  rwa [Options.HasRoom, h.faults]

theorem Options.HasRoom.bears {options : Options} (h : options.HasRoom s) : options.Bears s :=
  Int.le_of_lt h

/-- Reporting a fault takes the room that there is. -/
theorem Options.HasRoom.push {options : Options} {problem : Problem} {span : Span}
    (h : options.HasRoom s) (hfault : (problem.diagnostic span).isFault = true) :
    options.Bears { s with diagnostics := s.diagnostics.push (problem.diagnostic span) } :=
  have hgiven : GivenUp #[] s
      { s with diagnostics := s.diagnostics.push (problem.diagnostic span) } :=
    ⟨s, _, .refl s, hfault, by simp, rfl⟩
  hgiven.bears h

/-! ### Bodies of classes -/

/-- A run over the body of a class stops when there is no more room. The induction is on the run:
the limit is looked at behind each member that is dropped. -/
theorem ClassBodyRun.bears {g : Grammar} {opening : Span} {entries : List MemberEntry}
    {ending : ClassBodyEnd} (hg : g.Grows ctx) (hpos : 0 < ctx.options.maxErrors)
    (h : ClassBodyRun g ctx opening s entries ending s') (hroom : ctx.options.HasRoom s) :
    ctx.options.Bears s' := by
  induction h with
  | closed hskip _ _ =>
    subst hskip
    exact ((Grown.skipTrivia _).hasRoom hroom).bears
  | unclosed hskip _ =>
    subst hskip
    exact ((Grown.skipTrivia _).hasRoom hroom).push rfl
  | limit hskip _ hrun _ _ =>
    subst hskip
    exact (hg.classMember.of_failed hrun).bears ((Grown.skipTrivia _).hasRoom hroom)
  | dropped _ _ _ _ hlimit _ ih => exact ih (Options.hasRoom_of_limitReached hpos hlimit)
  | kept hskip _ hrun _ ih =>
    subst hskip
    exact ih ((hg.classMember.of_ok hrun).1.hasRoom ((Grown.skipTrivia _).hasRoom hroom))

/-! ### Declarations -/

namespace Grammar

variable {g : Grammar}

/-- A declaration that is read has recorded no more faults than there was room for. -/
theorem Grows.bears_of_ok (hg : g.Grows ctx) (hpos : 0 < ctx.options.maxErrors)
    (hroom : ctx.options.HasRoom s) {decl : Declaration}
    (h : g.declarationRule ctx s = .ok decl s') :
    ctx.options.Bears s' := by
  by_cases hopen : ∃ opening t, g.classOpening ctx s = .ok (some opening) t
  · obtain ⟨⟨head, opening⟩, t, hopen⟩ := hopen
    have hclass := hg.classDeclaration hopen
    rw [h] at hclass
    obtain ⟨entries, hrun, -⟩ := hclass
    exact hrun.bears hg hpos ((hg.classOpening.of_ok hopen).1.hasRoom hroom)
  · exact (((hg.declarationRule fun opening t ht => hopen ⟨opening, t, ht⟩).of_ok h).1.hasRoom
      hroom).bears

/-- Neither has one that is given up. -/
theorem Grows.bears_of_failed (hg : g.Grows ctx) (hpos : 0 < ctx.options.maxErrors)
    (hroom : ctx.options.HasRoom s) (h : g.declarationRule ctx s = .error .failed s') :
    ctx.options.Bears s' := by
  by_cases hopen : ∃ opening t, g.classOpening ctx s = .ok (some opening) t
  · obtain ⟨⟨head, opening⟩, t, hopen⟩ := hopen
    have hclass := hg.classDeclaration hopen
    rw [h] at hclass
    obtain ⟨entries, ending, -, hrun⟩ := hclass
    exact hrun.bears hg hpos ((hg.classOpening.of_ok hopen).1.hasRoom hroom)
  · exact ((hg.declarationRule fun opening t ht => hopen ⟨opening, t, ht⟩).of_failed h).bears hroom

end Grammar

namespace Parser

/-- One more declaration, read where there is room. -/
theorem bears_of_nextDeclaration {progress progress' : Progress} (hpos : 0 < ctx.options.maxErrors)
    (hroom : ctx.options.HasRoom u) (h : nextDeclaration progress ctx u = .ok progress' v) :
    ctx.options.Bears v := by
  have hg := Grammar.grows_full ctx
  cases hrun : Grammar.full.declarationRule ctx u with
  | ok decl t =>
    obtain ⟨v', hnext, hgrown, -⟩ := nextDeclaration_of_ok progress hrun
    rw [hnext] at h
    cases h
    rw [Options.Bears, hgrown.faults]
    exact hg.bears_of_ok hpos hroom hrun
  | error stop t =>
    cases stop with
    | failed =>
      rw [nextDeclaration_of_failed hrun] at h
      cases h
      have hbears : ctx.options.Bears t := hg.bears_of_failed hpos hroom hrun
      exact hbears
    | tooDeep =>
      rw [nextDeclaration_of_tooDeep hrun (hg.declaration_of_error hrun)] at h
      cases h
      have hfault :
          (Problem.nestingTooDeep.diagnostic (.ofNat u.pos (u.pos + 1))).isFault = true := rfl
      exact hroom.push hfault
    | stalled =>
      rw [nextDeclaration_of_stalled hrun] at h
      cases h

/-- The loop over the declarations ends when there is no more room. The induction is on the rounds.
-/
theorem bears_of_rounds {n : Nat} {progress progress' : Progress} (hpos : 0 < ctx.options.maxErrors)
    (hs : ctx.options.Bears s) (h : rounds declarationRound n progress ctx s = .ok progress' s') :
    ctx.options.Bears s' := by
  induction n generalizing progress s with
  | zero => cases h
  | succ n ih =>
    rcases rounds_declarationRound_cases ctx rfl h with
      ⟨-, -, rfl⟩ | ⟨-, hlimit, progress₁, v, hnext, hrest⟩
    · rwa [Options.Bears, (Grown.skipTrivia s : Grown ctx.text _ _).faults]
    · exact ih (bears_of_nextDeclaration hpos (Options.hasRoom_of_limitReached hpos hlimit) hnext)
        hrest

end Parser

/-- With a limit on errors, the constructs that are given up do not outnumber it, and there is at
most one error besides: that a comment is not closed. -/
theorem parse_errorCount_le (text filename : String) (options : Options)
    (hpos : 0 < options.maxErrors) :
    let ds := (parse text filename options).diagnostics
    (ds.countP Diagnostic.isFault : Int) ≤ options.maxErrors ∧
      ds.countP Diagnostic.isUnclosedComment ≤ 1 ∧
      (Diagnostic.errorCount ds : Int) ≤ options.maxErrors + 1 := by
  intro ds
  obtain ⟨progress, t, s, hrounds, -, hgrown, hresult⟩ :=
    moduleDeclarations_rounds ⟨text.toList.toArray, options⟩
  obtain ⟨calls, hrun⟩ := rounds_declarations hrounds
  have hds : ds.Perm s.diagnostics.toList := by
    show (parse text filename options).diagnostics.Perm _
    rw [parse_of_run hresult]
    exact List.mergeSort_perm _ _
  have hfaults : (ds.countP Diagnostic.isFault : Int) ≤ options.maxErrors := by
    have hempty : options.Bears {} := Int.le_of_lt hpos
    have hbears := bears_of_rounds hpos hempty hrounds
    rwa [Options.Bears, ← hgrown.faults, State.faults, ← List.countP_eq_length_filter,
      ← hds.countP_eq] at hbears
  have hcomments : ds.countP Diagnostic.isUnclosedComment ≤ 1 := by
    have hnone : State.unclosedComments {} = 0 := rfl
    have hcount : ds.countP Diagnostic.isUnclosedComment = s.unclosedComments := hds.countP_eq _
    rcases (hrun.kept_state.trans hgrown.toKept).comments with h | h <;> omega
  have herrors := Diagnostic.errorCount_le ds
  exact ⟨hfaults, hcomments, by omega⟩

/-- The one error more: a comment begins where the limit has been reached. -/
example :
    (endState (moduleDeclarations ⟨")\n/*".toList.toArray, { maxErrors := 1 }⟩ {})).errorCount =
      2 := by
  decide +kernel

end PklSyntax
