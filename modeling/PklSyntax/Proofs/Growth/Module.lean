import PklSyntax.Proofs.Growth.ClassBody
import PklSyntax.Proofs.Layout.Module

/-!
# Growth: modules

The declarations of a module are read one after the other. A *run* over them is the row of the calls
for one more declaration, each with the states before and after it and with what it came to. A
declaration that was given up leaves on record what it recorded; one that is nested too deeply
leaves only that. So the faults of a text, unless something is nested too deeply, are those of the
calls, and the declarations of its tree are those that the calls have read.

## Main definitions

* `Parser.declarationRound`: one round of the loop over the declarations.
* `DeclarationCall`, `ModuleRun`: the runs over the declarations of a text.
* `Parser.Accounts`: a parser that records one fault when it gives its construct up, and none else.

## Main statements

* `Parser.nextDeclaration_spec`: what one more declaration comes to.
* `moduleDeclarations_run`: all declarations of a text are read by a run.
* `parse_wellFormed`: the tree of any text respects the data model.
* `one_fault_for_each_loss`: each construct that is given up is accounted for by one fault.
-/

namespace PklSyntax

open PklSyntax.Parser

/-- What can be wrong with a header. -/
theorem Header.problems_cases {header : Header} {decl : Declaration} {problem : Problem}
    (h : problem ∈ header.problems decl) :
    (∃ keyword, problem = .duplicateClause keyword) ∨ (∃ keyword, problem = .conflictingClause keyword) ∨
      ∃ phase, problem = .outOfOrder phase := by
  rw [problems, List.mem_append] at h
  rcases h with h | h
  · obtain ⟨clause, -, h⟩ := Option.bind_eq_some_iff.1 (Option.mem_toList.1 h)
    rw [clauseProblem?] at h
    split at h
    · cases h
      exact .inl ⟨_, rfl⟩
    · split at h
      · cases h
        exact .inr (.inl ⟨_, rfl⟩)
      · cases h
  · have h := Option.mem_toList.1 h
    rw [orderProblem?] at h
    split at h
    · cases h
      exact .inr (.inr ⟨_, rfl⟩)
    · cases h

/-- The problems of a header are warnings. -/
theorem Header.problems_spec {header : Header} {decl : Declaration} {problem : Problem}
    (h : problem ∈ header.problems decl) (span : Span) :
    (problem.diagnostic span).isError = false ∧
      (problem.diagnostic span).isUnclosedComment = false := by
  obtain ⟨keyword, rfl⟩ | ⟨keyword, rfl⟩ | ⟨phase, rfl⟩ := problems_cases h <;> exact ⟨rfl, rfl⟩

/-- Nothing that was on record is lost when what was recorded since then is dropped. -/
theorem Kept.forget {text : Array Char} {s s' : State} (h : Kept text s s') :
    Kept text s { s' with diagnostics := s.diagnostics } where
  mode_eq := h.mode_eq
  docs := h.docs
  diagnostics := List.prefix_rfl
  pos_le := h.pos_le
  pos_le_size := h.pos_le_size
  comments := .inl rfl
  located := id

namespace Parser

variable {ctx : Context} {s s' t u v : State}

/-- What is reported of a list is recorded in its order. -/
theorem forM_report_run {α : Type} (problem : α → Problem) (span : α → Span) (as : List α)
    (ctx : Context) (s : State) :
    (as.forM fun a => report (problem a) (span a)) ctx s =
      .ok () { s with
        diagnostics := s.diagnostics ++ as.map fun a => (problem a).diagnostic (span a) } := by
  induction as generalizing s with
  | nil =>
    simp only [List.map_nil, Array.appendList_nil]
    rfl
  | cons a as ih =>
    show (report (problem a) (span a) >>= fun _ =>
      as.forM fun a => report (problem a) (span a)) ctx s = _
    rw [bind_apply]
    refine (ih { s with
      diagnostics := s.diagnostics.push ((problem a).diagnostic (span a)) }).trans ?_
    simp only [List.map_cons]
    rfl

/-- Reporting warnings always has a result. -/
theorem forM_report_eq (ctx : Context) {problems : List Problem} {span : Span} (s : State)
    (h : ∀ problem ∈ problems, (problem.diagnostic span).isError = false ∧
      (problem.diagnostic span).isUnclosedComment = false) :
    ∃ s', (problems.forM fun problem => report problem span) ctx s = .ok () s' ∧
      Grown ctx.text s s' ∧ s'.pos = s.pos := by
  induction problems generalizing s with
  | nil => exact ⟨s, rfl, .refl s, rfl⟩
  | cons problem problems ih =>
    obtain ⟨herror, hcomment⟩ := h problem (List.mem_cons_self ..)
    obtain ⟨s', hrun, hgrown, hpos⟩ :=
      ih { s with diagnostics := s.diagnostics.push (problem.diagnostic span) }
        fun problem hmem => h problem (List.mem_cons_of_mem _ hmem)
    refine ⟨s', ?_, (Grown.push herror hcomment (by simp)).trans hgrown, hpos⟩
    show (report problem span >>= fun _ => problems.forM fun problem => report problem span) ctx s = _
    rw [bind_apply]
    exact hrun

/-- The offset at which declarations go on after the one that began at `start` was given up. -/
def declarationResume (text : Array Char) (start pos : Nat) : Nat :=
  declarationRestart text (if pos ≤ start then min text.size (pos + 1) else pos)

theorem skipDeclaration_apply (start : Nat) :
    skipDeclaration start ctx s =
      .ok () { s with pos := declarationResume ctx.text start s.pos } := by
  rw [skipDeclaration, declarationResume, position_looks.bind_apply]
  split
  · rfl
  · rfl

/-- A round of the loop over the declarations. -/
def declarationRound (progress : Progress) : Parser (Round Progress Progress) := do
  skip
  if (← atEnd) || (← limitReached) then return .done progress
  else return .next (← nextDeclaration progress)

theorem declarations_eq :
    declarations = do
      let progress ← repeating declarationRound {}
      return progress.declarations.toList := rfl

/-- Going on behind a declaration that was given up loses nothing. -/
theorem kept_declarationResume {text : Array Char} (start : Nat) (s : State) :
    Kept text s { s with pos := declarationResume text start s.pos } := by
  have hspec (i) := @declarationRestart_spec text i
  rw [declarationResume]
  split
  · have := hspec (min text.size (s.pos + 1))
    exact .moveTo (by omega) (by omega)
  · have := hspec s.pos
    exact .moveTo (by omega) (by omega)

/-- Declarations go on behind the start of the one that was given up. -/
theorem lt_declarationResume {text : Array Char} {start pos : Nat} (hlt : start < text.size)
    (hle : start ≤ pos) : start < declarationResume text start pos := by
  have hspec (i) := (@declarationRestart_spec text i).1
  rw [declarationResume]
  split
  · have := hspec (min text.size (pos + 1))
    omega
  · have := hspec pos
    omega

/-- What is done behind a declaration that is read. -/
theorem nextDeclaration_eq_of_ok (progress : Progress) {decl : Declaration}
    (h : Grammar.full.declarationRule ctx u = .ok decl t) :
    nextDeclaration progress ctx u =
      (do
        (progress.header.problems decl).forM fun problem => report problem decl.span
        return ⟨progress.declarations.push decl, progress.header.add decl⟩ : Parser Progress) ctx t := by
  rw [nextDeclaration, position_looks.bind_apply, mark_looks.bind_apply, bind_apply, outcome, h]

/-- A declaration that is read is added, and only warnings are recorded of it. -/
theorem nextDeclaration_of_ok (progress : Progress) {decl : Declaration}
    (h : Grammar.full.declarationRule ctx u = .ok decl t) :
    ∃ v, nextDeclaration progress ctx u =
        .ok ⟨progress.declarations.push decl, progress.header.add decl⟩ v ∧
      Grown ctx.text t v ∧ v.pos = t.pos := by
  obtain ⟨v, hreport, hgrown, hpos⟩ := forM_report_eq ctx t
    fun problem hproblem => Header.problems_spec hproblem decl.span
  refine ⟨v, ?_, hgrown, hpos⟩
  rw [nextDeclaration_eq_of_ok progress h, bind_apply, hreport]
  rfl

/-- A declaration that is given up is left out. -/
theorem nextDeclaration_of_failed {progress : Progress}
    (h : Grammar.full.declarationRule ctx u = .error .failed t) :
    nextDeclaration progress ctx u =
      .ok progress
        { t with
          attached := u.attached
          pos := declarationResume ctx.text u.pos t.pos } := by
  rw [nextDeclaration, position_looks.bind_apply, mark_looks.bind_apply, bind_apply, outcome, h]
  show (skipDeclaration u.pos >>= fun _ => pure progress) ctx { t with attached := u.attached } = _
  rw [bind_apply, skipDeclaration_apply]
  rfl

/-- Of a declaration that is nested too deeply this is all that is recorded. -/
theorem nextDeclaration_of_tooDeep {progress : Progress}
    (h : Grammar.full.declarationRule ctx u = .error .tooDeep t) (hkept : Kept ctx.text u t) :
    nextDeclaration progress ctx u =
      .ok progress
        { t with
          attached := u.attached
          pos := declarationResume ctx.text u.pos t.pos
          diagnostics := u.diagnostics.push
            (Problem.nestingTooDeep.diagnostic (.ofNat u.pos (u.pos + 1))) } := by
  have htake : t.diagnostics.take u.diagnostics.size = u.diagnostics :=
    congrArg State.diagnostics hkept.rewind
  rw [nextDeclaration, position_looks.bind_apply, mark_looks.bind_apply, bind_apply, outcome, h]
  show (skipDeclaration u.pos >>= fun _ => pure progress) ctx
    { t with
      attached := u.attached
      diagnostics := (t.diagnostics.take u.diagnostics.size).push
        (Problem.nestingTooDeep.diagnostic (.ofNat u.pos (u.pos + 1))) } = _
  rw [htake, bind_apply, skipDeclaration_apply]
  rfl

/-- A loop that does not move would end the parse. -/
theorem nextDeclaration_of_stalled {progress : Progress}
    (h : Grammar.full.declarationRule ctx u = .error .stalled t) :
    nextDeclaration progress ctx u = .error .stalled t := by
  rw [nextDeclaration, position_looks.bind_apply, mark_looks.bind_apply, bind_apply, outcome, h]
  rfl

end Parser

/-- A call for one more declaration: the states before and after it, and what it came to. -/
structure DeclarationCall where
  before : State
  result : Except Stop Declaration
  after : State

namespace DeclarationCall

/-- The declaration, if it was read. -/
def declaration? (call : DeclarationCall) : Option Declaration := call.result.toOption

/-- The faults that were recorded during the call. -/
def recorded (call : DeclarationCall) : List Diagnostic :=
  call.after.faults.drop call.before.faults.length

end DeclarationCall

/-- A run over the declarations of a module: the calls that are made from a state on. -/
inductive ModuleRun (ctx : Context) :
    Progress → State → List DeclarationCall → Progress → State → Prop
  | done {progress : Progress} {s u : State} (hskip : s.skipTrivia ctx.text = u)
      (hdone : ctx.text.size ≤ u.pos ∨ ctx.options.limitReached u = true) :
      ModuleRun ctx progress s [] progress u
  | call {progress progress' progress'' : Progress} {s u t v s' : State}
      {result : Except Stop Declaration} {calls : List DeclarationCall}
      (hskip : s.skipTrivia ctx.text = u) (hlt : u.pos < ctx.text.size)
      (hcall : outcome Grammar.full.declarationRule ctx u = .ok result t)
      (hnext : nextDeclaration progress ctx u = .ok progress' v)
      (hrest : ModuleRun ctx progress' v calls progress'' s') :
      ModuleRun ctx progress s (⟨u, result, t⟩ :: calls) progress'' s'

namespace Parser

variable {ctx : Context} {s s' t u v : State} {progress progress' : Progress}

/-- What one more declaration comes to. -/
structure NextRead (ctx : Context) (progress : Progress) (u : State)
    (result : Except Stop Declaration) (t : State) (progress' : Progress) (v : State) : Prop where
  called : Kept ctx.text u t
  kept : Kept ctx.text u v
  lt : u.pos < v.pos
  declarations : progress'.declarations.toList =
    progress.declarations.toList ++ result.toOption.toList
  wellFormed : ∀ decl ∈ result.toOption, (Node.ofDeclaration decl).WellFormed
  faults : result ≠ .error .tooDeep → v.faults = t.faults

theorem nextDeclaration_spec {result : Except Stop Declaration} (hlt : u.pos < ctx.text.size)
    (hcall : outcome Grammar.full.declarationRule ctx u = .ok result t)
    (hnext : nextDeclaration progress ctx u = .ok progress' v) :
    NextRead ctx progress u result t progress' v := by
  have hg := Grammar.grows_full ctx
  rw [outcome] at hcall
  cases hrun : Grammar.full.declarationRule ctx u with
  | ok decl t' =>
    rw [hrun] at hcall
    cases hcall
    obtain ⟨hkept, hdecl, hadvanced⟩ := hg.declaration_of_ok hrun
    obtain ⟨v', hnext', hgrown, hpos⟩ := nextDeclaration_of_ok progress hrun
    rw [hnext'] at hnext
    cases hnext
    exact {
      called := hkept
      kept := hkept.trans hgrown.toKept
      lt := hpos ▸ hadvanced.2
      declarations := by simp [Except.toOption]
      wellFormed := by
        rintro _ ⟨⟩
        exact hdecl
      faults := fun _ => hgrown.faults }
  | error stop t' =>
    rw [hrun] at hcall
    cases hcall
    have hkept := hg.declaration_of_error hrun
    have hpos := hkept.pos_le
    have hresume := lt_declarationResume hlt (show u.pos ≤ t.pos by omega)
    cases stop with
    | failed =>
      rw [nextDeclaration_of_failed hrun] at hnext
      cases hnext
      exact {
        called := hkept
        kept := (hkept.trans .attach).trans
          (kept_declarationResume u.pos { t with attached := u.attached })
        lt := hresume
        declarations := by simp [Except.toOption]
        wellFormed := by simp [Except.toOption]
        faults := fun _ => rfl }
    | tooDeep =>
      rw [nextDeclaration_of_tooDeep hrun hkept] at hnext
      cases hnext
      have hforget : Kept ctx.text u { t with
          attached := u.attached
          diagnostics := u.diagnostics.push
            (Problem.nestingTooDeep.diagnostic (.ofNat u.pos (u.pos + 1))) } :=
        (hkept.forget.trans .attach).trans (.push rfl rfl)
      exact {
        called := hkept
        kept := hforget.trans (kept_declarationResume u.pos { t with
          attached := u.attached
          diagnostics := u.diagnostics.push
            (Problem.nestingTooDeep.diagnostic (.ofNat u.pos (u.pos + 1))) })
        lt := hresume
        declarations := by simp [Except.toOption]
        wellFormed := by simp [Except.toOption]
        faults := fun hresult => absurd rfl hresult }
    | stalled =>
      rw [nextDeclaration_of_stalled hrun] at hnext
      cases hnext

end Parser

namespace ModuleRun

variable {ctx : Context} {s s' : State} {progress progress' : Progress}
  {calls : List DeclarationCall}

/-- A run loses nothing. -/
theorem kept_state (h : ModuleRun ctx progress s calls progress' s') : Kept ctx.text s s' := by
  induction h with
  | done hskip _ => exact hskip ▸ (Grown.skipTrivia _).toKept
  | call hskip hlt hcall hnext _ ih =>
    subst hskip
    exact ((Grown.skipTrivia _).toKept.trans (nextDeclaration_spec hlt hcall hnext).kept).trans ih

/-- What a call of a run comes to. -/
theorem of_mem (h : ModuleRun ctx progress s calls progress' s') {call : DeclarationCall}
    (hcall : call ∈ calls) :
    call.before.pos < ctx.text.size ∧
      outcome Grammar.full.declarationRule ctx call.before = .ok call.result call.after ∧
      ∃ progress₁ progress₂ v, nextDeclaration progress₁ ctx call.before = .ok progress₂ v := by
  induction h with
  | done => exact absurd hcall List.not_mem_nil
  | call _ hlt hrun hnext _ ih =>
    rcases List.mem_cons.1 hcall with rfl | hcall
    · exact ⟨hlt, hrun, _, _, _, hnext⟩
    · exact ih hcall

/-- The declarations of a run are those that its calls have read, in their order. -/
theorem declarations_eq (h : ModuleRun ctx progress s calls progress' s') :
    progress'.declarations.toList =
      progress.declarations.toList ++ calls.filterMap DeclarationCall.declaration? := by
  induction h with
  | done => simp
  | call _ hlt hcall hnext _ ih =>
    rw [ih, (nextDeclaration_spec hlt hcall hnext).declarations, List.append_assoc,
      List.filterMap_cons, DeclarationCall.declaration?]
    split
    next hnone => rw [hnone]; rfl
    next hsome => rw [hsome]; rfl

theorem wellFormed (h : ModuleRun ctx progress s calls progress' s') :
    ∀ decl ∈ calls.filterMap DeclarationCall.declaration?, (Node.ofDeclaration decl).WellFormed := by
  induction h with
  | done => simp
  | call _ hlt hcall hnext _ ih =>
    intro decl hdecl
    obtain ⟨call, hmem, hdecl⟩ := List.mem_filterMap.1 hdecl
    rcases List.mem_cons.1 hmem with rfl | hmem
    · exact (nextDeclaration_spec hlt hcall hnext).wellFormed decl hdecl
    · exact ih decl (List.mem_filterMap.2 ⟨call, hmem, hdecl⟩)

/-- Unless something is nested too deeply, the faults of a run are those of its calls, in their
order. -/
theorem faults_eq (h : ModuleRun ctx progress s calls progress' s')
    (hdeep : ∀ call ∈ calls, call.result ≠ .error .tooDeep) :
    s'.faults = s.faults ++ calls.flatMap DeclarationCall.recorded := by
  induction h with
  | done hskip _ =>
    subst hskip
    simpa using (Grown.skipTrivia _).faults
  | @call _ _ _ s u t v _ result calls hskip hlt hcall hnext _ ih =>
    have hspec := nextDeclaration_spec hlt hcall hnext
    have hcalled : t.faults = u.faults ++ DeclarationCall.recorded ⟨u, result, t⟩ :=
      (List.prefix_iff_eq_append.1 (hspec.called.diagnostics.filter _)).symm
    have hu : u.faults = s.faults := hskip ▸ (Grown.skipTrivia s).faults
    rw [ih fun call hmem => hdeep call (List.mem_cons_of_mem _ hmem),
      hspec.faults (hdeep _ (List.mem_cons_self ..)), hcalled, hu, List.flatMap_cons,
      List.append_assoc]

end ModuleRun

namespace Parser

variable {ctx : Context}

/-- A parser whose ending is asked for always has one. -/
theorem exists_outcome {α : Type} (p : Parser α) (ctx : Context) (s : State) :
    ∃ result s', outcome p ctx s = .ok result s' := by
  rw [outcome]
  split
  · exact ⟨_, _, rfl⟩
  · exact ⟨_, _, rfl⟩

theorem error_of_outcome {α : Type} {p : Parser α} {ctx : Context} {s t : State} {stop : Stop}
    (h : outcome p ctx s = .ok (.error stop) t) : p ctx s = .error stop t := by
  rw [outcome] at h
  split at h
  next => cases h
  next hrun => cases h; exact hrun

/-- What a round of the loop over the declarations does from a place behind trivia. -/
theorem declarationRound_apply (progress : Progress) {s u : State}
    (hskip : s.skipTrivia ctx.text = u) :
    declarationRound progress ctx s =
      if ctx.text.size ≤ u.pos ∨ ctx.options.limitReached u = true then .ok (.done progress) u
      else
        match nextDeclaration progress ctx u with
        | .ok progress' v => .ok (.next progress') v
        | .error stop v => .error stop v := by
  have hrun : skip ctx s = .ok () u := by rw [← hskip]; rfl
  rw [declarationRound, bind_apply, hrun]
  show (atEnd >>= _) ctx u = _
  rw [atEnd_looks.bind_apply, limitReached_looks.bind_apply]
  simp only [Bool.or_eq_true, decide_eq_true_eq]
  split
  · rfl
  · rw [bind_apply]
    cases nextDeclaration progress ctx u <;> rfl

/-- The loop over the declarations is a run, when it comes to an end. The induction is on the
rounds. -/
theorem rounds_declarations {n : Nat} {progress progress' : Progress} {s s' : State}
    (h : rounds declarationRound n progress ctx s = .ok progress' s') :
    ∃ calls, ModuleRun ctx progress s calls progress' s' := by
  induction n generalizing progress s with
  | zero => cases h
  | succ n ih =>
    obtain ⟨u, hskip⟩ : ∃ u, s.skipTrivia ctx.text = u := ⟨_, rfl⟩
    rw [rounds, bind_apply, declarationRound_apply progress hskip] at h
    by_cases hdone : ctx.text.size ≤ u.pos ∨ ctx.options.limitReached u = true
    · rw [if_pos hdone] at h
      cases h
      exact ⟨[], .done hskip hdone⟩
    · rw [if_neg hdone] at h
      simp only [not_or, Nat.not_le] at hdone
      cases hnext : nextDeclaration progress ctx u with
      | error stop v => rw [hnext] at h; cases h
      | ok progress₁ v =>
        rw [hnext] at h
        obtain ⟨calls, hrest⟩ := ih h
        obtain ⟨result, t, hcall⟩ := exists_outcome Grammar.full.declarationRule ctx u
        exact ⟨_, .call hskip hdone.1 hcall hnext hrest⟩

end Parser

/-- The warnings of the doc comments that are left over, when they are asked for. -/
def State.orphanWarnings (options : Options) (s : State) : List Diagnostic :=
  if options.docCommentWarnings then
    s.orphans.map fun doc => Problem.orphanedDocComment.diagnostic doc.span
  else []

theorem State.mem_orphanWarnings {options : Options} {s : State} {d : Diagnostic}
    (h : d ∈ s.orphanWarnings options) :
    ∃ doc ∈ s.orphans, d = Problem.orphanedDocComment.diagnostic doc.span := by
  rw [orphanWarnings] at h
  split at h
  · obtain ⟨doc, hdoc, rfl⟩ := List.mem_map.1 h
    exact ⟨doc, hdoc, rfl⟩
  · cases h

namespace Parser

/-- What is left over is warned of, when that is asked for. -/
theorem reportOrphans_eq (ctx : Context) (s : State) :
    reportOrphans ctx s = .ok () { s with
      diagnostics := s.diagnostics ++ s.orphanWarnings ctx.options } := by
  rw [reportOrphans, theOptions_looks.bind_apply, State.orphanWarnings]
  cases ctx.options.docCommentWarnings with
  | false =>
    simp only [Bool.false_eq_true, if_false, Array.appendList_nil]
    rfl
  | true => exact forM_report_run (fun _ => .orphanedDocComment) DocComment.span s.orphans ctx s

/-- Orphaned doc comments are only warned of. -/
theorem reportOrphans_grows {s : State} : reportOrphans.Grows ctx s fun _ _ => True := by
  have hreports (docs : List DocComment) (s : State) :
      (docs.forM fun doc => report .orphanedDocComment doc.span).Grows ctx s fun _ _ => True := by
    induction docs generalizing s with
    | nil => exact .pure trivial
    | cons doc docs ih => exact (report_grows rfl rfl).bind fun _ s₁ _ _ => ih s₁
  refine .look theOptions_looks (.ite (fun _ => ?_) fun _ => .pure trivial)
  exact hreports s.orphans s

end Parser

/-! ### The result of a parse -/

/-- The parts of which the reading of a text consists: the loop over the declarations, and the
warnings that only the end of the text brings. -/
theorem Parser.moduleDeclarations_rounds (ctx : Context) :
    ∃ progress t s, rounds declarationRound (ctx.text.size + 1) {} ctx {} = .ok progress t ∧
      reportOrphans ctx t = .ok () s ∧ Grown ctx.text t s ∧
      moduleDeclarations ctx {} = .ok progress.declarations.toList s := by
  obtain ⟨decls, s', -, hrun, -⟩ := moduleDeclarations_spec ctx
  have hresult := hrun
  simp only [moduleDeclarations, Parser.declarations_eq, bind_assoc, pure_bind] at hrun
  rw [bind_apply] at hrun
  have hloop : repeating declarationRound {} ctx {} =
      rounds declarationRound (ctx.text.size + 1) {} ctx {} := rfl
  rw [hloop] at hrun
  cases hrounds : rounds declarationRound (ctx.text.size + 1) {} ctx {} with
  | error stop s => rw [hrounds] at hrun; cases hrun
  | ok progress t =>
    simp only [hrounds, bind_apply] at hrun
    cases horphans : reportOrphans ctx t with
    | error stop s => rw [horphans] at hrun; cases hrun
    | ok _ s =>
      rw [horphans] at hrun
      cases hrun
      exact ⟨progress, t, s', rfl, horphans, (reportOrphans_grows.of_ok horphans).1, hresult⟩

/-- All declarations of a text are read by a run. -/
theorem moduleDeclarations_run (ctx : Context) :
    ∃ calls progress s s', ModuleRun ctx {} {} calls progress s ∧ Grown ctx.text s s' ∧
      moduleDeclarations ctx {} = .ok progress.declarations.toList s' := by
  obtain ⟨progress, t, s, hrounds, -, hgrown, hrun⟩ := moduleDeclarations_rounds ctx
  obtain ⟨calls, hcalls⟩ := rounds_declarations hrounds
  exact ⟨calls, progress, t, s, hcalls, hgrown, hrun⟩

/-- Errors that are on record stay on record. -/
theorem Kept.errorCount_le {text : Array Char} {s s' : State} (h : Kept text s s') :
    s.errorCount ≤ s'.errorCount := by
  rw [State.errorCount, State.errorCount, ← Array.countP_toList, ← Array.countP_toList]
  exact h.diagnostics.sublist.countP_le

theorem Kept.limitReached {text : Array Char} {options : Options} {s s' : State}
    (h : Kept text s s') (hs : options.limitReached s = true) : options.limitReached s' = true := by
  have := h.errorCount_le
  simp only [Options.limitReached, Bool.and_eq_true, decide_eq_true_eq] at hs ⊢
  omega

namespace Parser

/-- A round of the loop over the declarations in which one more is read. -/
theorem declarationRound_of_next {ctx : Context} {progress progress' : Progress} {s u v : State}
    (hskip : s.skipTrivia ctx.text = u) (hlt : u.pos < ctx.text.size)
    (hlimit : ctx.options.limitReached u = false)
    (hnext : nextDeclaration progress ctx u = .ok progress' v) :
    declarationRound progress ctx s = .ok (.next progress') v := by
  have hgoOn : ¬(ctx.text.size ≤ u.pos ∨ ctx.options.limitReached u = true) := by
    simp [hlt, hlimit]
  rw [declarationRound_apply progress hskip, if_neg hgoOn, hnext]

/-- The round with which the loop over the declarations ends. -/
theorem declarationRound_of_done {ctx : Context} {progress : Progress} {s u : State}
    (hskip : s.skipTrivia ctx.text = u)
    (hdone : ctx.text.size ≤ u.pos ∨ ctx.options.limitReached u = true) :
    declarationRound progress ctx s = .ok (.done progress) u := by
  rw [declarationRound_apply progress hskip, if_pos hdone]

/-- What the first round of the loop over the declarations does, when the loop comes to an end: the
loop ends behind the trivia, or one more declaration is read there. -/
theorem rounds_declarationRound_cases (ctx : Context) {n : Nat} {progress progress' : Progress}
    {s s' u : State} (hskip : s.skipTrivia ctx.text = u)
    (h : rounds declarationRound (n + 1) progress ctx s = .ok progress' s') :
    (ctx.text.size ≤ u.pos ∨ ctx.options.limitReached u = true) ∧ progress' = progress ∧ s' = u ∨
      u.pos < ctx.text.size ∧ ctx.options.limitReached u = false ∧
        ∃ progress₁ v, nextDeclaration progress ctx u = .ok progress₁ v ∧
          rounds declarationRound n progress₁ ctx v = .ok progress' s' := by
  rw [rounds, bind_apply, declarationRound_apply progress hskip] at h
  by_cases hdone : ctx.text.size ≤ u.pos ∨ ctx.options.limitReached u = true
  · rw [if_pos hdone] at h
    cases h
    exact .inl ⟨hdone, rfl, rfl⟩
  · rw [if_neg hdone] at h
    simp only [not_or, Nat.not_le, Bool.not_eq_true] at hdone
    cases hnext : nextDeclaration progress ctx u with
    | error stop v => rw [hnext] at h; cases h
    | ok progress₁ v =>
      rw [hnext] at h
      exact .inr ⟨hdone.1, hdone.2, progress₁, v, rfl, h⟩

/-- The loop over the declarations only adds to them. -/
theorem prefix_of_rounds {ctx : Context} {n : Nat} {progress progress' : Progress} {s s' : State}
    (h : rounds declarationRound n progress ctx s = .ok progress' s') :
    progress.declarations.toList <+: progress'.declarations.toList ∧ Kept ctx.text s s' := by
  obtain ⟨calls, hrun⟩ := rounds_declarations h
  exact ⟨hrun.declarations_eq ▸ List.prefix_append _ _, hrun.kept_state⟩

/-- One more declaration and those behind it only add to the declarations. -/
theorem prefix_of_nextDeclaration {ctx : Context} {n : Nat} {progress progress₁ progress' : Progress}
    {s' u v : State} (hlt : u.pos < ctx.text.size)
    (hnext : nextDeclaration progress ctx u = .ok progress₁ v)
    (h : rounds declarationRound n progress₁ ctx v = .ok progress' s') :
    progress.declarations.toList <+: progress'.declarations.toList ∧ Kept ctx.text u s' := by
  obtain ⟨result, t, hcall⟩ := exists_outcome Grammar.full.declarationRule ctx u
  have hspec := nextDeclaration_spec hlt hcall hnext
  obtain ⟨hinit, hkept⟩ := prefix_of_rounds h
  refine ⟨.trans ?_ hinit, hspec.kept.trans hkept⟩
  rw [hspec.declarations]
  exact List.prefix_append _ _

end Parser

/-- The tree of any text is well-formed: every node of it conforms to the data model. -/
theorem parse_wellFormed (text filename : String) (options : Options) :
    (Node.module (parse text filename options).module).WellFormed := by
  obtain ⟨calls, progress, s, s', hrun, -, hresult⟩ :=
    moduleDeclarations_run ⟨text.toList.toArray, options⟩
  have hdecls : progress.declarations.toList = calls.filterMap DeclarationCall.declaration? := by
    simpa using hrun.declarations_eq
  have hchildren (module : Module) :
      (Node.module module).children = module.declarations.map Node.ofDeclaration := by
    simp [Node.children, Node.fields]
  rw [parse_of_run hresult, Node.wellFormed_iff, hchildren, hdecls]
  exact ⟨trivial, List.forall_mem_map.2 hrun.wellFormed⟩

/-- A run of the parser from `s` records no fault when it has a result. When it gives its construct
up, it records exactly one, as the last diagnostic. -/
def Parser.Accounts {α : Type} (p : Parser α) (ctx : Context) (s : State) : Prop :=
  ∀ s', (∀ a, p ctx s = .ok a s' → s'.faults = s.faults) ∧
    (p ctx s = .error .failed s' → ∃ fault, s'.diagnostics.back? = some fault ∧
      s'.faults = s.faults ++ [fault])

theorem Parser.Grows.accounts {α : Type} {p : Parser α} {ctx : Context} {s : State}
    {Q : α → State → Prop} (h : p.Grows ctx s Q) : p.Accounts ctx s :=
  fun _ => ⟨fun _ hrun => (h.of_ok hrun).1.faults, fun hrun => (h.of_failed hrun).exists_fault⟩

/-- The faults of a result are the faults on record, in the order of the text. -/
theorem filter_isFault_inTextOrder (s : State) :
    ((inTextOrder s.diagnostics).filter Diagnostic.isFault).Perm s.faults :=
  (List.mergeSort_perm _ _).filter _

/-- Each construct that is given up is accounted for by one fault, and no other. This holds of the
members of a class and of the declarations in which no class body is reached, from every state. A
class with a body records one fault for each member that it drops, and when it is given up, at most
one more for itself. So the faults of a text in which nothing is nested too deeply are those of the
calls for its declarations. That a comment is not closed is said at most once. -/
theorem one_fault_for_each_loss (text filename : String) (options : Options) :
    let ctx : Context := ⟨text.toList.toArray, options⟩
    let g := Grammar.full
    (∀ s, g.classMember.Accounts ctx s) ∧
      (∀ s, (∀ opening t, g.classOpening ctx s ≠ .ok (some opening) t) →
        g.declarationRule.Accounts ctx s) ∧
      (∀ s head opening t, g.classOpening ctx s = .ok (some (head, opening)) t →
        (∀ decl s', g.declarationRule ctx s = .ok decl s' → ∃ entries,
          ClassBodyRun g ctx opening t entries .closed s' ∧
            decl = .classDecl
              (head.withBody (some (entries.filterMap MemberEntry.member?, s'.pos))) ∧
            s'.faults = s.faults ++ entries.filterMap MemberEntry.fault?) ∧
        ∀ s', g.declarationRule ctx s = .error .failed s' → ∃ entries ending,
          ClassBodyRun g ctx opening t entries ending s' ∧
            s'.faults =
              s.faults ++ entries.filterMap MemberEntry.fault? ++ ending.faults opening ∧
            (ending.faults opening).length ≤ 1) ∧
      (∃ calls progress s, ModuleRun ctx {} {} calls progress s ∧
        (parse text filename options).module.declarations =
          calls.filterMap DeclarationCall.declaration? ∧
        ((∀ call ∈ calls, call.result ≠ .error .tooDeep) →
          ((parse text filename options).diagnostics.filter Diagnostic.isFault).Perm
            (calls.flatMap DeclarationCall.recorded))) ∧
      (parse text filename options).diagnostics.countP Diagnostic.isUnclosedComment ≤ 1 := by
  intro ctx g
  have hg : g.Grows ctx := Grammar.grows_full ctx
  obtain ⟨calls, progress, s, s', hrun, hgrown, hresult⟩ := moduleDeclarations_run ctx
  have hparse : parse text filename options = _ := parse_of_run hresult
  refine ⟨fun s => hg.classMember.accounts, fun s hno => (hg.declarationRule hno).accounts,
    fun s head opening t hopen => ?_, ⟨calls, progress, s, hrun, ?_, fun hdeep => ?_⟩, ?_⟩
  · have hopened := (hg.classOpening.of_ok hopen).1.faults
    have hclass := hg.classDeclaration hopen
    refine ⟨fun decl s' hdecl => ?_, fun s' hfailed => ?_⟩
    · rw [hdecl] at hclass
      obtain ⟨entries, hbody, hdecl⟩ := hclass
      refine ⟨entries, hbody, hdecl, ?_⟩
      rw [hbody.faults_eq hg, hopened, ClassBodyEnd.faults, List.append_nil]
    · rw [hfailed] at hclass
      obtain ⟨entries, ending, -, hbody⟩ := hclass
      refine ⟨entries, ending, hbody, by rw [hbody.faults_eq hg, hopened], ?_⟩
      cases ending <;> simp [ClassBodyEnd.faults]
  · rw [hparse]
    simpa using hrun.declarations_eq
  · have hfaults : s'.faults = calls.flatMap DeclarationCall.recorded := by
      rw [hgrown.faults, hrun.faults_eq hdeep]
      rfl
    rw [hparse, ← hfaults]
    exact filter_isFault_inTextOrder s'
  · have hcount : (parse text filename options).diagnostics.countP Diagnostic.isUnclosedComment =
        s'.unclosedComments := by
      rw [hparse]
      exact (List.mergeSort_perm _ _).countP_eq _
    have hnone : State.unclosedComments {} = 0 := rfl
    rcases (hrun.kept_state.trans hgrown.toKept).comments with h | h <;> omega

/-- A class with a member that is none: the run over its body drops the member for one fault, and
the class is read. -/
theorem one_fault_for_each_loss_class :
    ∃ decl s' opening t entries,
      Grammar.full.declarationRule ⟨"class A \x7b\n  )\n\x7d".toList.toArray, {}⟩ {} = .ok decl s' ∧
      ClassBodyRun Grammar.full ⟨"class A \x7b\n  )\n\x7d".toList.toArray, {}⟩ opening t entries .closed
        s' ∧
      s'.faults = entries.filterMap MemberEntry.fault? ∧ s'.faults.length = 1 := by
  obtain ⟨opening?, t, hopening, hsome⟩ := Parser.exists_of_passes Grammar.full.classOpening
    ⟨"class A \x7b\n  )\n\x7d".toList.toArray, {}⟩ {} (fun opening? _ => opening?.isSome) (by decide +kernel)
  obtain ⟨opening, rfl⟩ := Option.isSome_iff_exists.1 hsome
  obtain ⟨decl, s', hdecl, hone⟩ := Parser.exists_of_passes Grammar.full.declarationRule
    ⟨"class A \x7b\n  )\n\x7d".toList.toArray, {}⟩ {} (fun _ s' => s'.faults.length == 1) (by decide +kernel)
  obtain ⟨entries, hrun, -, hfaults⟩ :=
    ((one_fault_for_each_loss "class A \x7b\n  )\n\x7d" "class" {}).2.2.1 {} opening.1 opening.2 t
      hopening).1 decl s' hdecl
  exact ⟨decl, s', opening.2, t, entries, hdecl, hrun, hfaults, beq_iff_eq.1 hone⟩

end PklSyntax
