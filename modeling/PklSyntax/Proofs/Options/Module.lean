import PklSyntax.Proofs.Options.Production
import PklSyntax.Proofs.Growth.Module

/-!
# Other options: modules

The number of errors is looked at in two places, behind each member of a class that was given up and
in front of each declaration. There the first reading may find that it has errors enough when the
second one has not, and from then on the two are no longer in step: the first one *halts*. All that it
still does is to drop the class, if it stands in one, and to go to the end. The second one goes on,
and nothing that was on record is lost except when a declaration turns out to be nested too deeply.

## Main definitions

* `Sieve.Halts`: the first reading has errors enough, the second one has not.
* `Sieve.SiftsOrHalts`: two runs that correspond, unless the first reading halts.
* `Sieve.Exceeds`: more is on record than the first reading could bear.

## Main statements

* `Grammar.Sifts.classRounds`, `Grammar.Sifts.declarationRule`: bodies of classes and declarations.
* `Sieve.rounds_declarations`: the loop over the declarations, in step or ahead.
* `Sieve.moduleDeclarations_sifted`: what the two readings of a text come to.
-/

namespace PklSyntax

open PklSyntax.Parser

namespace Sieve

variable {α β : Type} {W : Sieve} {s s' t u : State}

/-- The first reading has errors enough in a state in which the second one has not. -/
structure Halts (W : Sieve) (t : State) : Prop where
  reported : t.Reported
  first : W.first.limitReached t = true
  second : W.second.limitReached (t.sifted W.keep) = false

/-- The runs of the parser correspond; or the first reading gives it up because it has errors enough,
and what is on record then stays on record in the second reading. -/
def SiftsOrHalts (W : Sieve) (p : Parser α) (s : State) : Prop :=
  s.Reported → W.SiftsAt p p s ∨ ∃ t, p W.front s = .error .failed t ∧ W.Halts t ∧
    Kept W.text (t.sifted W.keep) (endState (p W.behind (s.sifted W.keep)))

/-! ### The number of errors -/

/-- The second reading allows no fewer errors. -/
theorem limitReached_of_second (W : Sieve) (hs : s.Reported)
    (h : W.second.limitReached (s.sifted W.keep) = true) : W.first.limitReached s = true := by
  simp only [Options.limitReached, Bool.and_eq_true, decide_eq_true_eq, W.errorCount_sifted hs] at h ⊢
  have := W.maxErrors h.1
  omega

/-- When both readings allow as many errors, neither outruns the other. -/
theorem not_halts (heq : W.second.maxErrors = W.first.maxErrors) : ¬ W.Halts t := by
  intro h
  have hfirst := h.first
  have hsecond := h.second
  rw [Options.limitReached, W.errorCount_sifted h.reported, heq] at hsecond
  rw [Options.limitReached, hsecond] at hfirst
  cases hfirst

end Sieve

namespace Sieve.SiftsOrHalts

variable {α β : Type} {W : Sieve} {s : State} {p q : Parser α} {f : α → Parser β}

theorem of_sifts (hp : p.Sifts W) : W.SiftsOrHalts p s := fun _ => .inl (hp s)

/-- Behind a part in which the readings do not differ. -/
theorem bind (hp : W.SiftsAt p p s)
    (hf : ∀ a s', p W.front s = .ok a s' → W.SiftsOrHalts (f a) s') :
    W.SiftsOrHalts (p >>= f) s := by
  intro hs
  obtain ⟨hbehind, hreported⟩ := hp hs
  cases hrun : p W.front s with
  | error stop s' =>
    refine .inl (hp.bind fun a s' h => ?_)
    rw [hrun] at h
    cases h
  | ok a s' =>
    rw [hrun] at hbehind hreported
    rcases hf a s' hrun hreported with hsifts | ⟨t, hfailed, hhalts, hkept⟩
    · refine .inl (hp.bind fun a s' h => ?_)
      rw [hrun] at h
      cases h
      exact hsifts
    · refine .inr ⟨t, ?_, hhalts, ?_⟩
      · rw [bind_apply, hrun]
        exact hfailed
      · rw [bind_apply, hbehind]
        exact hkept

/-- Behind a part in which the first reading may halt: the second one loses nothing when it goes
on. -/
theorem andThen (hp : W.SiftsOrHalts p s)
    (hkept : ∀ a u, Kept W.text u (endState (f a W.behind u)))
    (hf : ∀ a s', W.SiftsOrHalts (f a) s') : W.SiftsOrHalts (p >>= f) s := by
  intro hs
  rcases hp hs with hsifts | ⟨t, hfailed, hhalts, hkept'⟩
  · exact bind hsifts (fun a s' _ => hf a s') hs
  · refine .inr ⟨t, by rw [bind_apply, hfailed], hhalts, ?_⟩
    rw [bind_apply]
    cases hrun : p W.behind (s.sifted W.keep) with
    | ok a u =>
      rw [hrun] at hkept'
      exact hkept'.trans (hkept a u)
    | error stop u =>
      rw [hrun] at hkept'
      exact hkept'

/-- Steps behind which nothing changes any more. -/
theorem idle (hp : W.SiftsOrHalts p s) (hidle : ∀ a, Idle (f a)) (hf : ∀ a, (f a).Sifts W) :
    W.SiftsOrHalts (p >>= f) s := by
  refine hp.andThen (fun a u => ?_) fun a _ => of_sifts (hf a)
  obtain ⟨b, hb⟩ := hidle a W.behind u
  rw [hb]
  exact .refl u

theorem ite {b : Bool} {p q : Parser α} (hp : W.SiftsOrHalts p s) (hq : W.SiftsOrHalts q s) :
    W.SiftsOrHalts (if b = true then p else q) s := by
  cases b with
  | true => exact hp
  | false => exact hq

end Sieve.SiftsOrHalts

/-! ### Bodies of classes -/

namespace Grammar

variable {g : Grammar} {W : Sieve} {opening : Span}

/-- The loop over the members of a class loses nothing. -/
theorem Grows.kept_classRounds {ctx : Context} (hg : g.Grows ctx) (n : Nat)
    (members : Array ClassMember) (s : State) :
    Kept ctx.text s (endState (rounds (g.classRound opening) n members ctx s)) := by
  have hrun := hg.classRounds opening n members s
  cases hend : rounds (g.classRound opening) n members ctx s with
  | ok result s' =>
    rw [hend] at hrun
    obtain ⟨entries, hrun, -⟩ := hrun
    exact hrun.kept_state hg
  | error stop s' =>
    rw [hend] at hrun
    cases stop with
    | failed =>
      obtain ⟨entries, ending, -, hrun⟩ := hrun
      exact hrun.kept_state hg
    | tooDeep => exact hrun
    | stalled => exact hrun

theorem skipMember_sifts (start : Nat) : (skipMember start).Sifts W :=
  theText_sifts.bind fun _ => position_sifts.bind fun _ => moveTo_sifts _

/-- What is done behind a member that was given up. -/
theorem memberDropped_siftsOrHalts (start : Nat) (members : Array ClassMember) (s : State) :
    W.SiftsOrHalts (do
      if ← limitReached then throw .failed
      skipMember start
      return Round.next members : Parser (Round (Array ClassMember) (Array ClassMember))) s := by
  intro hs
  have hgoOn : (skipMember start >>= fun _ => pure (Round.next members) :
      Parser (Round (Array ClassMember) (Array ClassMember))).Sifts W :=
    (skipMember_sifts start).bind fun _ => .pure _
  cases hsecond : W.second.limitReached (s.sifted W.keep) with
  | true =>
    have hfirst := W.limitReached_of_second hs hsecond
    refine .inl fun _ => ?_
    rw [limitReached_looks.bind_apply, limitReached_looks.bind_apply, hfirst, hsecond]
    exact ⟨rfl, hs⟩
  | false =>
    cases hfirst : W.first.limitReached s with
    | false =>
      refine .inl fun _ => ?_
      rw [limitReached_looks.bind_apply, limitReached_looks.bind_apply, hfirst, hsecond]
      exact hgoOn s hs
    | true =>
      refine .inr ⟨s, ?_, ⟨hs, hfirst, hsecond⟩, ?_⟩
      · rw [limitReached_looks.bind_apply, hfirst]
        rfl
      · rw [limitReached_looks.bind_apply, hsecond]
        exact (kept_memberResume start : Kept W.behind.text _ _)

theorem Sifts.classRound (hg : g.Sifts W) (members : Array ClassMember) (s : State) :
    W.SiftsOrHalts (g.classRound opening members) s := by
  refine .bind (skip_sifts s) fun _ s₁ _ => .bind (atEnd_sifts s₁) fun atEnd s₂ _ => .ite
    (.of_sifts (failWith_bind_sifts rfl _)) (.bind (peek_sifts s₂) fun c s₃ _ => .ite
      (.of_sifts ((advance_sifts 1).bind fun _ => .pure _)) (.bind (position_sifts s₃)
        fun start s₄ _ => .bind (hg.classMember.attempt s₄) fun member? s₅ _ => ?_))
  cases member? with
  | some member => exact .of_sifts (.pure _)
  | none => exact memberDropped_siftsOrHalts start members s₅

/-- The induction is on the rounds. -/
theorem Sifts.classRounds (hg : g.Sifts W) (hbehind : g.Grows W.behind) (n : Nat)
    (members : Array ClassMember) (s : State) :
    W.SiftsOrHalts (rounds (g.classRound opening) n members) s := by
  induction n generalizing members s with
  | zero => exact .of_sifts (.throw .stalled)
  | succ n ih =>
    refine (hg.classRound members s).andThen (fun round u => ?_) fun round s' => ?_
    · cases round with
      | next members => exact hbehind.kept_classRounds n members u
      | done members => exact .refl u
    · cases round with
      | next members => exact ih members s'
      | done members => exact .of_sifts (.pure members)

theorem Sifts.classBody (hg : g.Sifts W) (hbehind : g.Grows W.behind) (s : State) :
    W.SiftsOrHalts g.classBody s := by
  rw [classBody_eq]
  refine .bind (expect_sifts "\x7b" s) fun opening s₁ _ => .idle ?_
    (fun _ => position_looks.idle.bind fun _ => .pure _) fun _ => position_sifts.bind fun _ => .pure _
  exact .bind (theText_sifts s₁) fun _ s₂ _ => .bind (position_sifts s₂) fun _ s₃ _ =>
    hg.classRounds hbehind _ _ s₃

/-! ### Declarations -/

theorem Sifts.classRule (hg : g.Sifts W) (hbehind : g.Grows W.behind) (before : Preamble) (s : State) :
    W.SiftsOrHalts (g.classRule before) s := by
  rw [classRule_eq]
  refine .bind (hg.classHead before s) fun head s₁ _ => .bind (atToken_sifts "\x7b" s₁)
    fun found s₂ _ => .ite ?_ (.of_sifts (Parser.Sifts.bind (.pure none) fun _ => .pure _))
  exact .idle (.idle (hg.classBody hbehind s₂) (fun _ => .pure _) fun _ => .pure _)
    (fun _ => .pure _) fun _ => .pure _

/-- A declaration of a module: only in the body of a class may the first reading halt. -/
theorem Sifts.declarationRule (hg : g.Sifts W) (hbehind : g.Grows W.behind) (s : State) :
    W.SiftsOrHalts g.declarationRule s := by
  refine .bind (hg.preamble s) fun before s₁ _ => ?_
  refine .bind (atWord_sifts "module" s₁) fun _ s₂ _ => .ite
    (.of_sifts ((moduleClauseRule_sifts before).bind fun _ => .pure _)) ?_
  refine .bind (atWord_sifts "import" s₂) fun _ s₃ _ => .ite
    (.of_sifts ((hg.importRule before).bind fun _ => .pure _)) ?_
  refine .bind (atWord_sifts "extends" s₃) fun _ s₄ _ => .ite
    (.of_sifts ((hg.extendsRule before).bind fun _ => .pure _)) ?_
  refine .bind (atWord_sifts "amends" s₄) fun _ s₅ _ => .ite
    (.of_sifts ((hg.amendsRule before).bind fun _ => .pure _)) ?_
  refine .bind (atWord_sifts "typealias" s₅) fun _ s₆ _ => .ite
    (.of_sifts ((hg.typeAliasRule before).bind fun _ => .pure _)) ?_
  refine .bind (atWord_sifts "class" s₆) fun _ s₇ _ => .ite
    (.idle (hg.classRule hbehind before s₇) (fun _ => .pure _) fun _ => .pure _) ?_
  refine .bind (atWord_sifts "function" s₇) fun _ s₈ _ => .ite
    (.of_sifts ((hg.functionRule before).bind fun _ => .pure _)) ?_
  exact .of_sifts (atIdentifier_sifts.bind fun _ => .ite
    ((hg.propertyRule before).bind fun _ => .pure _) failDeclaration_sifts)

end Grammar

/-! ### The loop over the declarations -/

/-- What is wrong with the header of a module is reported under all options. -/
theorem Header.asksFor_problems {header : Header} {decl : Declaration} {problem : Problem}
    (h : problem ∈ header.problems decl) (options : Options) : options.asksFor problem = true := by
  obtain ⟨keyword, rfl⟩ | ⟨keyword, rfl⟩ | ⟨phase, rfl⟩ := problems_cases h <;> rfl

namespace Parser

variable {W : Sieve} {s t u : State}

theorem forM_report_sifts {problems : List Problem} (span : Span)
    (h : ∀ problem ∈ problems, W.second.asksFor problem = true) :
    (problems.forM fun problem => report problem span).Sifts W := by
  induction problems with
  | nil => exact .pure ()
  | cons problem problems ih =>
    rw [List.forall_mem_cons] at h
    exact (report_sifts h.1 span).bind fun _ => ih h.2

/-- One more declaration, when both readings read it in the same way. -/
theorem nextDeclaration_siftsAt (progress : Progress)
    (h : W.SiftsAt Grammar.full.declarationRule Grammar.full.declarationRule u) :
    W.SiftsAt (nextDeclaration progress) (nextDeclaration progress) u := by
  intro hu
  obtain ⟨hbehind, hreported⟩ := h hu
  cases hfront : Grammar.full.declarationRule W.front u with
  | ok decl t =>
    rw [hfront] at hbehind hreported
    rw [nextDeclaration_eq_of_ok progress hbehind, nextDeclaration_eq_of_ok progress hfront]
    have hproblems : ∀ problem ∈ progress.header.problems decl, W.second.asksFor problem = true :=
      fun problem hproblem => Header.asksFor_problems hproblem W.second
    exact ((forM_report_sifts decl.span hproblems).bind fun _ => .pure _) t hreported
  | error stop t =>
    rw [hfront] at hbehind hreported
    cases stop with
    | failed =>
      rw [nextDeclaration_of_failed hfront, nextDeclaration_of_failed hbehind]
      exact ⟨rfl, hreported⟩
    | tooDeep =>
      have hkept := (Grammar.grows_full W.front).declaration_of_error hfront
      have hkept' := (Grammar.grows_full W.behind).declaration_of_error hbehind
      rw [nextDeclaration_of_tooDeep hfront hkept, nextDeclaration_of_tooDeep hbehind hkept']
      refine ⟨?_, hu.push _ _⟩
      have hrecord := congrArg State.diagnostics
        (u.sifted_push (W.keep_of_asksFor .nestingTooDeep (.ofNat u.pos (u.pos + 1)) rfl))
      simp only [Sieve.ending, State.sifted] at hrecord ⊢
      rw [hrecord]
    | stalled =>
      rw [nextDeclaration_of_stalled hfront, nextDeclaration_of_stalled hbehind]
      exact ⟨rfl, hreported⟩

/-- When there are errors enough, no declaration is added any more. -/
theorem rounds_of_limitReached {ctx : Context} {n : Nat} {progress progress' : Progress} {s s' : State}
    (hlimit : ctx.options.limitReached s = true)
    (h : rounds declarationRound n progress ctx s = .ok progress' s') : progress' = progress := by
  cases n with
  | zero => cases h
  | succ n =>
    have hskip := (Grown.skipTrivia s : Grown ctx.text _ _).toKept.limitReached hlimit
    rcases rounds_declarationRound_cases ctx rfl h with ⟨-, heq, -⟩ | ⟨-, hlimit, -⟩
    · exact heq
    · rw [hskip] at hlimit
      cases hlimit

end Parser

namespace Sieve

variable {W : Sieve} {s s' t u v : State} {progress progress' : Progress}

/-- There are more errors on record than the first reading can bear, or a declaration is nested too
deeply, of which no other error is reported. -/
def Exceeds (W : Sieve) (s : State) : Prop :=
  W.first.limitReached s = true ∨ ∃ span, Problem.nestingTooDeep.diagnostic span ∈ s.diagnostics

theorem Exceeds.kept (h : W.Exceeds s) (hkept : Kept W.text s s') : W.Exceeds s' := by
  rcases h with h | ⟨span, h⟩
  · exact .inl (hkept.limitReached h)
  · exact .inr ⟨span, Array.mem_toList_iff.1 (hkept.diagnostics.subset (Array.mem_toList_iff.2 h))⟩

/-- Where the first reading has halted, more is on record than it can bear. -/
theorem Halts.exceeds (h : W.Halts t) : W.Exceeds (t.sifted W.keep) := by
  have hfirst := h.first
  rw [Options.limitReached, ← W.errorCount_sifted h.reported] at hfirst
  exact .inl hfirst

/-- One more declaration in the second reading, behind a place where the first one has halted. -/
theorem exceeds_nextDeclaration
    (hkept : Kept W.text (t.sifted W.keep)
      (endState (Grammar.full.declarationRule W.behind u)))
    (hhalts : W.Halts t) (hnext : nextDeclaration progress W.behind u = .ok progress' v) :
    W.Exceeds v := by
  cases hrun : Grammar.full.declarationRule W.behind u with
  | ok decl t' =>
    rw [hrun] at hkept
    obtain ⟨v', hnext', hgrown, -⟩ := nextDeclaration_of_ok progress hrun
    rw [hnext'] at hnext
    cases hnext
    exact hhalts.exceeds.kept (hkept.trans hgrown.toKept)
  | error stop t' =>
    rw [hrun] at hkept
    cases stop with
    | failed =>
      rw [nextDeclaration_of_failed hrun] at hnext
      cases hnext
      have hexceeds : W.Exceeds t' := hhalts.exceeds.kept hkept
      exact hexceeds
    | tooDeep =>
      rw [nextDeclaration_of_tooDeep hrun ((Grammar.grows_full W.behind).declaration_of_error hrun)]
        at hnext
      cases hnext
      exact .inr ⟨_, Array.mem_push_self⟩
    | stalled =>
      rw [nextDeclaration_of_stalled hrun] at hnext
      cases hnext

/-- How the declarations of the two readings compare when the second one outruns the first. -/
structure Outruns (W : Sieve) (first second : List Declaration) (s : State) : Prop where
  halts : ∃ t, W.Halts t
  declarations : first <+: second
  exceeds : W.Exceeds s

/-- The two readings are in step over all declarations, or the second one outruns the first. The
induction is on the rounds of the first reading. -/
theorem rounds_declarations {n m : Nat} {progress progress₁ progress₂ : Progress} {s s₁ s₂ : State}
    (hs : s.Reported)
    (h₁ : rounds declarationRound n progress W.front s = .ok progress₁ s₁)
    (h₂ : rounds declarationRound m progress W.behind (s.sifted W.keep) = .ok progress₂ s₂) :
    (progress₂ = progress₁ ∧ s₂ = s₁.sifted W.keep ∧ s₁.Reported) ∨
      W.Outruns progress₁.declarations.toList progress₂.declarations.toList s₂ := by
  induction n generalizing m progress s with
  | zero => cases h₁
  | succ n ih =>
    cases m with
    | zero => cases h₂
    | succ m =>
      obtain ⟨u, hskip⟩ : ∃ u, s.skipTrivia W.text = u := ⟨_, rfl⟩
      have hu : u.Reported := hskip ▸ hs.skipTrivia W W.text
      have hskip₂ : (s.sifted W.keep).skipTrivia W.text = u.sifted W.keep := by
        rw [s.sifted_skipTrivia W, hskip]
      rcases rounds_declarationRound_cases W.behind hskip₂ h₂ with
        ⟨hdone₂, rfl, rfl⟩ | ⟨hlt, hlimit₂, progress₂', v₂, hnext₂, hrest₂⟩
      · -- The second reading is done, and so is the first one.
        have hdone₁ := hdone₂.imp_right (W.limitReached_of_second hu)
        rcases rounds_declarationRound_cases W.front hskip h₁ with
          ⟨-, rfl, rfl⟩ | ⟨hlt, hlimit₁, -⟩
        · exact .inl ⟨rfl, rfl, hu⟩
        · rcases hdone₁ with hend | hlimit
          · exact absurd hlt (Nat.not_lt.2 hend)
          · rw [hlimit₁] at hlimit
            cases hlimit
      · obtain ⟨hrun₂, hkept₂⟩ := prefix_of_nextDeclaration hlt hnext₂ hrest₂
        rcases rounds_declarationRound_cases W.front hskip h₁ with
          ⟨hdone₁, rfl, rfl⟩ | ⟨-, hlimit₁, progress₁', v₁, hnext₁, hrest₁⟩
        · -- The first reading halts in front of a declaration.
          have hhalts : W.Halts s₁ :=
            ⟨hu, hdone₁.resolve_left (Nat.not_le.2 hlt), hlimit₂⟩
          exact .inr ⟨⟨s₁, hhalts⟩, hrun₂, hhalts.exceeds.kept hkept₂⟩
        · rcases (Grammar.sifts_full W).declarationRule (Grammar.grows_full W.behind) u hu with
            hsifts | ⟨t, hfailed, hhalts, hkept⟩
          · obtain ⟨hbehind, hreported⟩ := nextDeclaration_siftsAt progress hsifts hu
            rw [hnext₁] at hbehind hreported
            rw [hnext₂] at hbehind
            cases hbehind
            exact ih hreported hrest₁ hrest₂
          · -- The first reading halts in the body of a class.
            rw [nextDeclaration_of_failed hfailed] at hnext₁
            cases hnext₁
            have hdone : progress₁ = progress := rounds_of_limitReached
              (s := { t with
                attached := u.attached
                pos := declarationResume W.text u.pos t.pos }) hhalts.first hrest₁
            rw [hdone]
            exact .inr ⟨⟨t, hhalts⟩, hrun₂, (exceeds_nextDeclaration hkept hhalts hnext₂).kept
              (prefix_of_rounds hrest₂).2⟩

/-- Orphaned doc comments are warned of in either reading, if it asks for that. -/
theorem reportOrphans_sifts : reportOrphans.Sifts W := by
  intro s
  have hleftOut (docs : List DocComment) (s : State)
      (hfirst : W.first.asksFor .orphanedDocComment = true)
      (hsecond : W.second.asksFor .orphanedDocComment = false) :
      W.SiftsAt (docs.forM fun doc => report .orphanedDocComment doc.span) (pure ()) s := by
    induction docs generalizing s with
    | nil => exact .pure ()
    | cons doc docs ih =>
      intro hs
      have hkeep := (W.keep_diagnostic .orphanedDocComment doc.span hfirst).trans hsecond
      have hrest := ih _ (hs.push .orphanedDocComment doc.span)
      rw [s.sifted_push_of_left_out hkeep] at hrest
      exact hrest
  have hasked (docs : List DocComment) (hsecond : W.second.asksFor .orphanedDocComment = true) :
      (docs.forM fun doc => report .orphanedDocComment doc.span).Sifts W := by
    induction docs with
    | nil => exact .pure ()
    | cons doc docs ih => exact (report_sifts hsecond doc.span).bind fun _ => ih
  refine .options ?_
  cases hsecond : W.second.docCommentWarnings with
  | true =>
    have hfirst : W.first.docCommentWarnings = true := W.asksFor .orphanedDocComment hsecond
    rw [hfirst]
    exact hasked s.orphans hsecond s
  | false =>
    cases hfirst : W.first.docCommentWarnings with
    | true => exact hleftOut s.orphans s hfirst hsecond
    | false => exact .pure ()

/-- What the two readings of a text come to: they are in step up to the end, or the second one
outruns the first. -/
theorem moduleDeclarations_sifted (W : Sieve) :
    ∃ decls₁ s₁ decls₂ s₂, moduleDeclarations W.front {} = .ok decls₁ s₁ ∧
      moduleDeclarations W.behind {} = .ok decls₂ s₂ ∧
      (decls₂ = decls₁ ∧ s₂ = s₁.sifted W.keep ∧ s₁.Reported ∨ W.Outruns decls₁ decls₂ s₂) := by
  obtain ⟨progress₁, t₁, s₁, hloop₁, horphans₁, hgrown₁, hrun₁⟩ := moduleDeclarations_rounds W.front
  obtain ⟨progress₂, t₂, s₂, hloop₂, horphans₂, hgrown₂, hrun₂⟩ := moduleDeclarations_rounds W.behind
  refine ⟨_, s₁, _, s₂, hrun₁, hrun₂, ?_⟩
  have hempty : State.Reported {} := by simp [State.Reported]
  rcases rounds_declarations hempty hloop₁ hloop₂ with ⟨rfl, rfl, hreported⟩ | houtruns
  · obtain ⟨hbehind, hreported⟩ := reportOrphans_sifts t₁ hreported
    rw [horphans₁] at hbehind hreported
    rw [horphans₂] at hbehind
    cases hbehind
    exact .inl ⟨rfl, rfl, hreported⟩
  · exact .inr ⟨houtruns.halts, houtruns.declarations, houtruns.exceeds.kept hgrown₂.toKept⟩

end Sieve

end PklSyntax
