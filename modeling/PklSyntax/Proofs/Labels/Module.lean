import PklSyntax.Proofs.Adjacency.Module
import PklSyntax.Proofs.Labels.Grammar

/-!
# Where the diagnostics of a parse point

Behind the productions, a parse reports what is wrong with the header, at the declaration that was
read; the nesting that is too deep, over the first character of the declaration that was given up;
and the doc comments that nothing has taken, where they stand. So the labels of all diagnostics lie
in the text, but for those that reach over the end of the text where the character is missing that
they would have marked.

## Main statements

* `Parser.Marks.moduleDeclarations`: reading a text leads from marked states to marked ones.
* `parse_labels`: where the labels of the diagnostics of a parse lie.
-/

namespace PklSyntax

namespace Parser

variable {ctx : Context} {s : State}

/-- Reporting at places in the text. -/
theorem forM_report_marks {α : Type} {as : List α} {problem : α → Problem} {span : α → Span}
    (h : Marked ctx s → ∀ a ∈ as, (problem a).Fits ctx.text.size (span a)) :
    (as.forM fun a => report (problem a) (span a)).MarksFrom ctx s := by
  refine .of_marked fun hs => ?_
  replace h := h hs
  induction as generalizing s with
  | nil => exact .pure ()
  | cons a as ih =>
    have hfits := h a (List.mem_cons_self ..)
    exact .report_bind (fun _ => hfits)
      (ih (hs.report hfits) fun b hb => h b (List.mem_cons_of_mem _ hb))

/-- What is wrong with a header is marked at the declaration. -/
theorem headerProblem_fits {header : Header} {decl : Declaration} {size : Nat}
    (hdecl : decl.span.Inside size) {problem : Problem} (h : problem ∈ header.problems decl) :
    problem.Fits size decl.span := by
  obtain ⟨keyword, rfl⟩ | ⟨keyword, rfl⟩ | ⟨phase, rfl⟩ := Header.problems_cases h <;>
    exact .of_inside rfl hdecl

/-- A declaration lies in the text. It may begin with a doc comment that waits for it. -/
theorem declarationRule_inside :
    Grammar.full.declarationRule.Leaves Steady ctx s fun decl _ =>
      decl.span.Inside ctx.text.size := by
  refine .of_holds fun hs => ?_
  obtain ⟨c, hc⟩ := hs.stands
  have hlead : 0 ≤ s.lead := Int.le_trans (Int.natCast_nonneg c) hc.row_pending.1
  refine leaves_of_yields (fun _ => (Grammar.places_full ctx).declarationRule)
    fun _ decl _ _ hsize h => ?_
  have hinside : (Node.ofDeclaration decl).span.Inside ctx.text.size :=
    Span.inside_of_placed (h.1.placed.mono hlead) hsize
  cases decl <;> exact hinside

namespace Marks

theorem nextDeclaration_marks {progress : Progress} (hlt : s.pos < ctx.text.size) :
    (nextDeclaration progress).MarksFrom ctx s := by
  intro hs
  have hend := Marks.marksFrom (p := Grammar.full.declarationRule) ctx s hs
  cases hrun : Grammar.full.declarationRule ctx s with
  | ok decl t =>
    rw [hrun] at hend
    have hdecl := (declarationRule_inside.of_ok hs.toSteady hrun).2
    rw [nextDeclaration_eq_of_ok progress hrun]
    exact MarksFrom.andThen (forM_report_marks fun _ _ => headerProblem_fits hdecl)
      (fun _ _ _ => .pure _) hend
  | error stop t =>
    rw [hrun] at hend
    have hkept := (Grammar.grows_full ctx).declaration_of_error hrun
    cases stop with
    | stalled =>
      rw [nextDeclaration_of_stalled hrun]
      exact hend
    | failed =>
      rw [nextDeclaration_of_failed hrun]
      exact ⟨steady_resume hs.toSteady hrun (hasError_of_failed hs.toSteady hrun), hend.docs,
        hend.fits⟩
    | tooDeep =>
      have hfits : Problem.nestingTooDeep.Fits ctx.text.size (.ofNat s.pos (s.pos + 1)) :=
        .of_inside rfl (Span.inside_ofNat (by omega) hlt)
      have hmarked := hs.report hfits
      rw [nextDeclaration_of_tooDeep hrun hkept]
      exact ⟨steady_resume hs.toSteady hrun ⟨_, Array.mem_toList_iff.2 Array.mem_push_self, rfl⟩,
        hend.docs, hmarked.fits⟩

instance declarationRound (progress : Progress) : Marks (declarationRound progress) :=
  ⟨fun _ _ => .after fun _ _ _ => .look atEnd_looks (.look limitReached_looks (.ite
    (fun _ => .pure _) fun hgo => .andThen (nextDeclaration_marks (by
      simp only [Bool.or_eq_true, decide_eq_true_eq, not_or, Nat.not_le] at hgo
      exact hgo.1)) fun _ _ _ => .pure _))⟩

/-- A doc comment that nothing has taken is marked where it stands. -/
instance reportOrphans : Marks reportOrphans := by
  refine ⟨fun ctx s => .look theOptions_looks (.ite (fun _ => ?_) fun _ => .pure ())⟩
  refine forM_report_marks fun hs doc hdoc => ?_
  obtain ⟨⟨_, i⟩, hmem, rfl⟩ := List.mem_map.1 hdoc
  obtain ⟨-, hdoc⟩ := List.mem_zipIdx' (List.mem_filter.1 hmem).1
  exact .of_inside rfl (hs.docs _ (hdoc ▸ List.getElem_mem _))

instance declarations : Marks declarations := by
  rw [declarations_eq]
  infer_instance

instance moduleDeclarations : Marks moduleDeclarations := by
  delta Parser.moduleDeclarations
  infer_instance

end Marks

end Parser

/-- The labels of all diagnostics of a parse lie in the text, with one exception: the primary label
of a problem that is marked over the character at the cursor may begin in the text, or at its end,
and end one offset behind the end. -/
theorem parse_labels (text filename : String) (options : Options) :
    ∀ d ∈ (parse text filename options).diagnostics, ∀ label ∈ d.labels,
      label.span.Inside text.length ∨
        label.isPrimary = true ∧ 0 ≤ label.span.start ∧ label.span.start ≤ text.length ∧
          label.span.stop = text.length + 1 ∧
          ∃ problem : Problem, problem.marksCursor = true ∧ d = problem.diagnostic label.span := by
  intro d hd label hlabel
  have hmarked := Parser.Marks.marksFrom (p := Parser.moduleDeclarations)
    ⟨text.toList.toArray, options⟩ {} (.initial _)
  obtain ⟨_, s, -, hrun, -⟩ := Parser.moduleDeclarations_spec ⟨text.toList.toArray, options⟩
  rw [hrun] at hmarked
  rw [parse_of_run hrun, inTextOrder] at hd
  have hsize : text.toList.toArray.size = text.length := String.length_toList
  exact hsize ▸ (hmarked.fits d (List.mem_mergeSort.1 hd)).label hlabel

/-- At the end of the text, the label of an escape that is not complete ends behind the text. -/
example :
    (parse "x = \"\\" "m" {}).diagnostics.flatMap (fun d => d.labels.map Label.span) =
      [⟨5, 7⟩, ⟨4, 5⟩] := by
  decide +kernel

end PklSyntax
