import PklSyntax.Proofs.Adjacency.Module
import PklSyntax.Proofs.Moving.Round

/-!
# Documentation of the members of classes

Between the head of a class and the brace that opens its body stand only trivia and the signs that
enclose type parameters. Behind the brace the members are read in a run, in which a member may be
given up. Then an error is on record, and stays there; so without errors each member is documented
from where the one in front of it ended.

A text without errors is read by a row of declarations, each where the one in front of it has ended,
so that the doc comment of each is the last one among the trivia between the two. The members of
classes and of objects are documented in the same way, from the brace on that opens the body.

Classes and objects differ in this. An object without a closing brace is given up, whereas a class
goes on behind a member that is given up: what stands in front of the next one is then no item, and
so the members of classes are documented only where there are no errors.

## Main definitions

* `HeadEnds`: the head of a class ends in front of the cursor.

## Main statements

* `Grammar.typeParameters_ends`: where the cursor stands behind type parameters.
* `ClassBodyRun.listed`: the members that a run without errors reads.
* `Grammar.declarationRule_documented`: the members of a class are documented.
* `PlainRun.listed`: the declarations of a text without errors are documented.
* `PlainRun.classDocumented`: and so are the members of the classes among them.
* `parse_documented`: both of these, with the members of objects.
-/

namespace PklSyntax

open PklSyntax.Parser

variable {text : Array Char} {ctx : Context} {s s' : State} {c : Nat}

/-! ### Behind the head of a class -/

/-- Up to the cursor there are only trivia, and perhaps signs that enclose type parameters, behind
the offset at which something ends. -/
def HeadEnds (text : Array Char) (stop : Int) (pos : Nat) : Prop :=
  ∃ i j : Nat, stop = i ∧ Listed text ['<', '>'] i [] j ∧ TriviaTo text j pos

namespace HeadEnds

variable {stop : Int} {pos pos' : Nat}

theorem of_stop (h : stop = pos) : HeadEnds text stop pos := ⟨pos, pos, h, .nil, .refl pos⟩

theorem skip (h : HeadEnds text stop pos) (hskip : TriviaTo text pos pos') :
    HeadEnds text stop pos' := by
  obtain ⟨i, j, hstop, hsigns, htrivia⟩ := h
  exact ⟨i, j, hstop, hsigns, htrivia.trans hskip⟩

/-- A sign at the cursor is passed over. -/
theorem sign (h : HeadEnds text stop pos) (hsign : charAt text pos ∈ ['<', '>']) :
    HeadEnds text stop (pos + 1) := by
  obtain ⟨i, j, hstop, hsigns, htrivia⟩ := h
  have hlt : pos < text.size := by
    refine lt_size_of_charAt_ne fun hnul => ?_
    rw [hnul] at hsign
    exact absurd hsign (by decide)
  exact ⟨i, pos + 1, hstop, .sign hsigns (htrivia.run hlt) hsign, .refl _⟩

end HeadEnds

theorem TypeExpr.EndsBefore.headEnds {type : TypeExpr} {pos : Nat}
    (h : type.EndsBefore text pos) : HeadEnds text type.span.stop pos := by
  obtain ⟨i, hstop, htrivia⟩ := h
  exact ⟨i, i, hstop, .nil, htrivia⟩

namespace Parser

/-- What is known of a steady state in any mode is known in loose mode. -/
theorem Leaves.loose {α : Type} {p : Parser α} [Keeps SteadyLoose p] {P : α → State → Prop}
    (hp : p.Leaves Steady ctx s P) : p.Leaves SteadyLoose ctx s P where
  of_ok hs hrun := ⟨Keeps.of_ok hs hrun, (hp.of_ok hs.toSteady hrun).2⟩

instance (problem : Problem) (span : Span) : Keeps SteadyLoose (report problem span) where
  of_ok hs hrun := by
    cases hrun
    exact ⟨hs.toSteady.report _, hs.mode_eq⟩
  of_error _ hrun := by cases hrun

end Parser

namespace Grammar

variable {g : Grammar}

/-- The cursor stands behind the last one of the type parameters that were read. -/
def LastEnds (text : Array Char) (params : Array TypeParameter) (pos : Nat) : Prop :=
  ∃ last, params.toList.getLast? = some last ∧ HeadEnds text last.span.stop pos

section Heads

variable [g.Upkept] (hg : g.Joins ctx)

include hg

theorem typeParameter_ends :
    g.typeParameter.Leaves SteadyLoose ctx s fun param s' =>
      HeadEnds ctx.text param.span.stop s'.pos :=
  .after fun _ _ => .after fun _ _ => .after fun _ s₁ =>
    (hg.typeBefore s₁).loose.bind fun _ _ htype => .pure htype.2.headEnds

/-- Type parameters that are separated by commas. -/
theorem moreParameters_ends {first : TypeParameter}
    (hfirst : HeadEnds ctx.text first.span.stop s.pos) :
    (repeating (fun (parameters : Array TypeParameter) => do
      if ← accept "," then return .next (parameters.push (← g.typeParameter))
      else return .done parameters) #[first]).Leaves SteadyLoose ctx s fun params s' =>
        LastEnds ctx.text params s'.pos := by
  apply Leaves.repeating (fun params s' => LastEnds ctx.text params s'.pos) ⟨first, rfl, hfirst⟩
  rintro params s₁ ⟨last, hlast, hends⟩
  apply (accept_at (by decide)).under.bind
  intro found s₂ htrivia
  apply Leaves.ite
  · intro _
    apply (typeParameter_ends hg).bind
    intro param s₃ hparam
    exact .pure ⟨param, by simp, hparam⟩
  · intro hnot
    exact .pure ⟨last, hlast, hends.skip (htrivia (by simpa using hnot))⟩

/-- Behind type parameters, of which there may be none, and the signs that enclose them. -/
theorem typeParameters_ends {stop : Int} (hstop : stop = s.pos) :
    (g.typeParameters stop).Leaves SteadyLoose ctx s fun result s' =>
      HeadEnds ctx.text (result.1.getLast?.elim stop fun param => param.span.stop) s'.pos := by
  apply (accept?_at (by decide)).under.bind
  rintro opening? s₁ ⟨i, htrivia, hpos⟩
  have hends : HeadEnds ctx.text stop i := (HeadEnds.of_stop hstop).skip htrivia
  cases opening? with
  | none =>
    obtain rfl : s₁.pos = i := hpos
    exact .pure hends
  | some opening =>
    obtain ⟨hmatch, -, hpos⟩ := hpos
    have hsign : charAt ctx.text i = '<' := charAt_of_matchesAt (n := 0) hmatch (by decide)
    apply (accept?_at (by decide)).under.bind
    rintro close? s₂ ⟨j, htrivia, hpos'⟩
    cases close? with
    | some close =>
      obtain ⟨hmatch, -, hpos'⟩ := hpos'
      have hsign' : charAt ctx.text j = '>' := charAt_of_matchesAt (n := 0) hmatch (by decide)
      rw [hpos] at htrivia
      apply (report_leaves _ _).under.bind
      intro _ s₃ hpos''
      apply Leaves.pure
      rw [hpos'', hpos']
      exact ((hends.sign (by simp [hsign])).skip htrivia).sign (by simp [hsign'])
    | none =>
      apply (typeParameter_ends hg).bind
      intro first s₃ hfirst
      apply (moreParameters_ends hg hfirst).bind
      rintro params s₄ ⟨last, hlast, hends⟩
      apply (expect_at (by decide)).under.bind
      rintro close s₅ ⟨k, htrivia, hmatch, -, hpos⟩
      have hsign : charAt ctx.text k = '>' := charAt_of_matchesAt (n := 0) hmatch (by decide)
      apply Leaves.pure
      rw [hlast, hpos]
      exact (hends.skip htrivia).sign (by simp [hsign])

/-- Behind a class up to its body. -/
theorem classHead_ends {before : Preamble} :
    (g.classHead before).Leaves SteadyLoose ctx s fun head s' =>
      HeadEnds ctx.text (head.withBody none).headStop s'.pos := by
  refine .after fun _ _ => expectName_leaves.under.bind fun name s₁ hname => ?_
  apply (typeParameters_ends hg hname).bind
  intro result s₂ hends
  apply acceptKeyword_at.under.bind
  intro found s₃ htrivia
  refine .branch (P := fun parent? s' => HeadEnds ctx.text ((parent?.map TypeExpr.span).elim
    ((result.1.getLast?.map TypeParameter.span).elim name.span.stop Span.stop) Span.stop) s'.pos)
    ?_ ?_ fun _ _ hends => .pure hends
  · intro _
    apply Leaves.map
    exact (hg.typeBefore s₃).loose.mono fun _ _ htype => htype.2.headEnds
  · intro hnot
    apply Leaves.pure
    rw [Option.map_none, Option.elim_none, Option.elim_map]
    exact hends.skip (htrivia (by simpa using hnot))

end Heads

/-! ### Members of classes -/

section Members

variable [g.Upkept] (hg : g.Mirrored (.self ctx))

include hg

theorem classMember_ends :
    g.classMember.Leaves SteadyLoose ctx s fun member s' =>
      EndsItem ctx.text member.span s' := by
  refine .after fun before s₁ => .look (atWord_looks _) (.ite (fun hword => ?_) fun _ => ?_)
  · exact (functionRule_ends hg hword).bind fun _ _ hends => .pure hends
  · refine .look atIdentifier_looks (.ite (fun _ => ?_) fun _ => failExpected_leaves)
    exact (propertyRule_ends hg).bind fun _ _ hends => .pure hends

/-- A member of a class. -/
theorem classMember_read (hnone : triviaAt? ctx.text s.pos = none) :
    g.classMember.Leaves SteadyLoose ctx s fun member s' =>
      MemberRead ctx.text s (some member.documentable) member.span s' := by
  apply ((classMember_readAt hnone).under.and (classMember_ends hg)).mono
  rintro member s' ⟨hread, hends⟩
  exact ⟨by simpa using hread, hends⟩

end Members

end Grammar

/-- A fault is an error. -/
theorem State.hasError_of_mem_faults {d : Diagnostic} (h : d ∈ s.faults) : s.HasError := by
  rw [faults, List.mem_filter, Diagnostic.isFault, Bool.and_eq_true] at h
  exact ⟨d, h.1, h.2.1⟩

section Bodies

variable {g : Grammar} [g.Upkept] (hg : g.Mirrored (.self ctx)) (hgrows : g.Grows ctx)

include hg hgrows

/-- The members that a run without errors reads are documented. -/
theorem ClassBodyRun.listed {opening : Span} {entries : List MemberEntry} {ending : ClassBodyEnd}
    (h : ClassBodyRun g ctx opening s entries ending s') (hs : SteadyLoose ctx s)
    (hc : Between ctx.text s c) (herror : ¬ s'.HasError) :
    ∃ hi, Listed ctx.text [] c ((entries.filterMap MemberEntry.member?).map fun member =>
      (some member.documentable, member.span)) hi := by
  induction h generalizing c with
  | closed => exact ⟨c, .nil⟩
  | unclosed => exact ⟨c, .nil⟩
  | limit => exact ⟨c, .nil⟩
  | @dropped s u t s' fault entries ending hskip hat hrun hfault hlimit hrest =>
    have hfaults := (ClassBodyRun.dropped hskip hat hrun hfault hlimit hrest).faults_eq hgrows
    have hmem : fault ∈ s'.faults := by
      rw [hfaults]
      simp
    exact absurd (State.hasError_of_mem_faults hmem) herror
  | @kept s u t s' member entries ending hskip hat hrun hrest ih =>
    subst hskip
    have hu : SteadyLoose ctx (s.skipTrivia ctx.text) :=
      ⟨hs.toSteady.skipTrivia, hc.skipTrivia.1.mode_eq⟩
    obtain ⟨ht, hread⟩ := (Grammar.classMember_read hg hc.noTrivia).of_ok hu hrun
    obtain ⟨c₁, hc₁, hstop⟩ := hread.ends
    obtain ⟨hi, hitems⟩ := ih ht hc₁ herror
    refine ⟨hi, .cons (fun item hitem => ?_) hstop hitems⟩
    exact hc.documented hat.1 (hread.readAt item hitem)

namespace Grammar

/-- The members of a class without errors are documented behind its head. -/
theorem classBody_documented {stop : Int} (hhead : HeadEnds ctx.text stop s.pos) :
    g.classBody.Leaves SteadyLoose ctx s fun body s' =>
      ¬ s'.HasError → DocumentedBehind ctx.text stop body.1 := by
  have : Parser.Upkept g.classBody := ⟨fun U => (Upkept.upholds U).classBody⟩
  apply Leaves.of_run
  intro hs body s' hrun herror
  obtain ⟨opening, s₁, entries, hopening, hentries, rfl⟩ := hgrows.classBody_of_ok hrun
  have hs₁ : SteadyLoose ctx s₁ := Keeps.of_ok hs hopening
  obtain ⟨-, i, htrivia, hbrace, -, hpos, hstands⟩ :=
    openingBrace_leaves.of_ok hs.toSteady hopening
  obtain ⟨hi, hitems⟩ := hentries.listed hg hgrows hs₁ (hs₁.between hstands hpos) herror
  obtain ⟨lo, j, hstop, hsigns, hskip⟩ := hhead.skip htrivia
  have hsize : i < ctx.text.size := lt_size_of_charAt_ne (by rw [hbrace]; decide)
  exact ⟨lo, j, i, hi, hstop, hsigns, hskip.run hsize, hbrace, hitems⟩

theorem classRule_documented (hjoins : g.Joins ctx) {before : Preamble} :
    (g.classRule before).Leaves SteadyLoose ctx s fun decl s' =>
      ¬ s'.HasError → decl.Documented ctx.text := by
  rw [classRule_eq]
  apply (classHead_ends hjoins).bind
  intro head s₁ hends
  apply (atToken_leaves _).under.bind
  rintro found s₂ ⟨htrivia, -⟩
  refine .branch (P := fun body? s' => ¬ s'.HasError →
    ∀ body ∈ body?, DocumentedBehind ctx.text (head.withBody none).headStop body.1) ?_ ?_ ?_
  · intro _
    apply Leaves.map
    apply (classBody_documented hg hgrows (hends.skip htrivia)).mono
    intro body s' hbody herror
    simpa using hbody herror
  · exact fun _ => .pure (by simp)
  · intro body? s₃ hbody
    apply Leaves.pure
    intro herror members hmembers
    obtain ⟨body, hmem, rfl⟩ := Option.map_eq_some_iff.1 hmembers
    exact hbody herror body hmem

end Grammar

end Bodies

namespace Grammar

variable {g : Grammar}

/-- A declaration that is a class has been read by the rule for classes. -/
theorem declarationRule_class :
    g.declarationRule.Leaves Anywhere ctx s fun decl s' =>
      ∀ decl', decl = .classDecl decl' → ∃ before s₁, g.preamble ctx s = .ok before s₁ ∧
        g.classRule before ctx s₁ = .ok decl' s' := by
  apply Leaves.bind (.of_run fun _ _ _ hrun => hrun)
  intro before s₁ hbefore
  have hclass {β : Type} {word : String} {rule : Parser β} {build : β → Declaration}
      {otherwise : Parser Declaration} {Q : Declaration → State → Prop}
      (hrule : rule.Leaves Anywhere ctx s₁ fun b s' => Q (build b) s')
      (hotherwise : otherwise.Leaves Anywhere ctx s₁ Q) :
      (do if ← atWord word then return build (← rule) else otherwise).Leaves Anywhere ctx s₁ Q :=
    .look (atWord_looks word) (.ite (fun _ => hrule.bind fun b s' hb => .pure hb)
      fun _ => hotherwise)
  have hother {β : Type} {rule : Parser β} {build : β → Declaration}
      (hbuild : ∀ b decl', build b ≠ .classDecl decl') :
      rule.Leaves Anywhere ctx s₁ fun b s' => ∀ decl', build b = .classDecl decl' →
        ∃ before s₁, g.preamble ctx s = .ok before s₁ ∧ g.classRule before ctx s₁ = .ok decl' s' :=
    .of_run fun _ b _ _ decl' heq => absurd heq (hbuild b decl')
  refine hclass (hother fun _ _ => nofun) ?_
  refine hclass (hother fun _ _ => nofun) ?_
  refine hclass (hother fun _ _ => nofun) ?_
  refine hclass (hother fun _ _ => nofun) ?_
  refine hclass (hother fun _ _ => nofun) ?_
  refine hclass (.of_run fun _ decl s₂ hrun => ?_) (hclass (hother fun _ _ => nofun) ?_)
  · rintro _ ⟨⟩
    exact ⟨before, s₁, hbefore, hrun⟩
  · refine .look atIdentifier_looks (.ite (fun _ => .after fun decl _ => .pure ?_)
      fun _ => failDeclaration_leaves)
    rintro _ ⟨⟩

/-- The members of a class that is declared without errors are documented. -/
theorem declarationRule_documented [g.Upkept] (hg : g.Mirrored (.self ctx)) (hgrows : g.Grows ctx)
    (hjoins : g.Joins ctx) :
    g.declarationRule.Leaves SteadyLoose ctx s fun decl s' =>
      ¬ s'.HasError → ∀ decl', decl = .classDecl decl' → decl'.Documented ctx.text := by
  apply Leaves.of_run
  intro hs decl s' hrun herror decl' heq
  obtain ⟨before, s₁, hbefore, hclass⟩ := (declarationRule_class.of_ok trivial hrun).2 decl' heq
  have hs₁ : SteadyLoose ctx s₁ := Keeps.of_ok hs hbefore
  exact ((classRule_documented hg hgrows hjoins).of_ok hs₁ hclass).2 herror

end Grammar

/-! ### Texts without errors -/

variable {e : Nat} {decls : List Declaration}

namespace PlainRun

theorem between (h : PlainRun ctx s c decls e) : Between ctx.text s c := by
  cases h <;> assumption

/-- The declarations are documented, each from where the one in front of it ended. -/
theorem listed (h : PlainRun ctx s c decls e) :
    Listed ctx.text [] c (decls.map fun decl => (some decl.documentable, decl.span)) e := by
  induction h with
  | done => exact .nil
  | @read s t c c' e decl decls ds hs hclosed hrun hread _ _ _ ih =>
    have hitem : decl.documentable.ReadAt ctx.text (s.skipTrivia ctx.text) :=
      ((Grammar.declarationRule_readAt hs.noTrivia).of_ok trivial hrun).2
    have hsize : (s.skipTrivia ctx.text).pos < ctx.text.size :=
      Nat.lt_of_lt_of_le hread.lt hread.passes.onward.stands.le_size
    refine .cons ?_ (by rw [hread.span_eq]) ih
    rintro _ ⟨⟩
    exact hs.documented hsize hitem

/-- The members of the classes among the declarations are documented. -/
theorem classDocumented (h : PlainRun ctx s c decls e) (hs : Steady ctx s) {decl' : ClassDecl}
    (hmem : .classDecl decl' ∈ decls) : decl'.Documented ctx.text := by
  induction h with
  | done => cases hmem
  | @read s t c c' e decl decls ds hs₀ _ hrun _ herror _ hrest ih =>
    have hs' : SteadyLoose ctx (s.skipTrivia ctx.text) := ⟨hs.skipTrivia, hs₀.skipTrivia.1.mode_eq⟩
    obtain ⟨ht, hdecl⟩ := (Grammar.declarationRule_documented (Grammar.mirrored_full _)
      (Grammar.grows_full ctx) (Grammar.joins_nested _ ctx)).of_ok hs' hrun
    rcases List.mem_cons.1 hmem with heq | hmem
    · exact hdecl herror decl' heq.symm
    · exact ih ⟨⟨_, hrest.between.stands⟩, ht.docs_le⟩ hmem

end PlainRun

/-- In a text without errors the declarations, the members of classes, and the properties and
functions among the members of objects are documented: each has the last doc comment of the trivia
in front of it, and none where there is none among them. What a doc comment says are the lines of
its block, as `TriviaItems` has it. -/
theorem parse_documented (text filename : String) (options : Options)
    (h : (parse text filename options).hasErrors = false) :
    let source := text.toList.toArray
    let result := (parse text filename options).module
    (∃ stop, Listed source [] 0
      (result.declarations.map fun decl => (some decl.documentable, decl.span)) stop) ∧
    (∀ decl, .classDecl decl ∈ result.declarations → decl.Documented source) ∧
    ∀ body, .objectBody body ∈ (Node.module result).walk → body.Documented source := by
  intro source result
  obtain ⟨progress, s, hrounds, hdecls, herrors⟩ := parse_of_rounds text filename options
  have herror : ¬ s.HasError := by
    rwa [ParseResult.hasErrors_eq_false, herrors, sortedByOffset_eq_nil, State.errors_eq_nil] at h
  obtain ⟨decls, e, heq, hplain⟩ := exists_plainRun (Between.initial _) hrounds herror
  obtain rfl : result.declarations = decls := hdecls.trans heq
  exact ⟨⟨e, hplain.listed⟩, fun _ hmem => hplain.classDocumented (.initial _) hmem,
    fun _ hmem => parse_wellJoined text filename options _ hmem⟩

/-- Of two blocks in front of a class the last one documents it, and of its two members the doc
comment documents the one behind it. -/
theorem parse_documented_blocks :
    let result := parse "/// A\n\n/// B\n  ///C\nclass D // E\n\x7b x: F\n /// G\n y: H \x7d" "m" {}
    result.hasErrors = false ∧
      (result.module.declarations.map fun decl => decl.documentable.doc.map DocComment.text) =
        [some "B\nC"] ∧
      ∀ decl, .classDecl decl ∈ result.module.declarations → decl.Documented
        "/// A\n\n/// B\n  ///C\nclass D // E\n\x7b x: F\n /// G\n y: H \x7d".toList.toArray := by
  have herrors : (parse "/// A\n\n/// B\n  ///C\nclass D // E\n\x7b x: F\n /// G\n y: H \x7d" "m"
      {}).hasErrors = false := by decide +kernel
  exact ⟨herrors, by decide +kernel, (parse_documented _ "m" {} herrors).2.1⟩

end PklSyntax
