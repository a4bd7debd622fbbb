import PklSyntax.Proofs.LineEnding.Source

/-!
# Other line endings: modules

When a member of a class or a declaration is given up, reading goes on at the beginning of a line, and
what was skipped is not the same in both texts. But then an error is on record, and it stays there. So
the two readings are compared as far as the first one ends without an error: then no member and no
declaration has been given up, and the second reading comes to the same place.

## Main definitions

* `LineFeeds.FollowsErrorFree`: runs that correspond when the first one ends without an error.
* `Progress.placed`: the declarations read so far, at their new places.

## Main statements

* `Grammar.Follows.classBody`, `Grammar.Follows.declarationRule`: classes and declarations.
* `Parser.rounds_sources`: the sources of declarations that are read without an error.
* `LineFeeds.nextDeclaration_follows`: one more declaration.
* `LineFeeds.rounds_declarations`: the loop over the declarations.
-/

namespace PklSyntax

open PklSyntax.Parser

namespace LineFeeds

/-- When the run of `p` from `s` has a result and no error is on record then, the run of `q` in the
text with other line endings comes to the same place, where `f` gives the result. -/
def FollowsErrorFree {α β : Type} (W : LineFeeds) (f : α → β) (p : Parser α) (q : Parser β)
    (s : State) : Prop :=
  ∀ a s', p W.front s = .ok a s' → s'.errorCount = 0 →
    q W.behind (W.moved s) = .ok (f a) (W.moved s')

end LineFeeds

namespace LineFeeds.FollowsErrorFree

variable {α β γ δ σ τ : Type} {W : LineFeeds} {s : State} {f : α → β} {g : γ → δ} {p : Parser α}
  {q : Parser β} {k : α → Parser γ} {k' : β → Parser δ}

theorem of_follows (h : W.FollowsAt f p q s) : W.FollowsErrorFree f p q s := by
  intro a s' hrun _
  rw [FollowsAt, hrun] at h
  exact h

/-- Behind a part that follows in any case. -/
theorem bind (hp : W.FollowsAt f p q s)
    (hk : ∀ a s', p W.front s = .ok a s' → W.FollowsErrorFree g (k a) (k' (f a)) s') :
    W.FollowsErrorFree g (p >>= k) (q >>= k') s := by
  intro c t hrun herrors
  rw [bind_apply] at hrun ⊢
  cases hfirst : p W.front s with
  | error stop s' => rw [hfirst] at hrun; cases hrun
  | ok a s' =>
    rw [hfirst] at hrun
    rw [FollowsAt, hfirst] at hp
    rw [hp]
    exact hk a s' hfirst c t hrun herrors

/-- Behind a part that follows without errors: what comes behind it has to lose none. -/
theorem andThen (hp : W.FollowsErrorFree f p q s)
    (hkept : ∀ a s' c t, k a W.front s' = .ok c t → s'.errorCount ≤ t.errorCount)
    (hk : ∀ a s', W.FollowsErrorFree g (k a) (k' (f a)) s') :
    W.FollowsErrorFree g (p >>= k) (q >>= k') s := by
  intro c t hrun herrors
  rw [bind_apply] at hrun ⊢
  cases hfirst : p W.front s with
  | error stop s' => rw [hfirst] at hrun; cases hrun
  | ok a s' =>
    rw [hfirst] at hrun
    have hle := hkept a s' c t hrun
    rw [hp a s' hfirst (by omega)]
    exact hk a s' c t hrun herrors

theorem ite {b b' : Bool} {p' : Parser α} {q' : Parser β} (hb : b' = b)
    (hp : b = true → W.FollowsErrorFree f p q s) (hq : b = false → W.FollowsErrorFree f p' q' s) :
    W.FollowsErrorFree f (if b = true then p else p') (if b' = true then q else q') s := by
  subst hb
  cases b' with
  | true => exact hp rfl
  | false => exact hq rfl

/-- The rule for looking at the text. -/
theorem look {v : Context → State → α} {v' : Context → State → β} {b : β} (hp : Looks p v)
    (hq : Looks q v') (hv : v' W.behind (W.moved s) = b)
    (hk : W.FollowsErrorFree g (k (v W.front s)) (k' b) s) :
    W.FollowsErrorFree g (p >>= k) (q >>= k') s := by
  rw [FollowsErrorFree, hp.bind_apply, hq.bind_apply, hv]
  exact hk

theorem atWord {k : Bool → Parser γ} {k' : Bool → Parser δ} {word : String} (hword : InLine word)
    (hk : W.FollowsErrorFree g (k (wordAt W.text word s.pos)) (k' (wordAt W.text word s.pos)) s) :
    W.FollowsErrorFree g (Parser.atWord word >>= k) (Parser.atWord word >>= k') s :=
  .look (atWord_looks word) (atWord_looks word) (wordAt_place hword s.pos) hk

/-- A construct is tried; when it is given up, an error stays on record. -/
theorem attempt {k : Option α → Parser γ} {k' : Option β → Parser δ} (hp : W.FollowsAt f p q s)
    (hnone : ∀ s' c t, p W.front s = .error .failed s' → k none W.front s' = .ok c t → 0 < t.errorCount)
    (hsome : ∀ a s', p W.front s = .ok a s' →
      W.FollowsErrorFree g (k (some a)) (k' (some (f a))) s') :
    W.FollowsErrorFree g (Parser.attempt p >>= k) (Parser.attempt q >>= k') s := by
  intro c t hrun herrors
  rw [bind_apply, Parser.attempt] at hrun ⊢
  cases hfirst : p W.front s with
  | ok a s' =>
    rw [hfirst] at hrun
    rw [FollowsAt, hfirst] at hp
    rw [hp]
    exact hsome a s' hfirst c t hrun herrors
  | error stop s' =>
    rw [hfirst] at hrun
    cases stop with
    | failed =>
      have := hnone s' c t hfirst hrun
      omega
    | tooDeep => cases hrun
    | stalled => cases hrun

/-- A loop of which no round loses an error. The induction is on the rounds. -/
theorem rounds {f : σ → τ} {step : σ → Parser (Round σ γ)} {step' : τ → Parser (Round τ δ)}
    (hstep : ∀ v s, W.FollowsErrorFree (Round.map f g) (step v) (step' (f v)) s)
    (hkept : ∀ n v s c t, Parser.rounds step n v W.front s = .ok c t → s.errorCount ≤ t.errorCount)
    {n m : Nat} (h : n ≤ m) (value : σ) (s : State) :
    W.FollowsErrorFree g (Parser.rounds step n value) (Parser.rounds step' m (f value)) s := by
  induction n generalizing m value s with
  | zero => exact fun _ _ hrun => nomatch hrun
  | succ n ih =>
    obtain ⟨m, rfl⟩ : ∃ k, m = k + 1 := ⟨m - 1, by omega⟩
    refine (hstep value s).andThen (fun round s' c t hrest => ?_) fun round s' => ?_
    · cases round with
      | next v => exact hkept n v s' c t hrest
      | done result => cases hrest; exact Nat.le_refl _
    · cases round with
      | next v => exact ih (Nat.le_of_succ_le_succ h) v s'
      | done result => exact .of_follows (.pure rfl)

theorem repeating {f : σ → τ} {step : σ → Parser (Round σ γ)} {step' : τ → Parser (Round τ δ)}
    (hstep : ∀ v s, W.FollowsErrorFree (Round.map f g) (step v) (step' (f v)) s)
    (hkept : ∀ n v s c t, Parser.rounds step n v W.front s = .ok c t → s.errorCount ≤ t.errorCount)
    {value : σ} {value' : τ} (hvalue : value' = f value) :
    W.FollowsErrorFree g (Parser.repeating step value) (Parser.repeating step' value') s := by
  subst hvalue
  exact .look theText_looks theText_looks rfl (.look position_looks position_looks rfl
    (.rounds hstep hkept (Nat.succ_le_succ (size_sub_le s.pos)) value s))

end LineFeeds.FollowsErrorFree

/-! ### Errors -/

/-- A fault is an error. -/
theorem State.errorCount_pos_of_mem {s : State} {fault : Diagnostic} (h : fault ∈ s.faults) :
    0 < s.errorCount := by
  rw [State.faults, List.mem_filter, Diagnostic.isFault, Bool.and_eq_true] at h
  rw [State.errorCount, ← Array.countP_toList, List.countP_pos_iff]
  exact ⟨fault, h.1, h.2.1⟩

/-- A construct that was given up has left an error. -/
theorem GivenUp.errorCount_pos {text : Array Char} {s s' : State} (h : GivenUp text s s') :
    0 < s'.errorCount := by
  obtain ⟨fault, -, hfaults⟩ := h.exists_fault
  exact State.errorCount_pos_of_mem (hfaults ▸ List.mem_append_right _ (List.mem_singleton_self fault))

/-- As many errors are on record at the new place. -/
theorem LineFeeds.errorCount_moved (W : LineFeeds) (s : State) :
    (W.moved s).errorCount = s.errorCount := by
  show (s.diagnostics.map _).countP Diagnostic.isError = _
  rw [Array.countP_map]
  rfl

/-- A body of a class that is not closed, or in which there are errors enough, has left an error. -/
theorem ClassBodyRun.errorCount_pos {g : Grammar} {ctx : Context} {opening : Span} {s s' : State}
    {entries : List MemberEntry} {ending : ClassBodyEnd} (hg : g.Grows ctx)
    (h : ClassBodyRun g ctx opening s entries ending s') (hending : ending ≠ .closed) :
    0 < s'.errorCount := by
  induction h with
  | closed => exact absurd rfl hending
  | unclosed _ _ =>
    have hfault : (Problem.unclosedClassBody.diagnostic opening).isFault = true := rfl
    exact State.errorCount_pos_of_mem (List.mem_filter.2 ⟨by simp, hfault⟩)
  | limit _ _ hrun => exact (hg.classMember.of_failed hrun).errorCount_pos
  | dropped _ _ _ _ _ _ ih => exact ih hending
  | kept _ _ _ _ ih => exact ih hending

/-- What is asked for a declaration gives up. -/
theorem Grammar.failDeclaration_givesUp : Grammar.failDeclaration.GivesUp :=
  .of_idle peek_looks.idle fun _ => .of_idle atEnd_looks.idle fun _ => .ite (failExpected_givesUp _)
    (.ite (.of_idle here_idle fun _ => failWith_givesUp _ _)
      (.of_idle describeCurrent_idle fun _ => .of_idle here_idle fun _ => failWith_givesUp _ _))

/-! ### Classes -/

namespace Grammar

variable {g : Grammar} {W : LineFeeds} {s s' : State} {opening : Span}

/-- Behind a member that was given up nothing is lost. -/
theorem errorCount_of_memberDropped {ctx : Context} {start : Nat} {members : Array ClassMember}
    {round : Round (Array ClassMember) (Array ClassMember)} {t : State}
    (h : (do
      if ← limitReached then throw .failed
      skipMember start
      return Round.next members : Parser (Round (Array ClassMember) (Array ClassMember))) ctx s =
        .ok round t) : t.errorCount = s.errorCount := by
  rw [limitReached_looks.bind_apply] at h
  split at h
  · cases h
  · cases h
    rfl

theorem Follows.classRound (hg : g.Follows W) (members : Array ClassMember) (s : State) :
    W.FollowsErrorFree (Round.map (Array.map (ClassMember.placed W.placement))
        (Array.map (ClassMember.placed W.placement)))
      (g.classRound opening members)
      (g.classRound (W.placement.span opening) (members.map (ClassMember.placed W.placement))) s := by
  refine .bind LineFeeds.skip_follows fun _ s₁ _ => .look atEnd_looks atEnd_looks
    (decide_eq_decide.2 LineFeeds.size_le_place) (.ite rfl
      (fun _ => .of_follows (.of_givesUp ((failWith_givesUp _ _).bind _) ((failWith_givesUp _ _).bind _)))
      fun _ => .look peek_looks peek_looks (LineFeeds.charAt_place s₁.pos) (.ite (lineEnd_beq (by decide))
        (fun hclose => .of_follows ((LineFeeds.advance_seen_follows hclose (by decide)).bind
          fun _ _ _ => .pure rfl))
        fun _ => .look position_looks position_looks rfl (.attempt hg.classMember
          (fun s₂ round t hfailed hrun => ?_) fun member s₂ _ => .of_follows (.pure ?_))))
  · rw [errorCount_of_memberDropped hrun]
    exact (hg.grows.classMember.of_failed hfailed).errorCount_pos
  · simp [Round.map]

/-- The loop over the members of a class loses no error. -/
theorem Grows.errorCount_le_of_classRounds {ctx : Context} (hg : g.Grows ctx) {n : Nat}
    {members result : Array ClassMember} (h : rounds (g.classRound opening) n members ctx s = .ok result s') :
    s.errorCount ≤ s'.errorCount := by
  have hruns := hg.classRounds opening n members s
  rw [h] at hruns
  obtain ⟨entries, hruns, -⟩ := hruns
  exact (hruns.kept_state hg).errorCount_le

theorem Follows.classBody (hg : g.Follows W) (s : State) :
    W.FollowsErrorFree (placedMembers W.placement) g.classBody g.classBody s := by
  rw [classBody_eq]
  refine .bind (LineFeeds.expect_follows "\x7b" (by decide)) fun opening s₁ _ => .andThen
    (f := Array.map (ClassMember.placed W.placement)) ?_ (fun _ _ _ _ h => by cases h; exact Nat.le_refl _)
    fun members s₂ => .look position_looks position_looks rfl (.of_follows (.pure ?_))
  · exact .repeating (f := Array.map (ClassMember.placed W.placement)) hg.classRound
      (fun _ _ _ _ _ h => hg.grows.errorCount_le_of_classRounds h) Array.map_empty.symm
  · simp

theorem Follows.classRule (hg : g.Follows W) (before : Preamble)
    (hword : wordAt W.text "class" s.pos = true) :
    W.FollowsErrorFree (ClassDecl.placed W.placement) (g.classRule before)
      (g.classRule (before.placed W.placement)) s := by
  rw [classRule_eq, classRule_eq]
  refine .bind (hg.classHead before hword) fun head s₁ _ => .bind
    (LineFeeds.atToken_follows "\x7b" (by decide))
    fun found s₂ _ => .ite rfl (fun _ => ?_) fun _ => ?_
  · refine .andThen (f := Option.map (placedMembers W.placement)) ?_
      (fun _ _ _ _ h => by cases h; exact Nat.le_refl _)
      fun body? s₃ => .of_follows (.pure (head.withBody_placed body?))
    exact .andThen (hg.classBody s₂) (fun _ _ _ _ h => by cases h; exact Nat.le_refl _)
      fun body s₃ => .of_follows (.pure rfl)
  · exact .bind (f := Option.map (placedMembers W.placement)) (.pure rfl)
      fun body? s₃ _ => .of_follows (.pure (head.withBody_placed body?))

/-! ### Declarations -/

/-- A declaration, when its source is no string between triple quotes. -/
theorem Follows.declarationRule (hg : g.Follows W)
    (hsource : ∀ literal t, g.clauseSource? W.front s = .ok (some literal) t →
      literal.multiline = false) :
    W.FollowsErrorFree (Declaration.placed W.placement) g.declarationRule g.declarationRule s := by
  refine .bind hg.preamble fun before s₁ h₁ => ?_
  rw [clauseSource?, bind_apply, h₁] at hsource
  dsimp only at hsource
  refine .atWord (by decide) (.ite rfl (fun hword => .of_follows
    ((moduleClauseRule_follows before hword).bind fun _ _ _ => .pure rfl)) fun hmodule => ?_)
  rw [(atWord_looks _).bind_apply, hmodule, if_neg Bool.false_ne_true] at hsource
  refine .atWord (by decide) (.ite rfl (fun hword => .of_follows ((hg.importRule before hword
    fun head t hhead => ?_).bind fun _ _ _ => .pure rfl)) fun himport => ?_)
  · refine hsource head.2 t ?_
    rw [(atWord_looks _).bind_apply, hword, if_pos rfl, bind_apply, hhead]
    rfl
  rw [(atWord_looks _).bind_apply, himport, if_neg Bool.false_ne_true] at hsource
  refine .atWord (by decide) (.ite rfl (fun hword => .of_follows ((hg.extendsRule before hword
    fun literal t hliteral => ?_).bind fun _ _ _ => .pure rfl)) fun hextends => ?_)
  · refine hsource literal t ?_
    rw [(atWord_looks _).bind_apply, hword, if_pos rfl, bind_apply, hliteral]
    rfl
  rw [(atWord_looks _).bind_apply, hextends, if_neg Bool.false_ne_true] at hsource
  refine .atWord (by decide) (.ite rfl (fun hword => .of_follows ((hg.amendsRule before hword
    fun literal t hliteral => ?_).bind fun _ _ _ => .pure rfl)) fun _ => ?_)
  · refine hsource literal t ?_
    rw [(atWord_looks _).bind_apply, hword, if_pos rfl, bind_apply, hliteral]
    rfl
  refine .atWord (by decide) (.ite rfl (fun hword => .of_follows
    ((hg.typeAliasRule before hword).bind fun _ _ _ => .pure rfl)) fun _ => ?_)
  refine .atWord (by decide) (.ite rfl (fun hword => .andThen (hg.classRule before hword)
    (fun _ _ _ _ h => by cases h; exact Nat.le_refl _) fun _ _ => .of_follows (.pure rfl)) fun _ => ?_)
  refine .atWord (by decide) (.ite rfl (fun hword => .of_follows
    ((hg.functionRule before hword).bind fun _ _ _ => .pure rfl)) fun _ => ?_)
  refine .of_follows (.atIdentifier fun _ => .ite rfl
    (fun _ => (hg.propertyRule before).bind fun _ _ _ => .pure rfl) fun _ => ?_)
  exact .of_givesUp failDeclaration_givesUp failDeclaration_givesUp

/-- A declaration that is given up leaves an error. -/
theorem Grows.errorCount_pos_of_failed {ctx : Context} (hg : g.Grows ctx)
    (h : g.declarationRule ctx s = .error .failed s') : 0 < s'.errorCount := by
  by_cases hopen : ∃ opening t, g.classOpening ctx s = .ok (some opening) t
  · obtain ⟨⟨head, opening⟩, t, hopen⟩ := hopen
    have hclass := hg.classDeclaration hopen
    rw [h] at hclass
    obtain ⟨entries, ending, hending, hrun⟩ := hclass
    exact hrun.errorCount_pos hg hending
  · exact ((hg.declarationRule fun opening t ht => hopen ⟨opening, t, ht⟩).of_failed h).errorCount_pos

end Grammar

/-! ### The loop over the declarations -/

namespace Parser

variable {ctx : Context} {n : Nat} {progress progress' : Progress} {s s' u v : State}

/-- One more declaration is read, when no error is on record behind it. -/
theorem nextDeclaration_errorFree (hrun : nextDeclaration progress ctx u = .ok progress' v)
    (herrors : v.errorCount = 0) :
    ∃ decl t, Grammar.full.declarationRule ctx u = .ok decl t ∧ t.errorCount = 0 ∧
      progress' = ⟨progress.declarations.push decl, progress.header.add decl⟩ := by
  have hg := Grammar.grows_full ctx
  cases hdecl : Grammar.full.declarationRule ctx u with
  | ok decl t =>
    obtain ⟨v', hnext, hgrown, -⟩ := nextDeclaration_of_ok progress hdecl
    cases hnext.symm.trans hrun
    have hle := hgrown.toKept.errorCount_le
    exact ⟨decl, t, rfl, by omega, rfl⟩
  | error stop t =>
    cases stop with
    | failed =>
      cases (nextDeclaration_of_failed hdecl).symm.trans hrun
      have hpos : 0 < t.errorCount := hg.errorCount_pos_of_failed hdecl
      exact absurd (show t.errorCount = 0 from herrors) (Nat.pos_iff_ne_zero.1 hpos)
    | tooDeep =>
      have hfault (span : Span) : (Problem.nestingTooDeep.diagnostic span).isFault = true := rfl
      cases (nextDeclaration_of_tooDeep hdecl (hg.declaration_of_error hdecl)).symm.trans hrun
      refine absurd herrors (Nat.pos_iff_ne_zero.1 (State.errorCount_pos_of_mem
        (List.mem_filter.2 ⟨?_, hfault (.ofNat u.pos (u.pos + 1))⟩)))
      simp
    | stalled => cases (nextDeclaration_of_stalled hdecl).symm.trans hrun

/-- The sources in the declarations that are read without an error are the values of the strings that
stand there. The induction is on the rounds. -/
theorem rounds_sources (hrun : rounds declarationRound n progress ctx s = .ok progress' s')
    (herrors : s'.errorCount = 0) :
    progress'.declarations.toList.filterMap Declaration.source? =
      progress.declarations.toList.filterMap Declaration.source? ++
        (sourcesFrom ctx n progress s).map StringLiteral.constantValue := by
  induction n generalizing progress s with
  | zero => cases hrun
  | succ n ih =>
    obtain ⟨u, hskip⟩ : ∃ u, s.skipTrivia ctx.text = u := ⟨_, rfl⟩
    rcases rounds_declarationRound_cases ctx hskip hrun with
      ⟨hdone, rfl, rfl⟩ | ⟨hlt, hlimit, progress₁, v, hnext, hrest⟩
    · rw [sourcesFrom_of_done (declarationRound_of_done hskip hdone), List.map_nil, List.append_nil]
    · have hle := (prefix_of_rounds hrest).2.errorCount_le
      obtain ⟨decl, t, hdecl, -, rfl⟩ := nextDeclaration_errorFree hnext (by omega)
      obtain ⟨literal?, t', hliteral, hsource⟩ := (Grammar.grows_full ctx).declarationRule_source hdecl
      have hat : sourceAt? ctx u = literal? := by rw [sourceAt?, hliteral]
      rw [sourcesFrom_of_next hskip (declarationRound_of_next hskip hlt hlimit hnext), ih hrest, hat]
      cases literal? <;> simp [hsource]

end Parser

namespace LineFeeds

variable {W : LineFeeds} {s t u v : State} {progress progress' : Progress}

theorem forM_report_follows {problems : List Problem} {span : Span}
    (h : ∀ problem ∈ problems, (problem.diagnostic span).placed W.placement =
      problem.diagnostic (W.placement.span span)) (s : State) :
    W.FollowsAt id (problems.forM fun problem => report problem span)
      (problems.forM fun problem => report problem (W.placement.span span)) s := by
  induction problems generalizing s with
  | nil => exact .pure rfl
  | cons problem problems ih =>
    rw [List.forall_mem_cons] at h
    exact (report_follows h.1).bind fun _ s₁ _ => ih h.2 s₁

theorem nextDeclaration_follows (progress : Progress)
    (hsource : ∀ literal ∈ sourceAt? W.front u, literal.multiline = false) :
    W.FollowsErrorFree (Progress.placed W.placement) (nextDeclaration progress)
      (nextDeclaration (progress.placed W.placement)) u := by
  intro progress' v hrun herrors
  obtain ⟨decl, t, hdecl, ht, -⟩ := nextDeclaration_errorFree hrun herrors
  have hbehind := (Grammar.follows_full W).declarationRule (fun literal t' h =>
    hsource literal (by rw [sourceAt?, h]; rfl)) decl t hdecl ht
  have hreport : W.FollowsAt (Progress.placed W.placement)
      (do
        (progress.header.problems decl).forM fun problem => report problem decl.span
        return ⟨progress.declarations.push decl, progress.header.add decl⟩)
      (do
        (progress.header.problems decl).forM fun problem => report problem (W.placement.span decl.span)
        return ⟨(progress.placed W.placement).declarations.push (decl.placed W.placement),
          progress.header.add decl⟩) t :=
    (forM_report_follows (fun _ h => Header.diagnostic_placed h decl.span) t).bind
      fun _ _ _ => .pure (by simp [Progress.placed])
  rw [FollowsAt, ← nextDeclaration_eq_of_ok progress hdecl, hrun] at hreport
  rw [nextDeclaration_eq_of_ok _ hbehind, Header.problems_placed, Header.add_placed,
    Declaration.span_placed]
  exact hreport

theorem limitReached_moved (W : LineFeeds) (options : Options) (s : State) :
    options.limitReached (W.moved s) = options.limitReached s := by
  rw [Options.limitReached, W.errorCount_moved, Options.limitReached]

/-- The induction is on the rounds. -/
theorem rounds_declarations {n m : Nat} (h : n ≤ m)
    (hsources : ∀ literal ∈ sourcesFrom W.front n progress s, literal.multiline = false)
    (hrun : rounds declarationRound n progress W.front s = .ok progress' t) (herrors : t.errorCount = 0) :
    rounds declarationRound m (progress.placed W.placement) W.behind (W.moved s) =
      .ok (progress'.placed W.placement) (W.moved t) := by
  induction n generalizing m progress s with
  | zero => cases hrun
  | succ n ih =>
    obtain ⟨m, rfl⟩ : ∃ k, m = k + 1 := ⟨m - 1, by omega⟩
    obtain ⟨u, hskip⟩ : ∃ u, s.skipTrivia W.text = u := ⟨_, rfl⟩
    have hskip' : (W.moved s).skipTrivia W.crlf = W.moved u := by rw [skipTrivia_moved, hskip]
    rcases rounds_declarationRound_cases W.front hskip hrun with
      ⟨hdone, rfl, rfl⟩ | ⟨hlt, hlimit, progress₁, v, hnext, hrest⟩
    · have hdone' : W.crlf.size ≤ (W.moved t).pos ∨ W.options.limitReached (W.moved t) = true := by
        rwa [pos_moved, size_le_place, limitReached_moved]
      rw [rounds, bind_apply, declarationRound_of_done hskip' hdone']
      rfl
    · have hle := (prefix_of_rounds hrest).2.errorCount_le
      have hround : declarationRound progress W.front s = .ok (.next progress₁) v :=
        declarationRound_of_next hskip hlt hlimit hnext
      rw [sourcesFrom_of_next hskip hround] at hsources
      simp only [List.mem_append, Option.mem_toList, or_imp, forall_and] at hsources
      have hnext' := nextDeclaration_follows progress hsources.1 progress₁ v hnext (by omega)
      have hround' : declarationRound (progress.placed W.placement) W.behind (W.moved s) =
          .ok (.next (progress₁.placed W.placement)) (W.moved v) :=
        declarationRound_of_next hskip' (place_lt_size.2 hlt)
          ((W.limitReached_moved W.options u).trans hlimit) hnext'
      rw [rounds_of_next hround']
      exact ih (Nat.le_of_succ_le_succ h) hsources.2 hrest

end LineFeeds

end PklSyntax
