import PklSyntax.Grammar.Module
import PklSyntax.Proofs.Layout.Object

/-!
# How a module lies in the text

The declarations of a module follow one another. A declaration that is given up leaves an error on
record, so when there is none, each declaration begins where the trivia behind the one before end,
or with a doc comment among them. Then no token is skipped silently: between the spans of the
declarations there are trivia and nothing else.

## Main definitions

* `Covers`: spans with trivia between them.
* `gaps`: the stretches of a text around spans.

## Main statements

* `Parser.moduleDeclarations_spec`: what a whole parse comes to.
* `parse_tidy`, `parse_span_geometry`: how the nodes of any tree lie.
* `parse_gaps_trivia`: without errors all tokens lie within declarations.
-/

namespace PklSyntax

variable {text : Array Char} {s s' : State} {c c' : Nat}

/-! ### Spans with trivia between them -/

/-- The text from `lo` up to `hi` is made up of the spans and of trivia around them. -/
def Covers (text : Array Char) (lo : Nat) : List Span → Nat → Prop
  | [], hi => TriviaRun text lo hi
  | span :: spans, hi => ∃ start stop : Nat, span = .ofNat start stop ∧ start < stop ∧
      TriviaRun text lo start ∧ Covers text stop spans hi

namespace Covers

variable {lo mid hi : Nat} {spans : List Span}

theorem trivia (h : Covers text lo spans mid) (hrun : TriviaRun text mid hi) :
    Covers text lo spans hi := by
  induction spans generalizing lo with
  | nil => exact TriviaRun.trans h hrun
  | cons span spans ih =>
    obtain ⟨start, stop, hspan, hlt, hgap, hrest⟩ := h
    exact ⟨start, stop, hspan, hlt, hgap, ih hrest⟩

theorem snoc (h : Covers text lo spans mid) {start stop : Nat} (hrun : TriviaRun text mid start)
    (hlt : start < stop) : Covers text lo (spans ++ [.ofNat start stop]) stop := by
  induction spans generalizing lo with
  | nil => exact ⟨start, stop, rfl, hlt, TriviaRun.trans h hrun, .nil stop⟩
  | cons span spans ih =>
    obtain ⟨start', stop', hspan, hlt', hgap, hrest⟩ := h
    exact ⟨start', stop', hspan, hlt', hgap, ih hrest⟩

end Covers

/-- The stretches between `lo` and `hi` that lie in front of, between and behind the spans. -/
def gaps (lo : Nat) : List Span → Nat → List (Nat × Nat)
  | [], hi => [(lo, hi)]
  | span :: spans, hi => (lo, span.start.toNat) :: gaps span.stop.toNat spans hi

namespace Covers

variable {lo hi : Nat} {spans : List Span}

theorem triviaRun (h : Covers text lo spans hi) :
    ∀ gap ∈ gaps lo spans hi, TriviaRun text gap.1 gap.2 := by
  induction spans generalizing lo with
  | nil =>
    rintro gap hgap
    obtain rfl := List.mem_singleton.1 hgap
    exact h
  | cons span spans ih =>
    obtain ⟨start, stop, rfl, -, hrun, hrest⟩ := h
    rintro gap hgap
    rcases List.mem_cons.1 hgap with rfl | hgap
    · exact hrun
    · exact ih hrest gap hgap

theorem le_start (h : Covers text lo spans hi) : ∀ span ∈ spans, (lo : Int) ≤ span.start := by
  induction spans generalizing lo with
  | nil => simp
  | cons span spans ih =>
    obtain ⟨start, stop, rfl, hlt, hrun, hrest⟩ := h
    rintro other hother
    have hle := hrun.le
    rcases List.mem_cons.1 hother with rfl | hother
    · exact Int.ofNat_le.2 hle
    · have := ih hrest other hother
      omega

theorem pairwise (h : Covers text lo spans hi) :
    spans.Pairwise fun a b => a.start < b.start ∧ a.Before b := by
  induction spans generalizing lo with
  | nil => exact .nil
  | cons span spans ih =>
    obtain ⟨start, stop, rfl, hlt, -, hrest⟩ := h
    refine .cons (fun other hother => ?_) (ih hrest)
    have hle := hrest.le_start other hother
    exact ⟨Int.lt_of_lt_of_le (Int.ofNat_lt.2 hlt) hle, hle⟩

end Covers

/-! ### What is given up -/

/-- A declaration that was given up leaves the parse where it stopped: what was attached on its
behalf is attached no longer, and an error is on record, even when the others that it recorded are
dropped. -/
theorem Onward.abandon (h : Onward text s c s' c') {diagnostics : Array Diagnostic}
    (hinit : s.diagnostics.toList <+: diagnostics.toList)
    (herror : ∃ d ∈ diagnostics.toList, d.isError = true) :
    Onward text s c { s' with attached := s.attached, diagnostics } c' where
  start := h.start
  stands :=
    { pos_le_size := h.stands.pos_le_size
      attached_lt := fun i hi => Nat.lt_of_lt_of_le (h.start.attached_lt i hi)
        (by simpa using h.docs.length_le)
      place := h.stands.place.imp_right fun ⟨hend, hpos, hdoc, _⟩ =>
        ⟨hend, hpos, hdoc, .inr herror⟩ }
  pos_le := h.pos_le
  moved := by
    rcases h.moved with hc | hc | ⟨hc, -⟩
    · exact .inl hc
    · exact .inr (.inl hc)
    · exact .inr (.inr ⟨hc, herror⟩)
  mode_eq := h.mode_eq
  diagnostics := hinit
  docs := h.docs

theorem span_ofDeclaration (decl : Declaration) : (Node.ofDeclaration decl).span = decl.span := by
  cases decl <;> rfl

/-- Without errors only trivia stand between the last token and the place behind skipped trivia. -/
theorem Stands.triviaRun_pos (h : Stands text s c) (hend : s.triviaEnd = some s.pos)
    (herror : ¬ s.HasError) : TriviaRun text c s.pos := by
  rcases h.place with ⟨hpos, hfresh⟩ | ⟨-, hpos, -, hclosed⟩
  · have := hfresh _ hend
    omega
  · rw [hpos]
    exact triviaRun_skipEnd (hclosed.resolve_right herror)

/-- Likewise for the place where a declaration at the cursor would begin. -/
theorem Stands.triviaRun_lead (h : Stands text s c) (hend : s.triviaEnd = some s.pos)
    (herror : ¬ s.HasError) : ∃ start : Nat, s.lead = start ∧ TriviaRun text c start := by
  cases hpending : s.pending with
  | none =>
    exact ⟨s.pos, by simp [State.lead, hpending], h.triviaRun_pos hend herror⟩
  | some doc =>
    rcases h.place with ⟨hpos, hfresh⟩ | ⟨-, hpos, hdoc, hclosed⟩
    · have := hfresh _ hend
      omega
    · obtain ⟨start, stop, hspan, -, -, -, -, -, hrun⟩ :=
        docsFrom_getLast? (hdoc.symm.trans (State.runDoc?_of_pending hpending).2)
      exact ⟨start, by simp [State.lead, hpending, hspan, Span.ofNat],
        (hrun (hclosed.resolve_right herror)).1⟩

namespace Parser

variable {ctx : Context} {s₀ : State} {c₀ : Nat}

theorem EndsFrom.outcome {α β : Type} {p : Parser α} {f : Except Stop α → Parser β}
    {Q : β → State → Nat → Prop}
    (hok : ∀ a s', p ctx s = .ok a s' → (f (.ok a)).EndsFrom ctx s₀ c₀ s' Q)
    (herror : ∀ stop s', p ctx s = .error stop s' → (f (.error stop)).EndsFrom ctx s₀ c₀ s' Q) :
    (Parser.outcome p >>= f).EndsFrom ctx s₀ c₀ s Q := by
  rw [EndsFrom, bind_apply, Parser.outcome]
  cases hrun : p ctx s with
  | ok a s' => exact hok a s' hrun
  | error stop s' => exact herror stop s' hrun

theorem forM_report_yields (problems : List Problem) (span : Span) :
    (problems.forM fun problem => report problem span).Yields ctx s c fun _ s' c' =>
      s'.pos = s.pos ∧ c' = c := by
  induction problems generalizing s c with
  | nil => exact .pure ⟨rfl, rfl⟩
  | cons problem problems ih =>
    refine (report_yields problem span).bind fun _ s₁ c₁ _ h => ih.mono fun _ _ _ _ h' => ?_
    obtain ⟨rfl, rfl⟩ := h
    exact h'

theorem declarationRestart_spec (i : Nat) :
    i ≤ declarationRestart text i ∧ (i ≤ text.size → declarationRestart text i ≤ text.size) := by
  fun_induction declarationRestart text i with
  | case1 => omega
  | case2 => omega
  | case3 => omega

/-- Reading goes on behind the start of a declaration that was given up. -/
theorem skipDeclaration_yields {start : Nat} (herror : s.HasError) (hle : start ≤ s.pos)
    (hlt : start < ctx.text.size) :
    (skipDeclaration start).Yields ctx s c fun _ s' _ => start < s'.pos := by
  refine .of_stands fun hs => .look position_looks ?_
  have hsize := hs.pos_le_size
  have hrest : ∀ {s₁ : State} {c₁ : Nat}, s₁.HasError → start < s₁.pos →
      (do moveTo (declarationRestart (← theText) (← position))).Yields ctx s₁ c₁
        fun _ s' _ => start < s'.pos := by
    intro s₁ c₁ herror₁ hlt₁
    refine .of_stands fun hs₁ => .look theText_looks (.look position_looks ?_)
    have hspec := @declarationRestart_spec ctx.text s₁.pos
    refine (moveTo_hasError herror₁ hspec.1 (hspec.2 hs₁.pos_le_size)).mono fun _ s' _ _ h => ?_
    rw [h]
    exact Nat.lt_of_lt_of_le hlt₁ hspec.1
  split
  · refine .bind (P := fun _ s' _ => s' = { s with pos := min ctx.text.size (s.pos + 1) })
      (.look theText_looks (.look position_looks (moveTo_hasError herror (by omega) (by omega))))
      fun _ s₁ c₁ h₁ h => hrest (h₁.hasError herror) ?_
    rw [h]
    simp only
    omega
  · exact hrest herror (by omega)

/-- What has been read of a module: declarations that follow one another, with nothing but trivia
between them when there is no error on record. -/
structure ModuleRead (text : Array Char) (progress : Progress) (s : State) (c : Nat) : Prop where
  row : Row 0 (progress.declarations.toList.map Node.ofDeclaration) c
  covers : ¬ s.HasError → Covers text 0 (progress.declarations.toList.map Declaration.span) c

theorem ModuleRead.mono {progress : Progress} (h : ModuleRead ctx.text progress s c)
    (hle : c ≤ c') (herror : s'.HasError) : ModuleRead ctx.text progress s' c' :=
  ⟨h.row.mono (Int.le_refl _) (Int.ofNat_le.2 hle), fun hno => absurd herror hno⟩

theorem nextDeclaration_yields {progress : Progress} (hprogress : ModuleRead ctx.text progress s c)
    (hend : s.triviaEnd = some s.pos) (hlt : s.pos < ctx.text.size) :
    (nextDeclaration progress).Yields ctx s c fun progress' s' c' =>
      s.pos < s'.pos ∧ ModuleRead ctx.text progress' s' c' := by
  intro hs
  have hrule := (Grammar.places_full ctx).declarationRule hs
  rw [EndsFrom] at hrule
  refine .look position_looks (.look mark_looks (.outcome (fun decl s₁ hrun => ?_)
    fun stop s₁ hrun => ?_))
  · rw [hrun] at hrule
    obtain ⟨c₁, h₁, hspans, hlt₁⟩ := hrule
    refine .bind (forM_report_yields _ _) h₁ fun _ s₂ c₂ _ h₂ hreported => .pure h₂ ?_
    obtain ⟨hpos₂, rfl⟩ := hreported
    have hpos₁ := h₂.stands.le_pos
    refine ⟨by omega, ⟨hprogress.row.push hspans.placed hs.row_pending.1, fun hno => ?_⟩⟩
    have hno' : ¬ s.HasError := fun herror => hno (h₂.hasError herror)
    obtain ⟨start, hlead, hrun'⟩ := hs.triviaRun_lead hend hno'
    have hspan : decl.span = .ofNat start c₂ := by
      rw [← span_ofDeclaration, hspans.span_eq, hlead]
      rfl
    have hle := hs.row_pending.2.le
    rw [Array.toList_push, List.map_append, List.map_singleton, hspan]
    exact (hprogress.covers hno').snoc hrun' (by omega)
  · rw [hrun] at hrule
    obtain ⟨hstop, herror, c₁, h₁⟩ := hrule
    have hle₁ := h₁.pos_le
    -- With an error on record the parse goes on from wherever it stopped.
    have hrest : ∀ diagnostics : Array Diagnostic, s.diagnostics.toList <+: diagnostics.toList →
        (∃ d ∈ diagnostics.toList, d.isError = true) →
        (do
          skipDeclaration s.pos
          return progress).EndsFrom ctx s c { s₁ with attached := s.attached, diagnostics }
          fun progress' s' c' => s.pos < s'.pos ∧ ModuleRead ctx.text progress' s' c' := by
      intro diagnostics hinit herror
      exact .bind (skipDeclaration_yields herror hle₁ hlt) (h₁.abandon hinit herror)
        fun _ s₂ c₂ h h₂ hpos => .pure h₂ ⟨hpos, hprogress.mono h₂.le (h.hasError herror)⟩
    cases stop with
    | stalled => exact absurd rfl hstop
    | failed => exact hrest _ h₁.diagnostics (herror rfl)
    | tooDeep =>
      have hkept : s₁.diagnostics.take s.diagnostics.size = s.diagnostics :=
        congrArg State.diagnostics h₁.rewind
      have hlast : (Problem.nestingTooDeep.diagnostic (.ofNat s.pos (s.pos + 1))).isError = true := rfl
      exact hrest ((s₁.diagnostics.take s.diagnostics.size).push
        (Problem.nestingTooDeep.diagnostic (.ofNat s.pos (s.pos + 1)))) (by rw [hkept]; simp)
        ⟨_, by simp, hlast⟩

/-- At the limit on errors there is an error. -/
theorem hasError_of_limitReached {options : Options} (h : options.limitReached s = true) :
    s.HasError := by
  simp only [Options.limitReached, Bool.and_eq_true, decide_eq_true_eq] at h
  have hcount : 0 < s.diagnostics.toList.countP Diagnostic.isError := by
    have : s.errorCount = s.diagnostics.toList.countP Diagnostic.isError := by
      rw [State.errorCount, Array.countP_toList]
    omega
  obtain ⟨d, hd, herror⟩ := List.countP_pos_iff.1 hcount
  exact ⟨d, hd, herror⟩

/-- The declarations make up a row, and without errors they cover the text. -/
theorem declarations_yields (hmode : s.mode = .loose) (hstart : c = 0) :
    declarations.Yields ctx s c fun decls s' c' =>
      Row 0 (decls.map Node.ofDeclaration) c' ∧
        (¬ s'.HasError → Covers ctx.text 0 (decls.map Declaration.span) ctx.text.size) := by
  subst hstart
  refine .bind (P := fun progress s' c' =>
      Row 0 (progress.declarations.toList.map Node.ofDeclaration) c' ∧ (¬ s'.HasError →
        Covers ctx.text 0 (progress.declarations.toList.map Declaration.span) ctx.text.size))
    (.repeating (ModuleRead ctx.text) ⟨.nil (Int.le_refl _), fun _ => .nil 0⟩
      fun progress s₁ c₁ h₁ hprogress => skip_yields.bind fun _ s₂ c₂ h₂ hskip => ?_)
    fun progress s₁ c₁ _ h => .pure h
  obtain rfl := hskip.eq
  have hend := hskip.triviaEnd (h₂.mode_eq.trans (h₁.mode_eq.trans hmode))
  have hprogress₂ : ModuleRead ctx.text progress s₂ c₂ :=
    ⟨hprogress.row, fun hno => hprogress.covers fun herror => hno (h₂.hasError herror)⟩
  have hle₂ := h₂.pos_le
  refine .look atEnd_looks (.look limitReached_looks ?_)
  split
  · rename_i hstop
    refine .pure ⟨hprogress₂.row, fun hno => ?_⟩
    have hsize : ctx.text.size ≤ s₂.pos := by
      rcases Bool.or_eq_true_iff.1 hstop with hsize | hlimit
      · simpa using hsize
      · exact absurd (hasError_of_limitReached hlimit) hno
    have hpos : s₂.pos = ctx.text.size := Nat.le_antisymm h₂.stands.pos_le_size hsize
    exact (hprogress₂.covers hno).trivia (hpos ▸ h₂.stands.triviaRun_pos hend hno)
  · rename_i hgo
    simp only [Bool.or_eq_true, decide_eq_true_eq, not_or, Nat.not_le] at hgo
    refine (nextDeclaration_yields hprogress₂ hend hgo.1).bind fun progress' s₃ c₃ _ h => .pure ?_
    exact ⟨by omega, h.2⟩

theorem reportOrphans_yields : reportOrphans.Yields ctx s c fun _ _ _ => True := by
  have hreports : ∀ (docs : List DocComment) (s : State) (c : Nat),
      (docs.forM fun doc => report .orphanedDocComment doc.span).Yields ctx s c
        fun _ _ _ => True := by
    intro docs
    induction docs with
    | nil => exact fun _ _ => .pure trivial
    | cons doc docs ih => exact fun s c => (report_yields _ _).bind fun _ s₁ c₁ _ _ => ih s₁ c₁
  refine .look theOptions_looks ?_
  split
  · exact hreports s.orphans s c
  · exact .pure trivial

/-! ### A parse has a result -/

theorem onlyStalls_modify (f : State → State) : OnlyStalls (modify f : Parser Unit) :=
  fun _ _ _ _ hrun => by cases hrun

theorem forM_onlyStalls {α : Type} {f : α → Parser Unit} (hf : ∀ a, (f a).OnlyStalls)
    (as : List α) : (as.forM f).OnlyStalls := by
  induction as with
  | nil => exact (Idle.pure ()).onlyStalls
  | cons a as ih => exact (hf a).bind fun _ => ih

theorem advance_onlyStalls (n : Nat) : (advance n).OnlyStalls :=
  theText_looks.idle.onlyStalls.bind fun _ => position_looks.idle.onlyStalls.bind fun _ =>
    onlyStalls_modify _

theorem skipDeclaration_onlyStalls (start : Nat) : (skipDeclaration start).OnlyStalls := by
  have hmove : OnlyStalls (do moveTo (declarationRestart (← theText) (← position))) :=
    theText_looks.idle.onlyStalls.bind fun _ => position_looks.idle.onlyStalls.bind fun _ =>
      onlyStalls_modify _
  refine position_looks.idle.onlyStalls.bind fun pos => ?_
  split
  · exact (advance_onlyStalls 1).bind fun _ => hmove
  · exact hmove

theorem nextDeclaration_onlyStalls (progress : Progress) :
    (nextDeclaration progress).OnlyStalls := by
  refine position_looks.idle.onlyStalls.bind fun start => mark_looks.idle.onlyStalls.bind
    fun before => OnlyStalls.bind (fun ctx s stop s' hrun => ?_) fun outcome => ?_
  · rw [Parser.outcome] at hrun
    split at hrun <;> cases hrun
  · have hskip : OnlyStalls (do
        skipDeclaration start
        return progress) :=
      (skipDeclaration_onlyStalls start).bind fun _ => (Idle.pure progress).onlyStalls
    cases outcome with
    | ok decl =>
      exact (forM_onlyStalls (fun _ => onlyStalls_modify _) _).bind fun _ =>
        (Idle.pure _).onlyStalls
    | error stop =>
      cases stop with
      | stalled =>
        intro ctx s stop s' hrun
        cases hrun
        rfl
      | failed => exact (onlyStalls_modify _).bind fun _ => hskip
      | tooDeep =>
        exact (onlyStalls_modify _).bind fun _ => (onlyStalls_modify _).bind fun _ =>
          (onlyStalls_modify _).bind fun _ => hskip

theorem skip_onlyStalls : skip.OnlyStalls :=
  theText_looks.idle.onlyStalls.bind fun _ => onlyStalls_modify _

theorem declarations_onlyStalls : declarations.OnlyStalls := by
  refine (OnlyStalls.repeating (fun progress => ?_) _).bind fun _ => (Idle.pure _).onlyStalls
  refine skip_onlyStalls.bind fun _ => atEnd_looks.idle.onlyStalls.bind fun _ =>
    limitReached_looks.idle.onlyStalls.bind fun _ => ?_
  split
  · exact (Idle.pure _).onlyStalls
  · exact (nextDeclaration_onlyStalls progress).bind fun _ => (Idle.pure _).onlyStalls

theorem reportOrphans_onlyStalls : reportOrphans.OnlyStalls := by
  refine theOptions_looks.idle.onlyStalls.bind fun options => ?_
  split
  · exact OnlyStalls.bind (fun _ _ _ _ hrun => by cases hrun) fun s =>
      forM_onlyStalls (fun _ => onlyStalls_modify _) _
  · exact (Idle.pure ()).onlyStalls

/-- What a whole parse comes to. -/
theorem moduleDeclarations_spec (ctx : Context) :
    ∃ decls s' c', moduleDeclarations ctx {} = .ok decls s' ∧ c' ≤ ctx.text.size ∧
      Row 0 (decls.map Node.ofDeclaration) c' ∧
      (¬ s'.HasError → Covers ctx.text 0 (decls.map Declaration.span) ctx.text.size) := by
  have hs : Stands ctx.text {} 0 := ⟨Nat.zero_le _, nofun, .inl ⟨rfl, nofun⟩⟩
  have hyields : moduleDeclarations.Yields ctx {} 0 fun decls s' c' =>
      Row 0 (decls.map Node.ofDeclaration) c' ∧
        (¬ s'.HasError → Covers ctx.text 0 (decls.map Declaration.span) ctx.text.size) :=
    (declarations_yields rfl rfl).bind fun decls s₁ c₁ _ h =>
      reportOrphans_yields.bind fun _ s₂ c₂ h₂ _ => .pure
        ⟨h.1.mono (Int.le_refl _) (Int.ofNat_le.2 h₂.le),
          fun hno => h.2 fun herror => hno (h₂.hasError herror)⟩
  have honly : moduleDeclarations.OnlyStalls :=
    declarations_onlyStalls.bind fun _ => reportOrphans_onlyStalls.bind fun _ =>
      (Idle.pure _).onlyStalls
  obtain ⟨decls, s', c', hrun, hon, hrow, hcovers⟩ := honly.exists_result hyields hs
  exact ⟨decls, s', c', hrun, hon.stands.le_size, hrow, hcovers⟩

end Parser

/-! ### Trees -/

/-- All nodes of a sound tree lie within its root. -/
theorem Node.Sound.within_walk {n m : Node} (h : n.Sound) (hm : m ∈ n.walk) :
    n.span.start ≤ m.span.start ∧ m.span.stop ≤ n.span.stop := by
  rw [Node.walk_eq] at hm
  rcases List.mem_cons.1 hm with rfl | hm
  · exact ⟨Int.le_refl _, Int.le_refl _⟩
  · obtain ⟨child, hchild, hm⟩ := List.mem_flatMap.1 hm
    obtain ⟨hstart, hstop⟩ := h.tidy.within child hchild
    have hrec := (h.child hchild).within_walk hm
    exact ⟨Int.le_trans hstart hrec.1, Int.le_trans hrec.2 hstop⟩
termination_by sizeOf n
decreasing_by exact Node.sizeOf_lt_of_mem_children hchild

/-- The nodes that a field lists follow one another, by their spans. -/
theorem Node.Tidy.pairwise {α : Type} {n : Node} {node : α → Node} {span : α → Span} {as : List α}
    (h : n.Tidy) (name : String) (hfield : ⟨name, .ofList node as⟩ ∈ n.fields)
    (hspan : ∀ a, (node a).span = span a) : as.Pairwise fun a b => (span a).Before (span b) := by
  have hlisted := h.listed _ hfield
  rw [FieldValue.children_ofList, List.pairwise_map] at hlisted
  exact hlisted.imp fun hbefore => by rwa [hspan, hspan] at hbefore

theorem span_ofClassMember (member : ClassMember) :
    (Node.ofClassMember member).span = member.span := by
  cases member <;> rfl

theorem span_ofObjectMember (member : ObjectMember) :
    (Node.ofObjectMember member).span = member.span := by
  cases member <;> rfl

/-- The declarations of any text make up a row, and without errors they cover the text. -/
theorem parse_spec (text filename : String) (options : Options) :
    (parse text filename options).module.span = .ofNat 0 text.length ∧
      Row 0 ((parse text filename options).module.declarations.map Node.ofDeclaration)
        text.length ∧
      ((parse text filename options).hasErrors = false →
        Covers text.toList.toArray 0
          ((parse text filename options).module.declarations.map Declaration.span) text.length) := by
  obtain ⟨decls, s', c', hrun, hle, hrow, hcovers⟩ :=
    Parser.moduleDeclarations_spec ⟨text.toList.toArray, options⟩
  have hsize : text.toList.toArray.size = text.length := by
    rw [List.size_toArray, String.length_toList]
  rw [parse_of_run hrun, ← hsize]
  refine ⟨rfl, hrow.mono (Int.le_refl _) (Int.ofNat_le.2 hle), fun hno => hcovers ?_⟩
  rintro ⟨d, hd, herror⟩
  rw [ParseResult.hasErrors, List.any_eq_false] at hno
  exact hno d ((List.mergeSort_perm _ _).mem_iff.2 hd) herror

section Parsed

variable {text filename : String} {options : Options}

/-- The nodes of any tree lie in the text and are tidy, and none but the module is empty. -/
theorem parse_tidy {n : Node} (hn : n ∈ (Node.module (parse text filename options).module).walk) :
    0 ≤ n.span.start ∧ n.span.start ≤ n.span.stop ∧ n.span.stop ≤ text.length ∧
      (n.kind ≠ .module → n.span.start < n.span.stop) ∧ n.Tidy := by
  obtain ⟨hspan, hrow, -⟩ := parse_spec text filename options
  generalize (parse text filename options).module = m at hn hspan hrow
  have hchildren : (Node.module m).children = m.declarations.map Node.ofDeclaration := by
    simp [Node.children, Node.fields]
  have hroot : (Node.module m).span = .ofNat 0 text.length := hspan
  rw [Node.walk_eq, List.mem_cons] at hn
  rcases hn with rfl | hn
  · have hall : Row 0 (nodesOf (Node.module m).fields) text.length := by
      simpa [nodesOf, Node.fields] using hrow
    have htidy : (Node.module m).Tidy :=
      Node.tidy_of_rows (List.append_nil _).symm (.nil (Int.le_refl 0)) hall
        (Int.le_of_eq (by rw [hroot]; rfl)) (Int.le_of_eq (by rw [hroot]; rfl))
    rw [hroot]
    exact ⟨Int.le_refl _, Int.ofNat_le.2 (Nat.zero_le _), Int.le_refl _,
      fun hkind => absurd rfl hkind, htidy⟩
  · -- All other nodes belong to sound trees.
    obtain ⟨child, hchild, hn⟩ := List.mem_flatMap.1 hn
    rw [hchildren] at hchild
    obtain ⟨hlo, hhi⟩ := hrow.within hchild
    have hsound := hrow.sound hchild
    obtain ⟨hstart, hstop⟩ := hsound.within_walk hn
    obtain ⟨hlt, htidy⟩ := hsound n hn
    exact ⟨by omega, by omega, by omega, fun _ => hlt, htidy⟩

theorem parse_declarations_pairwise :
    (parse text filename options).module.declarations.Pairwise fun a b => a.span.Before b.span :=
  have htidy : (Node.module (parse text filename options).module).Tidy :=
    (parse_tidy (Node.mem_walk_self _)).2.2.2.2
  htidy.pairwise "declarations" (by simp [Node.fields]) span_ofDeclaration

theorem parse_members_pairwise {decl : ClassDecl} {members : List ClassMember}
    (hdecl : .classDecl decl ∈ (Node.module (parse text filename options).module).walk)
    (hbody : decl.body = some members) : members.Pairwise fun a b => a.span.Before b.span := by
  refine (parse_tidy hdecl).2.2.2.2.pairwise "body" ?_ span_ofClassMember
  simp [Node.fields, ClassDecl.fields, hbody, FieldValue.ofOptionList]

end Parsed

/-- How the nodes of any tree lie in the text: they lie in it, none but the module is empty, and the
children of a node lie within it and apart from one another; declarations, members of classes and
members of objects follow one another. -/
theorem parse_span_geometry (text filename : String) (options : Options) :
    let m := (parse text filename options).module
    (∀ n ∈ (Node.module m).walk,
      0 ≤ n.span.start ∧ n.span.start ≤ n.span.stop ∧ n.span.stop ≤ text.length ∧
        (n.kind ≠ .module → n.span.start < n.span.stop) ∧
        (∀ child ∈ n.children, child.span.Within n.span) ∧
        n.children.Pairwise fun a b => a.span.Apart b.span) ∧
      (m.declarations.Pairwise fun a b => a.span.Before b.span) ∧
      (∀ decl members, .classDecl decl ∈ (Node.module m).walk → decl.body = some members →
        members.Pairwise fun a b => a.span.Before b.span) ∧
      ∀ body, .objectBody body ∈ (Node.module m).walk →
        body.members.Pairwise fun a b => a.span.Before b.span := by
  intro m
  refine ⟨fun n hn => ?_, parse_declarations_pairwise,
    fun decl members hdecl hbody => parse_members_pairwise hdecl hbody, fun body hbody => ?_⟩
  · obtain ⟨hlo, hle, hhi, hlt, htidy⟩ := parse_tidy hn
    exact ⟨hlo, hle, hhi, hlt, htidy.within, htidy.apart⟩
  · exact (parse_tidy hbody).2.2.2.2.pairwise "members" (by simp [Node.fields, ObjectBody.fields])
      span_ofObjectMember

/-- No token is skipped silently: when there is no error, the declarations follow one another, and
the text in front of them, between them and behind them is made up of trivia. -/
theorem parse_gaps_trivia (text filename : String) (options : Options)
    (h : (parse text filename options).hasErrors = false) :
    let spans := (parse text filename options).module.declarations.map Declaration.span
    (∀ span ∈ spans, 0 ≤ span.start ∧ span.start < span.stop) ∧
      (spans.Pairwise fun a b => a.start < b.start ∧ a.Before b) ∧
      ∀ gap ∈ gaps 0 spans text.length, TriviaRun text.toList.toArray gap.1 gap.2 := by
  obtain ⟨-, hrow, hcovers⟩ := parse_spec text filename options
  refine ⟨fun span hspan => ?_, (hcovers h).pairwise, (hcovers h).triviaRun⟩
  obtain ⟨decl, hdecl, rfl⟩ := List.mem_map.1 hspan
  have hmem := List.mem_map_of_mem (f := Node.ofDeclaration) hdecl
  have hlo := (hrow.within hmem).1
  have hlt := (hrow.sound hmem).start_lt_stop
  rw [span_ofDeclaration] at hlo hlt
  exact ⟨hlo, hlt⟩

/-- Two properties and a comment, with the line break between them. -/
theorem parse_gaps_trivia_two_properties :
    (parse "x = 1 // one\ny = x" "pair" {}).hasErrors = false ∧
      ∀ gap ∈ gaps 0 ((parse "x = 1 // one\ny = x" "pair" {}).module.declarations.map
        Declaration.span) "x = 1 // one\ny = x".length,
        TriviaRun "x = 1 // one\ny = x".toList.toArray gap.1 gap.2 :=
  ⟨by decide +kernel, (parse_gaps_trivia _ _ _ (by decide +kernel)).2.2⟩

end PklSyntax
