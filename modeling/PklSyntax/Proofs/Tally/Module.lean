import PklSyntax.Proofs.Course.Grammar
import PklSyntax.Proofs.Documentation.Classes
import PklSyntax.Proofs.Labels.Token
import PklSyntax.Proofs.Moving.Round
import PklSyntax.Proofs.Tally.Grammar

/-!
# The tally of modules

When a declaration is given up, the doc comments that were taken on the way are given back. When a
member of a class is given up they are not, although the class goes on behind it. They are *lost*:
they stay taken, so that nothing warns of them, but they are in no tree.

Nothing else is lost. What a declaration that is read has taken is what it holds, but for what is
lost in front of the brace that closes a class. That goes for all declarations of a module together,
and in the end those doc comments are left over that are not taken. Only for these is there a
warning.

Where a lost doc comment stands is told by what waits in front of the cursor. Behind the brace that
opens a class nothing waits, and from there on only doc comments behind the brace do.

## Main definitions

* `AwaitsFrom`, `Upkeep.losing`: only doc comments from some offset on can be taken, and whatever
  becomes of a production, it takes no others.
* `Accounted`: what is taken behind a row of declarations is what they hold, and what is lost.
* `Diagnostic.isOrphaned`: the warnings of doc comments that are left over.

## Main statements

* `ClassBodyRun.loses`: what a run over the body of a class takes.
* `Grammar.declarationRule_accounted`: what is taken behind a declaration.
* `Parser.nextDeclaration_accounted`: one more declaration, or one that is given up.
* `State.taken_add_orphans`: what is taken and what is left over is all that was found.
* `parse_orphanWarnings`: which doc comments are warned of.
* `parse_docs`: what becomes of the doc comments of a text.
-/

namespace PklSyntax

open HoldsDocs (held)

open PklSyntax.Parser

/-! ### Losses -/

/-- The cursor has reached the offset `lo`, and only doc comments from there on wait for what comes
next. All doc comments that were found end in front of the cursor. -/
structure AwaitsFrom (text : Array Char) (lo : Nat) (s : State) : Prop where
  lo_le : lo ≤ s.pos
  pos_le : s.pos ≤ text.size
  triviaEnd_le : ∀ i, s.triviaEnd = some i → i ≤ s.pos
  waiting : s.triviaEnd = some s.pos → ∀ doc ∈ s.docs.toList.drop s.runStart,
    (lo : Int) ≤ doc.span.start
  stop_le : ∀ doc ∈ s.docs.toList, doc.span.stop ≤ s.pos

namespace AwaitsFrom

variable {text : Array Char} {lo : Nat} {s : State}

/-- Where the cursor has moved on, nothing waits. -/
theorem moveTo (h : AwaitsFrom text lo s) {pos : Nat} (hkept : Kept text s { s with pos }) :
    AwaitsFrom text lo { s with pos } := by
  have hle := hkept.pos_le
  rw [Nat.min_eq_left h.pos_le] at hle
  exact {
    lo_le := h.lo_le.trans hle
    pos_le := hkept.pos_le_size h.pos_le
    triviaEnd_le := fun i hi => (h.triviaEnd_le i hi).trans hle
    waiting := fun hend => by
      obtain rfl : pos = s.pos := (h.triviaEnd_le pos hend).antisymm hle
      exact h.waiting hend
    stop_le := fun doc hdoc => (h.stop_le doc hdoc).trans (Int.ofNat_le.2 hle) }

/-- After trivia, the doc comments among them wait. -/
theorem skipTrivia (h : AwaitsFrom text lo s) : AwaitsFrom text lo (s.skipTrivia text) := by
  rw [State.skipTrivia]
  split
  · exact h
  have hle : s.pos ≤ skipEnd text s.pos := le_skipEnd s.pos
  have hdocs : (s.docs ++ docsFrom text s.pos).toList = s.docs.toList ++ docsFrom text s.pos :=
    Array.toList_appendList
  have hnew : ∀ doc ∈ docsFrom text s.pos, (lo : Int) ≤ doc.span.start := fun doc hdoc => by
    obtain ⟨start, stop, hspan, hstart, -⟩ := docsFrom_standsIn hdoc
    rw [hspan]
    exact Int.ofNat_le.2 (h.lo_le.trans hstart)
  refine {
    lo_le := h.lo_le.trans hle
    pos_le := skipEnd_le_size h.pos_le
    triviaEnd_le := fun i hi => (Option.some.inj hi).ge
    waiting := fun _ doc hdoc => ?_
    stop_le := fun doc hdoc => ?_ }
  · have hdoc : doc ∈ (s.docs.toList ++ docsFrom text s.pos).drop
        (if s.triviaEnd = some s.pos then s.runStart else s.docs.size) := hdocs ▸ hdoc
    rw [List.drop_append] at hdoc
    rcases List.mem_append.1 hdoc with hold | hdoc
    · split at hold
      next hend => exact h.waiting hend doc hold
      next =>
        rw [← Array.length_toList, List.drop_length] at hold
        cases hold
    · exact hnew doc (List.mem_of_mem_drop hdoc)
  · rcases List.mem_append.1 (hdocs ▸ hdoc) with hold | hdoc
    · exact (h.stop_le doc hold).trans (Int.ofNat_le.2 hle)
    · exact docsFrom_stop_le hdoc

/-- What is taken has waited. -/
theorem takeDoc (h : AwaitsFrom text lo s) :
    AwaitsFrom text lo s.takeDoc.2 ∧ ∀ doc ∈ held s.takeDoc.1, (lo : Int) ≤ doc.span.start := by
  refine ⟨?_, fun doc hdoc => ?_⟩
  · obtain ⟨attached, heq, -⟩ := s.takeDoc_eq
    rw [heq]
    exact ⟨h.lo_le, h.pos_le, h.triviaEnd_le, h.waiting, h.stop_le⟩
  · have hpending : s.pending = some doc := by
      rw [State.pending]
      cases htaken : s.takeDoc.1 with
      | none =>
        rw [htaken] at hdoc
        cases hdoc
      | some found =>
        rw [htaken] at hdoc
        rw [Multiset.mem_singleton.1 hdoc]
    obtain ⟨hend, hrun⟩ := State.runDoc?_of_pending hpending
    rw [State.runDoc?] at hrun
    split at hrun
    next hlt =>
      refine h.waiting hend doc (List.mem_of_getElem? (i := s.docs.size - 1 - s.runStart) ?_)
      rw [List.getElem?_drop, Array.getElem?_toList, ← hrun]
      congr 1
      omega
    next => cases hrun

/-- Behind the last token nothing waits yet. -/
theorem of_stands (hs : Stands text s s.pos)
    (hdocs : ∀ doc ∈ s.docs.toList, doc.span.stop ≤ s.pos) : AwaitsFrom text s.pos s where
  lo_le := le_refl _
  pos_le := hs.pos_le_size
  triviaEnd_le i hi := by
    rcases hs.place with ⟨-, hbefore⟩ | ⟨hend, -⟩
    · exact (hbefore i hi).le
    · exact (Option.some.inj (hi.symm.trans hend)).le
  waiting hend := by
    rcases hs.place with ⟨-, hbefore⟩ | ⟨-, hskip, hrun, -⟩
    · exact absurd (hbefore s.pos hend) (Nat.lt_irrefl _)
    · have hnone : docsFrom text s.pos = [] := by
        rw [hskip]
        exact docsFrom_skipEnd s.pos
      rw [hnone, State.runDoc?] at hrun
      split at hrun
      next hlt =>
        have hlast := Array.getElem?_eq_none_iff.1 hrun
        omega
      next hle =>
        rw [List.drop_eq_nil_of_le (by simpa using hle)]
        exact fun _ hdoc => absurd hdoc List.not_mem_nil
  stop_le := hdocs

end AwaitsFrom

theorem State.skipTrivia_spared (ctx : Context) (s : State) :
    Spared s (s.skipTrivia ctx.text) := by
  have hskip : skip ctx s = .ok () (s.skipTrivia ctx.text) := rfl
  exact Spares.spared hskip

/-- What is taken between the states are doc comments from the offset `lo` on, whatever becomes of
them. -/
structure Loses (lo : Nat) (s s' : State) : Prop where
  took : ∀ {B D}, Took B D s →
    ∃ lost, Took B (D + lost) s' ∧ ∀ doc ∈ lost, (lo : Int) ≤ doc.span.start

namespace Loses

variable {lo : Nat} {s s' s'' : State}

theorem of_spared (h : Spared s s') : Loses lo s s' :=
  ⟨fun hs => ⟨0, (hs.spared h).recount (add_zero _).symm, by simp⟩⟩

theorem trans (h : Loses lo s s') (h' : Loses lo s' s'') : Loses lo s s'' where
  took hs := by
    obtain ⟨lost, hs', hlost⟩ := h.took hs
    obtain ⟨lost', hs'', hlost'⟩ := h'.took hs'
    refine ⟨lost + lost', hs''.recount (add_assoc _ _ _), fun doc hdoc => ?_⟩
    exact (Multiset.mem_add.1 hdoc).elim (hlost doc) (hlost' doc)

end Loses

/-- When only doc comments from the offset `lo` on wait, no step takes any other. -/
def Upkeep.losing (ctx : Context) (lo : Nat) : Upkeep where
  ctx := ctx
  holds s s' := AwaitsFrom ctx.text lo s → AwaitsFrom ctx.text lo s' ∧ Loses lo s s'
  refl s hs := ⟨hs, .of_spared (.refl s)⟩
  trans h h' hs := ⟨(h' (h hs).1).1, (h hs).2.trans (h' (h hs).1).2⟩
  inMode mode h hs := by
    obtain ⟨hs', hloses⟩ := h ⟨hs.lo_le, hs.pos_le, hs.triviaEnd_le, hs.waiting, hs.stop_le⟩
    refine ⟨⟨hs'.lo_le, hs'.pos_le, hs'.triviaEnd_le, hs'.waiting, hs'.stop_le⟩, ⟨fun hs => ?_⟩⟩
    obtain ⟨lost, hs', hlost⟩ := hloses.took ⟨hs.nodup, hs.lt, hs.taken_eq⟩
    exact ⟨lost, ⟨hs'.nodup, hs'.lt, hs'.taken_eq⟩, hlost⟩
  moveTo hkept hs := ⟨hs.moveTo hkept, .of_spared ⟨rfl, hkept.docs⟩⟩
  report _ _ _ _ hs := ⟨⟨hs.lo_le, hs.pos_le, hs.triviaEnd_le, hs.waiting, hs.stop_le⟩,
    .of_spared ⟨rfl, List.prefix_rfl⟩⟩
  skipTrivia s hs := ⟨hs.skipTrivia, .of_spared (s.skipTrivia_spared ctx)⟩
  takeDoc s hs := ⟨hs.takeDoc.1, ⟨fun htook => ⟨_, htook.takeDoc, hs.takeDoc.2⟩⟩⟩

/-- A production of which only doc comments from the offset `lo` on are lost. -/
theorem Parser.loses_of_upkept {α : Type} {p : Parser α} [Upkept p] {ctx : Context} {s s' : State}
    {lo : Nat} (hs : AwaitsFrom ctx.text lo s) (hrun : endState (p ctx s) = s') :
    AwaitsFrom ctx.text lo s' ∧ Loses lo s s' := by
  have hupheld : AwaitsFrom ctx.text lo s → AwaitsFrom ctx.text lo (endState (p ctx s)) ∧
      Loses lo s (endState (p ctx s)) := Upkept.upholds (Upkeep.losing ctx lo) s
  exact hrun ▸ hupheld hs

/-- What a run over the body of a class takes, when the body is closed: the doc comments of the
members that it keeps, and perhaps those of members that it drops. -/
theorem ClassBodyRun.loses {g : Grammar} [g.Tallies] [g.Upkept] {ctx : Context} {s s' : State}
    {opening : Span} {entries : List MemberEntry} {ending : ClassBodyEnd} {lo : Nat}
    {B D : Multiset DocComment} (h : ClassBodyRun g ctx opening s entries ending s')
    (hclosed : ending = .closed) (hs : AwaitsFrom ctx.text lo s) (htook : Took B D s) :
    (∀ doc ∈ s'.docs.toList, doc.span.stop < s'.pos) ∧
      ∃ lost, Took B (D + held (entries.filterMap MemberEntry.member?) + lost) s' ∧
        (lost = 0 ∨ ∃ fault, .dropped fault ∈ entries) ∧
        ∀ doc ∈ lost, (lo : Int) ≤ doc.span.start := by
  induction h generalizing D with
  | @closed s u hskip hlt hclose =>
    subst hskip
    refine ⟨fun doc hdoc => ?_, 0, ?_, .inl rfl, by simp⟩
    · exact Int.lt_add_one_of_le (hs.skipTrivia.stop_le doc hdoc)
    · have hclosing : Spared s { s.skipTrivia ctx.text with
          pos := (s.skipTrivia ctx.text).pos + 1 } :=
        (s.skipTrivia_spared ctx).trans ⟨rfl, List.prefix_rfl⟩
      exact (htook.spared hclosing).recount (by simp)
  | unclosed => cases hclosed
  | limit => cases hclosed
  | @dropped s u t s' fault entries ending hskip hat hrun hfault hlimit hrest ih =>
    subst hskip
    -- Whatever the member has taken is lost.
    obtain ⟨ht, hloses⟩ := loses_of_upkept hs.skipTrivia (congrArg endState hrun)
    obtain ⟨lost, htook', hlost⟩ := hloses.took (htook.spared (s.skipTrivia_spared ctx))
    have hkept := @Grammar.kept_memberResume ctx t (s.skipTrivia ctx.text).pos
    obtain ⟨hbound, lost', htook'', -, hlost'⟩ := ih hclosed (ht.moveTo hkept)
      (htook'.spared ⟨rfl, hkept.docs⟩)
    refine ⟨hbound, lost + lost', htook''.recount ?_, .inr ⟨fault, List.mem_cons_self ..⟩, ?_⟩
    · simp only [List.filterMap_cons, MemberEntry.member?_dropped]
      ac_rfl
    · exact fun doc hdoc => (Multiset.mem_add.1 hdoc).elim (hlost doc) (hlost' doc)
  | @kept s u t s' member entries ending hskip hat hrun hrest ih =>
    subst hskip
    have ht := (loses_of_upkept hs.skipTrivia (congrArg endState hrun)).1
    have htook' := Grammar.Tallies.classMember.of_ok_add
      ((htook.spared (s.skipTrivia_spared ctx)).recount (add_zero D).symm) hrun
    obtain ⟨hbound, lost, htook'', hdropped, hlost⟩ := ih hclosed ht htook'
    refine ⟨hbound, lost, htook''.recount ?_, hdropped.imp_right ?_, hlost⟩
    · simp only [List.filterMap_cons, MemberEntry.member?_kept, held_cons]
      ac_rfl
    · exact fun ⟨fault, hfault⟩ => ⟨fault, List.mem_cons_of_mem _ hfault⟩

/-! ### Classes and declarations -/

/-- What is taken has been found. -/
theorem Took.mem_docs {B D : Multiset DocComment} {s : State} (h : Took B D s) {doc : DocComment}
    (hdoc : doc ∈ D) : doc ∈ s.docs.toList := by
  have htaken : doc ∈ s.taken := h.taken_eq ▸ Multiset.mem_add.2 (.inr hdoc)
  obtain ⟨i, -, hi⟩ := List.mem_filterMap.1 (Multiset.mem_coe.1 htaken)
  exact Array.mem_toList_iff.2 (Array.mem_of_getElem? hi)

/-- The declaration is a class, and the doc comment stands within it. -/
def Declaration.Encloses (decl : Declaration) (doc : DocComment) : Prop :=
  ∃ c, decl = .classDecl c ∧ c.span.start < doc.span.start ∧ doc.span.stop < c.span.stop

/-- What is taken is what the declarations hold, besides what was taken before, and what is lost. If
anything is, an error is on record; and it stands within classes among the declarations. -/
structure Accounted (B : Multiset DocComment) (decls : List Declaration)
    (lost : Multiset DocComment) (s : State) : Prop where
  took : Took B (held decls + lost) s
  hasError : lost = 0 ∨ s.HasError
  encloses : ∀ doc ∈ lost, ∃ decl ∈ decls, decl.Encloses doc

instance : HoldsDocs ClassHead :=
  ⟨fun head => held head.before + held head.typeParams + held head.parent⟩

attribute [local simp] Node.children Node.fields ClassDecl.fields documentationFields add_assoc
  add_comm add_left_comm in
theorem held_withBody (head : ClassHead) (body? : Option (List ClassMember × Int)) :
    held (head.withBody body?) = held head + held body? := by
  have hhead : held head = held head.before + held head.typeParams + held head.parent := rfl
  refine (held_eq rfl).trans ?_
  rw [hhead, held_preamble]
  cases body? with
  | none => simp [ClassHead.withBody]
  | some body =>
    obtain ⟨members, stop⟩ := body
    simp [ClassHead.withBody]

namespace Grammar

variable {g : Grammar} [g.Tallies] [g.Upkept] {ctx : Context} {s : State}
  {B D E : Multiset DocComment}

theorem leaves_of_tallies {α : Type} [HoldsDocs α] {p : Parser α} [h : Parser.Tallies p E]
    [Keeps Steady p] (hs : Took B (D + E) s) :
    p.Leaves Steady ctx s fun a s' => Took B (D + held a) s' :=
  .of_run fun _ _ _ hrun => h.of_ok_add hs hrun

open Parser.Tallies in
instance (before : Preamble) : Parser.Tallies (g.classHead before) (held before) :=
  keep fun _ => keep fun _ => take fun ⟨_, _⟩ => keep fun _ => branch fun _ => pure rfl

omit [g.Tallies] in
instance (before : Preamble) : Parser.Upkept (g.classHead before) where
  upholds U := (advance_upholds _).bind fun _ => (expectName_upholds _).bind fun _ =>
    ((Upkept.upholds U : g.Upholds U).typeParameters _).bind fun _ =>
      announced_upholds (acceptKeyword_upholds "extends") (Upkept.upholds U : g.Upholds U).type
        fun _ => .pure _

omit [g.Tallies] [g.Upkept] in
theorem classHead_gives (before : Preamble) :
    (g.classHead before).Gives fun head => head.before = before :=
  .after fun _ => .after fun _ => .after fun _ => .after fun _ =>
    .ite (fun _ => .after fun _ => .pure rfl) fun _ => .after fun _ => .pure rfl

/-- What is taken behind the body of a class is what its members hold, and what is lost. -/
theorem classBody_loses (htook : Took B D s) :
    g.classBody.Leaves Steady ctx s fun body s' => ∃ lost, Took B (D + held body + lost) s' ∧
      (lost = 0 ∨ s'.HasError) ∧
      ∀ doc ∈ lost, (s.pos : Int) < doc.span.start ∧ doc.span.stop < body.2 := by
  have : Parser.Upkept g.classBody := ⟨fun U => (Upkept.upholds U).classBody⟩
  refine .of_run fun hs body s' hrun => ?_
  have hgrows : g.Grows ctx := Tallies.grows ctx
  obtain ⟨opening, s₁, entries, hopening, hentries, rfl⟩ := hgrows.classBody_of_ok hrun
  have hs₁ : Steady ctx s₁ := Keeps.of_ok hs hopening
  obtain ⟨-, i, htrivia, -, -, hpos, hstands⟩ := openingBrace_leaves.of_ok hs hopening
  -- Behind the brace no doc comment waits that was found in front of it.
  have hawaits : AwaitsFrom ctx.text s₁.pos s₁ := .of_stands (hpos ▸ hstands) hs₁.docs_le
  obtain ⟨hbound, lost, htook', hdropped, hlost⟩ :=
    hentries.loses rfl hawaits (htook.spared (Spares.spared hopening))
  refine ⟨lost, htook', hdropped.imp_right ?_, fun doc hdoc => ⟨?_, ?_⟩⟩
  · rintro ⟨fault, hfault⟩
    refine State.hasError_of_mem_faults (d := fault) ?_
    rw [hentries.faults_eq hgrows, List.mem_append, List.mem_append, List.mem_filterMap]
    exact .inl (.inr ⟨_, hfault, rfl⟩)
  · have hle := hlost doc hdoc
    have hmoved := htrivia.le
    omega
  · exact hbound doc (htook'.mem_docs (Multiset.mem_add.2 (.inr hdoc)))

/-- What is taken behind a class is what it holds, and what is lost within it. -/
theorem classRule_accounted {before : Preamble} (htook : Took B (held before) s)
    (hstart : before.start ≤ s.pos) :
    (g.classRule before).Leaves Steady ctx s fun decl s' => ∃ lost,
      Accounted B [.classDecl decl] lost s' := by
  rw [classRule_eq]
  refine ((leaves_of_tallies (htook.recount (zero_add _).symm)).and
    (forward_leaves Parser.Upkept.upholds)).with_run.bind ?_
  rintro head s₁ ⟨hrun₁, htook₁, hpos₁⟩
  have hbefore : head.before = before := (classHead_gives before).of_ok hrun₁
  refine (forward_leaves fun _ => atToken_upholds _).with_run.bind ?_
  rintro found s₂ ⟨hrun₂, hpos₂⟩
  have htook₂ := htook₁.spared (Spares.spared hrun₂)
  rw [zero_add] at htook₂
  refine .branch (P := fun body? s' => ∃ lost, Took B (held head + held body? + lost) s' ∧
    (lost = 0 ∨ s'.HasError) ∧ ∀ doc ∈ lost, ∃ body ∈ body?,
      (s₂.pos : Int) < doc.span.start ∧ doc.span.stop < body.2)
    (fun _ => .map ?_) (fun _ => .pure ?_) ?_
  · refine (classBody_loses htook₂).mono ?_
    rintro body s₃ ⟨lost, htook₃, herror, hlost⟩
    exact ⟨lost, htook₃, herror, fun doc hdoc => ⟨body, rfl, hlost doc hdoc⟩⟩
  · exact ⟨0, by simpa using htook₂, .inl rfl, by simp⟩
  · rintro body? s₃ ⟨lost, htook₃, herror, hlost⟩
    refine .pure ⟨lost, htook₃.recount ?_, herror, fun doc hdoc => ?_⟩
    · rw [← held_withBody, held_cons, held_nil, add_zero]
      rfl
    · obtain ⟨body, hbody, hlo, hhi⟩ := hlost doc hdoc
      obtain rfl : body? = some body := hbody
      refine ⟨_, List.mem_singleton_self _, _, rfl, ?_, hhi⟩
      show head.before.start < doc.span.start
      rw [hbefore]
      omega

/-- What is taken behind a declaration is what it holds, and what is lost within it. -/
theorem declarationRule_accounted (hplaces : g.Places ctx) (htook : Took B 0 s) :
    g.declarationRule.Leaves Steady ctx s fun decl s' => ∃ lost, Accounted B [decl] lost s' := by
  have hbefore : g.preamble.Leaves Steady ctx s fun before s' => before.start ≤ s'.pos :=
    leaves_of_yields (fun c => hplaces.preamble) fun c before s' c' _ h => by
      have hle := h.1.row.le
      rw [← h.1.start_eq] at hle
      exact hle
  refine ((leaves_of_tallies (htook.recount (zero_add _).symm)).and hbefore).bind ?_
  rintro before s₁ ⟨htook₁, hstart⟩
  have hdone {α : Type} [HoldsDocs α] {p : Parser α} [Parser.Tallies p (held before)]
      {decl : α → Declaration} (hp : ∀ U, p.Upholds U) (hdecl : ∀ a, held (decl a) = held a) :
      (p >>= fun a => pure (decl a)).Leaves Steady ctx s₁ fun decl s' =>
        ∃ lost, Accounted B [decl] lost s' := by
    have : Parser.Upkept p := ⟨hp⟩
    refine (leaves_of_tallies htook₁).bind fun a s₂ htook₂ => .pure
      ⟨0, htook₂.recount ?_, .inl rfl, by simp⟩
    rw [held_cons, held_nil, hdecl, zero_add, add_zero, add_zero]
  have hg (U : Upkeep) : g.Upholds U := Upkept.upholds U
  refine .look (atWord_looks _) (.ite (fun _ =>
    hdone (fun U => moduleClauseRule_upholds before) fun _ => rfl) fun _ => ?_)
  refine .look (atWord_looks _) (.ite (fun _ =>
    hdone (fun U => (hg U).importRule before) fun _ => rfl) fun _ => ?_)
  refine .look (atWord_looks _) (.ite (fun _ =>
    hdone (fun U => (hg U).extendsRule before) fun _ => rfl) fun _ => ?_)
  refine .look (atWord_looks _) (.ite (fun _ =>
    hdone (fun U => (hg U).amendsRule before) fun _ => rfl) fun _ => ?_)
  refine .look (atWord_looks _) (.ite (fun _ =>
    hdone (fun U => (hg U).typeAliasRule before) fun _ => rfl) fun _ => ?_)
  refine .look (atWord_looks _) (.ite (fun _ => ?_) fun _ => ?_)
  · exact (classRule_accounted (by simpa using htook₁) hstart).bind fun decl s₂ h => .pure h
  refine .look (atWord_looks _) (.ite (fun _ =>
    hdone (fun U => (hg U).functionRule before) fun _ => rfl) fun _ => ?_)
  exact .look atIdentifier_looks (.ite (fun _ =>
    hdone (fun U => (hg U).propertyRule before) fun _ => rfl) fun _ => failDeclaration_leaves)

end Grammar

/-! ### Modules -/

namespace Accounted

variable {B : Multiset DocComment} {decls : List Declaration} {decl : Declaration}
  {lost lost' : Multiset DocComment} {s s' : State}

theorem spared (h : Accounted B decls lost s) (hs : Spared s s')
    (herror : s.HasError → s'.HasError) : Accounted B decls lost s' :=
  ⟨h.took.spared hs, h.hasError.imp_right herror, h.encloses⟩

/-- One more declaration, with what is lost within it. -/
theorem snoc (h : Accounted B decls lost s)
    (h' : Accounted (B + (held decls + lost)) [decl] lost' s')
    (herror : s.HasError → s'.HasError) : Accounted B (decls ++ [decl]) (lost + lost') s' where
  took := by
    refine (Took.regroup.1 h'.took).recount ?_
    rw [held_append]
    ac_rfl
  hasError := by
    rcases h.hasError with rfl | hs
    · rw [zero_add]
      exact h'.hasError
    · exact .inr (herror hs)
  encloses doc hdoc := by
    rcases Multiset.mem_add.1 hdoc with hdoc | hdoc
    · obtain ⟨decl', hdecl', hencloses⟩ := h.encloses doc hdoc
      exact ⟨decl', List.mem_append_left _ hdecl', hencloses⟩
    · obtain ⟨decl', hdecl', hencloses⟩ := h'.encloses doc hdoc
      exact ⟨decl', List.mem_append_right _ hdecl', hencloses⟩

end Accounted

/-- The doc comments that are taken and those that are left over are all that were found. -/
theorem State.taken_add_orphans {s : State} (hnodup : s.attached.Nodup)
    (hlt : ∀ i ∈ s.attached, i < s.docs.size) : s.taken + s.orphans = s.docs.toList := by
  have hnumbers (q : Nat → Bool) : (s.docs.toList.zipIdx.filter (q ·.2)).map Prod.fst =
      ((List.range s.docs.size).filter q).filterMap (s.docs[·]?) := by
    have hrange : List.range s.docs.size = s.docs.toList.zipIdx.map Prod.snd := by
      simp [List.range_eq_range']
    rw [hrange, List.filter_map, List.filterMap_map, ← List.filterMap_eq_map']
    refine List.filterMap_congr fun ⟨doc, i⟩ hmem => ?_
    have hdoc := List.mem_zipIdx' (List.mem_filter.1 hmem).1
    simp [hdoc.2]
  have htaken : s.taken =
      ((s.docs.toList.zipIdx.filter (s.attached.contains ·.2)).map Prod.fst :) := by
    rw [hnumbers, State.taken, Multiset.coe_eq_coe]
    refine List.Perm.filterMap _ ((List.perm_ext_iff_of_nodup hnodup ?_).2 fun i => ?_)
    · exact List.nodup_range.filter _
    · simpa using hlt i
  rw [htaken, State.orphans, Multiset.coe_add, ← List.map_append, Multiset.coe_eq_coe]
  refine ((List.filter_append_perm _ _).map Prod.fst).trans ?_
  rw [List.zipIdx_map_fst]

namespace Parser

variable {ctx : Context} {s s' v : State} {progress progress' : Progress}
  {lost : Multiset DocComment}

/-- Behind one more declaration. What was taken for one that is given up is given back. -/
theorem nextDeclaration_accounted (h : Accounted 0 progress.declarations.toList lost s) :
    (nextDeclaration progress).Leaves Steady ctx s fun progress s' => ∃ lost,
      Accounted 0 progress.declarations.toList lost s' where
  of_ok {progress' v} hs hrun := by
    cases hdecl : Grammar.full.declarationRule ctx s with
    | ok decl t =>
      have htook : Took (0 + (held progress.declarations.toList + lost)) 0 s :=
        Took.regroup.2 (h.took.recount (add_zero _).symm)
      obtain ⟨ht, lost', hread⟩ :=
        (Grammar.declarationRule_accounted (Grammar.places_full ctx) htook).of_ok hs hdecl
      have hkept := ((Grammar.grows_full ctx).declaration_of_ok hdecl).1
      have hmore := h.snoc hread (·.mono hkept.diagnostics)
      rw [nextDeclaration_eq_of_ok progress hdecl] at hrun
      have hreports : ((progress.header.problems decl).forM fun problem =>
          report problem decl.span).Leaves Steady ctx t fun _ s' =>
            Accounted 0 (progress.declarations.push decl).toList (lost + lost') s' := by
        refine (forM_report_leaves _ _).with_run.mono ?_
        rintro _ u ⟨hreport, -⟩
        rw [forM_report_run (fun problem => problem) fun _ => decl.span] at hreport
        cases hreport
        rw [Array.toList_push]
        exact hmore.spared ⟨rfl, List.prefix_rfl⟩ (·.mono (by simp))
      exact (hreports.bind (Q := fun progress s' => ∃ lost,
        Accounted 0 progress.declarations.toList lost s') fun _ _ h => .pure ⟨_, h⟩).of_ok ht hrun
    | error stop t =>
      obtain ⟨rfl, hv, herror, hattached, hdocs⟩ := nextDeclaration_of_error hs hdecl hrun
      exact ⟨hv, lost, h.spared ⟨hattached, hdocs⟩ fun _ => herror⟩

/-- Behind the declarations of a text. -/
theorem declarationRounds_accounted :
    (repeating declarationRound {}).Leaves Steady ctx {} fun progress s => ∃ lost,
      Accounted 0 progress.declarations.toList lost s := by
  refine .repeating (fun progress s => ∃ lost, Accounted 0 progress.declarations.toList lost s)
    ⟨0, ⟨.nil, nofun, rfl⟩, .inl rfl, by simp⟩ ?_
  rintro progress s ⟨lost, h⟩
  refine (Leaves.of_run (P := fun _ s' => Accounted 0 progress.declarations.toList lost s')
    fun _ _ _ hskip => h.spared (Spares.spared hskip)
      (·.mono (skip_grows.of_ok hskip).1.toKept.diagnostics)).bind fun _ s₁ h₁ => ?_
  exact .look atEnd_looks (.look limitReached_looks (.ite (fun _ => .pure ⟨lost, h₁⟩) fun _ =>
    (nextDeclaration_accounted h₁).bind fun _ _ h => .pure h))

end Parser

/-! ### Doc comments that are left over -/

/-- The diagnostic is the warning of a doc comment that no declaration has taken. -/
def Diagnostic.isOrphaned (d : Diagnostic) : Bool := d.code == "W300"

theorem isOrphaned_eq_false {problem : Problem} (span : Span) (h : problem ≠ .orphanedDocComment) :
    (problem.diagnostic span).isOrphaned = false := by
  cases problem with
  | orphanedDocComment => exact absurd rfl h
  | _ => rfl

/-- The warnings of the doc comments that are left over are in the order of the text. -/
theorem State.orphanWarnings_pairwise (options : Options) {s : State}
    (h : s.docs.toList.Pairwise DocComment.Precedes) :
    (s.orphanWarnings options).Pairwise fun a b => a.offset ≤ b.offset := by
  have hsub : s.orphans.Sublist s.docs.toList := by
    have hfilter := (List.filter_sublist (l := s.docs.toList.zipIdx)
      (p := fun x => !s.attached.contains x.2)).map Prod.fst
    rwa [List.zipIdx_map_fst] at hfilter
  rw [orphanWarnings]
  split
  · exact List.pairwise_map.2 ((h.sublist hsub).imp fun hprecedes => hprecedes.1.le)
  · exact .nil

/-- No step of a production warns of a doc comment that is left over. -/
def orphanUpkeep (ctx : Context) : Upkeep :=
  .silent ctx Diagnostic.isOrphaned fun _ span h => isOrphaned_eq_false span fun heq => by
    subst heq
    cases h

namespace Parser

variable {ctx : Context} {s s' v : State} {progress progress' : Progress}

/-- Neither does anything that is done behind a declaration. -/
theorem nextDeclaration_orphaned (hnext : nextDeclaration progress ctx s = .ok progress' v) :
    v.onRecord Diagnostic.isOrphaned = s.onRecord Diagnostic.isOrphaned := by
  have hsame : (endState (Grammar.full.declarationRule ctx s)).onRecord Diagnostic.isOrphaned =
      s.onRecord Diagnostic.isOrphaned :=
    (Grammar.upholds_full (orphanUpkeep ctx)).declarationRule s
  cases hrun : Grammar.full.declarationRule ctx s with
  | ok decl t =>
    rw [hrun] at hsame
    rw [nextDeclaration_eq_of_ok progress hrun, bind_apply,
      forM_report_run (fun problem => problem) fun _ => decl.span] at hnext
    cases hnext
    refine (t.onRecord_append _ _).trans ?_
    rw [List.filter_eq_nil_iff.2, List.append_nil]
    · exact hsame
    · intro d hd
      obtain ⟨problem, hproblem, rfl⟩ := List.mem_map.1 hd
      rw [Bool.not_eq_true]
      refine isOrphaned_eq_false _ ?_
      rintro rfl
      obtain ⟨_, h⟩ | ⟨_, h⟩ | ⟨_, h⟩ := Header.problems_cases hproblem <;> cases h
  | error stop t =>
    rw [hrun] at hsame
    cases stop with
    | failed =>
      rw [nextDeclaration_of_failed hrun] at hnext
      cases hnext
      exact hsame
    | tooDeep =>
      rw [nextDeclaration_of_tooDeep hrun ((Grammar.grows_full ctx).declaration_of_error hrun)]
        at hnext
      cases hnext
      exact s.onRecord_push (isOrphaned_eq_false _ nofun)
    | stalled =>
      rw [nextDeclaration_of_stalled hrun] at hnext
      cases hnext

end Parser

/-- Nothing is warned of as left over while declarations are read. -/
theorem ModuleRun.orphaned_eq {ctx : Context} {progress progress' : Progress} {s s' : State}
    {calls : List DeclarationCall} (h : ModuleRun ctx progress s calls progress' s') :
    s'.onRecord Diagnostic.isOrphaned = s.onRecord Diagnostic.isOrphaned := by
  induction h with
  | done hskip _ => exact hskip ▸ (orphanUpkeep ctx).skipTrivia _
  | call hskip _ _ hnext _ ih =>
    exact (ih.trans (nextDeclaration_orphaned hnext)).trans
      (hskip ▸ (orphanUpkeep ctx).skipTrivia _)

/-! ### The result of a parse -/

/-- The doc comments of a text stand one behind the other. -/
theorem docs_pairwise_of_run {ctx : Context} {decls : List Declaration} {s : State}
    (hrun : moduleDeclarations ctx {} = .ok decls s) :
    s.docs.toList.Pairwise DocComment.Precedes := by
  have hend := (Parser.Orderly.moduleDeclarations.orderlyFrom ctx {} rfl).endState (.initial _)
  rw [hrun] at hend
  exact hend.docs_pairwise

/-- The doc comments that are left over are warned of in the order of the text, when that is asked
for, and no others. -/
theorem parse_orphanWarnings {text filename : String} {options : Options}
    {decls : List Declaration} {s : State}
    (hrun : moduleDeclarations ⟨text.toList.toArray, options⟩ {} = .ok decls s) :
    (parse text filename options).diagnostics.filter Diagnostic.isOrphaned =
      s.orphanWarnings options := by
  obtain ⟨progress, t, s', hrounds, horphans, -, hrun'⟩ :=
    moduleDeclarations_rounds ⟨text.toList.toArray, options⟩
  cases hrun.symm.trans hrun'
  obtain ⟨calls, hcalls⟩ := rounds_declarations hrounds
  rw [reportOrphans_eq] at horphans
  cases horphans
  have hall : ∀ d ∈ t.orphanWarnings options, d.isOrphaned = true := fun d hd => by
    obtain ⟨doc, -, rfl⟩ := State.mem_orphanWarnings hd
    rfl
  rw [parse_of_run hrun, ← inTextOrder_filter, inTextOrder, Array.toList_filter]
  show (State.onRecord _ Diagnostic.isOrphaned).mergeSort _ = _
  rw [t.onRecord_append, hcalls.orphaned_eq, List.filter_eq_self.2 hall]
  exact List.mergeSort_of_pairwise
    ((State.orphanWarnings_pairwise options (docs_pairwise_of_run hrun)).imp decide_eq_true)

/-- What becomes of the doc comments of a text. They stand one behind the other, and each of them is
either one of the tree, or left over, or lost, as often as it was found. Those that are left over
are warned of, when that is asked for, and no others. What is lost stands within a class of the
module, and in a text without errors nothing is. -/
theorem parse_docs (text filename : String) (options : Options) :
    let result := parse text filename options
    ∃ (s : State) (lost : List DocComment),
      moduleDeclarations ⟨text.toList.toArray, options⟩ {} = .ok result.module.declarations s ∧
      s.docs.toList.Pairwise DocComment.Precedes ∧
      s.docs.toList.Perm ((Node.module result.module).docs ++ s.orphans ++ lost) ∧
      result.diagnostics.filter (·.code == "W300") = s.orphanWarnings options ∧
      (∀ doc ∈ lost, ∃ decl ∈ result.module.declarations, decl.Encloses doc) ∧
      (result.hasErrors = false → lost = []) := by
  intro result
  obtain ⟨progress, t, s, hrounds, horphans, -, hrun⟩ :=
    moduleDeclarations_rounds ⟨text.toList.toArray, options⟩
  have hloop : repeating declarationRound {} ⟨text.toList.toArray, options⟩ {} = .ok progress t :=
    hrounds
  obtain ⟨-, lost, haccounted⟩ := declarationRounds_accounted.of_ok (.initial _) hloop
  obtain ⟨lost, rfl⟩ : ∃ l : List DocComment, (l : Multiset DocComment) = lost :=
    Quot.exists_rep lost
  have hresult : result = ⟨⟨progress.declarations.toList, filename,
      .ofNat 0 text.toList.toArray.size⟩, inTextOrder s.diagnostics⟩ := parse_of_run hrun
  rw [reportOrphans_eq] at horphans
  cases horphans
  refine ⟨_, lost, by rw [hresult]; exact hrun, docs_pairwise_of_run hrun, ?_,
    parse_orphanWarnings hrun, ?_, ?_⟩
  · rw [hresult, ← Multiset.coe_eq_coe, ← Multiset.coe_add, ← Multiset.coe_add]
    have hmodule : held (Node.module ⟨progress.declarations.toList, filename,
        .ofNat 0 text.toList.toArray.size⟩) = held progress.declarations.toList :=
      (held_eq rfl).trans (by simp [Node.children, Node.fields])
    have htook := haccounted.took
    calc (t.docs.toList : Multiset DocComment) = t.taken + t.orphans :=
          (State.taken_add_orphans htook.nodup htook.lt).symm
      _ = held progress.declarations.toList + lost + t.orphans := by rw [htook.taken_eq, zero_add]
      _ = held (Node.module _) + t.orphans + lost := by rw [hmodule]; ac_rfl
  · intro doc hdoc
    rw [hresult]
    exact haccounted.encloses doc hdoc
  · intro hnone
    rw [hresult, ParseResult.hasErrors_eq_false, ParseResult.errors, filter_isError_inTextOrder,
      sortedByOffset_eq_nil, State.errors_eq_nil] at hnone
    have hzero := haccounted.hasError.resolve_right fun herror => hnone (herror.mono (by simp))
    exact (Multiset.coe_eq_zero lost).1 hzero

/-- The doc comment of a member that is given up is lost. -/
example :
    let result := parse "class A \x7b\n  /// doc\n  x y\n  z = 1\n\x7d\n" "m" {}
    (Node.module result.module).docs = [] ∧ result.diagnostics.map Diagnostic.code = ["E203"] := by
  decide +kernel

end PklSyntax
