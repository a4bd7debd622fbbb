import PklSyntax.Proofs.Growth.Object

/-!
# Growth: bodies of classes

The body of a class goes on behind a member that was given up, unless there are errors enough. A
*run* over a body is the row of the members that were begun, each of them either kept or dropped for
a fault. What is recorded on the way is one fault for each member that was dropped, and one more
when the text ends within the body.

A declaration either reaches the body of a class, and then is read by a run over it, or it is read in
one go as all other constructs are.

## Main definitions

* `Grammar.classRound`: one round of the loop over the members.
* `MemberEntry`, `ClassBodyEnd`, `ClassBodyRun`: the runs over a body.
* `Grammar.classOpening`: a class declaration up to the brace that opens its body.

## Main statements

* `Grammar.classRound_apply`: what a round does.
* `ClassBodyRun.faults_eq`: a run records one fault for each member that it drops.
* `Grammar.Grows.classRounds`, `Grammar.Grows.classBody_of_ok`: the loop over the members is a run,
  and so is a body that is read.
* `Grammar.Grows.declarationRule`, `Grammar.Grows.classDeclaration`: declarations without the body of
  a class, and with one.
-/

namespace PklSyntax

open PklSyntax.Parser

namespace Grammar

/-- A round of the loop over the members of a class. -/
def classRound (g : Grammar) (opening : Span) (members : Array ClassMember) :
    Parser (Round (Array ClassMember) (Array ClassMember)) := do
  skip
  if ← atEnd then failWith .unclosedClassBody opening
  if (← peek) == '\x7d' then
    advance 1
    return .done members
  let start ← position
  match ← attempt g.classMember with
  | some member => return .next (members.push member)
  | none =>
    if ← limitReached then throw .failed
    skipMember start
    return .next members

theorem classBody_eq (g : Grammar) :
    g.classBody = do
      let opening ← expect "\x7b"
      let members ← repeating (g.classRound opening) #[]
      return (members.toList, ← position) := rfl

variable {g : Grammar} {ctx : Context} {s s' t : State} {opening : Span}

/-- The offset at which the members go on after the one that began at `start` was given up. -/
def memberResume (text : Array Char) (start pos : Nat) : Nat :=
  memberRestart text start pos ((text.extract start pos).foldl braceDepth 0).toNat

/-- Going on behind a member that was given up loses nothing. -/
theorem kept_memberResume (start : Nat) :
    Kept ctx.text s { s with pos := memberResume ctx.text start s.pos } := by
  have hrestart (depth) := @memberRestart_spec ctx.text start s.pos depth
  have hle := (hrestart ((ctx.text.extract start s.pos).foldl braceDepth 0).toNat).1
  exact .moveTo (by rw [memberResume]; omega) (hrestart _).2

/-- What a round does from a place behind trivia. -/
theorem classRound_apply (members : Array ClassMember) {u : State}
    (hu : s.skipTrivia ctx.text = u) :
    g.classRound opening members ctx s =
      if ctx.text.size ≤ u.pos then
        .error .failed
          { u with
            diagnostics := u.diagnostics.push (Problem.unclosedClassBody.diagnostic opening) }
      else if charAt ctx.text u.pos = '\x7d' then
        .ok (.done members) { u with pos := min ctx.text.size (u.pos + 1) }
      else
        match g.classMember ctx u with
        | .ok member t => .ok (.next (members.push member)) t
        | .error .failed t =>
          if ctx.options.limitReached t = true then .error .failed t
          else .ok (.next members) { t with pos := memberResume ctx.text u.pos t.pos }
        | .error stop t => .error stop t := by
  have hskip : skip ctx s = .ok () u := by rw [← hu]; rfl
  rw [classRound, bind_apply, hskip]
  show (atEnd >>= _) ctx u = _
  rw [atEnd_looks.bind_apply]
  simp only [decide_eq_true_eq]
  split
  · rfl
  show (peek >>= _) ctx u = _
  rw [peek_looks.bind_apply]
  simp only [beq_iff_eq]
  split
  · rfl
  rw [position_looks.bind_apply, bind_apply, attempt]
  cases hrun : g.classMember ctx u with
  | ok member t => rfl
  | error stop t =>
    cases stop with
    | failed =>
      show (limitReached >>= _) ctx t = _
      rw [limitReached_looks.bind_apply]
      simp only
      split
      · rfl
      · rfl
    | tooDeep => rfl
    | stalled => rfl

end Grammar

/-! ### Runs over a body -/

/-- What became of a member of a class: it was kept, or dropped for a fault. -/
inductive MemberEntry where
  | kept (member : ClassMember)
  | dropped (fault : Diagnostic)

namespace MemberEntry

/-- The member, if it was kept. -/
def member? : MemberEntry → Option ClassMember
  | kept member => some member
  | dropped _ => none

/-- The fault for which the member was dropped, if it was. -/
def fault? : MemberEntry → Option Diagnostic
  | kept _ => none
  | dropped fault => some fault

@[simp] theorem member?_kept (member : ClassMember) : (kept member).member? = some member := rfl

@[simp] theorem member?_dropped (fault : Diagnostic) : (dropped fault).member? = none := rfl

@[simp] theorem fault?_kept (member : ClassMember) : (kept member).fault? = none := rfl

@[simp] theorem fault?_dropped (fault : Diagnostic) : (dropped fault).fault? = some fault := rfl

end MemberEntry

/-- Faults have no bearing on the cursor. -/
@[simp] theorem State.faults_moveTo (s : State) (pos : Nat) : { s with pos }.faults = s.faults := rfl

/-- How a body ends: with its brace, with the text, or with the limit on errors. -/
inductive ClassBodyEnd where
  | closed
  | unclosed
  | limit

/-- The faults that are recorded for the class itself. -/
def ClassBodyEnd.faults (opening : Span) : ClassBodyEnd → List Diagnostic
  | unclosed => [Problem.unclosedClassBody.diagnostic opening]
  | closed | limit => []

/-- A member of a class begins at the cursor, or something that is none. -/
def AtMember (text : Array Char) (s : State) : Prop :=
  s.pos < text.size ∧ charAt text s.pos ≠ '\x7d'

/-- A run over the body of a class that was opened at `opening`: the members that are begun from a
state on, up to the state in which the body ends. -/
inductive ClassBodyRun (g : Grammar) (ctx : Context) (opening : Span) :
    State → List MemberEntry → ClassBodyEnd → State → Prop
  | closed {s u : State} (hskip : s.skipTrivia ctx.text = u) (hlt : u.pos < ctx.text.size)
      (hclose : charAt ctx.text u.pos = '\x7d') :
      ClassBodyRun g ctx opening s [] .closed { u with pos := u.pos + 1 }
  | unclosed {s u : State} (hskip : s.skipTrivia ctx.text = u) (hend : ctx.text.size ≤ u.pos) :
      ClassBodyRun g ctx opening s [] .unclosed
        { u with diagnostics := u.diagnostics.push (Problem.unclosedClassBody.diagnostic opening) }
  | limit {s u t : State} {fault : Diagnostic} (hskip : s.skipTrivia ctx.text = u)
      (hat : AtMember ctx.text u) (hrun : g.classMember ctx u = .error .failed t)
      (hfault : t.diagnostics.back? = some fault) (hlimit : ctx.options.limitReached t = true) :
      ClassBodyRun g ctx opening s [.dropped fault] .limit t
  | dropped {s u t s' : State} {fault : Diagnostic} {entries : List MemberEntry}
      {ending : ClassBodyEnd} (hskip : s.skipTrivia ctx.text = u) (hat : AtMember ctx.text u)
      (hrun : g.classMember ctx u = .error .failed t)
      (hfault : t.diagnostics.back? = some fault) (hlimit : ctx.options.limitReached t = false)
      (hrest : ClassBodyRun g ctx opening
        { t with pos := Grammar.memberResume ctx.text u.pos t.pos } entries ending s') :
      ClassBodyRun g ctx opening s (.dropped fault :: entries) ending s'
  | kept {s u t s' : State} {member : ClassMember} {entries : List MemberEntry}
      {ending : ClassBodyEnd} (hskip : s.skipTrivia ctx.text = u) (hat : AtMember ctx.text u)
      (hrun : g.classMember ctx u = .ok member t)
      (hrest : ClassBodyRun g ctx opening t entries ending s') :
      ClassBodyRun g ctx opening s (.kept member :: entries) ending s'

namespace ClassBodyRun

variable {g : Grammar} {ctx : Context} {opening : Span} {s s' : State}
  {entries : List MemberEntry} {ending : ClassBodyEnd}

/-- A run loses nothing. -/
theorem kept_state (hg : g.Grows ctx) (h : ClassBodyRun g ctx opening s entries ending s') :
    Kept ctx.text s s' := by
  induction h with
  | closed hskip hlt _ =>
    subst hskip
    exact (Grown.skipTrivia _).toKept.trans (.moveTo (by omega) (by omega))
  | unclosed hskip _ =>
    subst hskip
    exact (Grown.skipTrivia _).toKept.trans (.push rfl rfl)
  | limit hskip _ hrun _ _ =>
    subst hskip
    exact (Grown.skipTrivia _).toKept.trans (hg.classMember.kept hrun)
  | dropped hskip _ hrun _ _ _ ih =>
    subst hskip
    exact ((Grown.skipTrivia _).toKept.trans (hg.classMember.kept hrun)).trans
      ((Grammar.kept_memberResume _).trans ih)
  | kept hskip _ hrun _ ih =>
    subst hskip
    exact ((Grown.skipTrivia _).toKept.trans (hg.classMember.of_ok hrun).1.toKept).trans ih

/-- A run records one fault for each member that it drops, and perhaps one for the class itself. -/
theorem faults_eq (hg : g.Grows ctx) (h : ClassBodyRun g ctx opening s entries ending s') :
    s'.faults = s.faults ++ entries.filterMap MemberEntry.fault? ++ ending.faults opening := by
  induction h with
  | closed hskip _ _ =>
    subst hskip
    simpa [ClassBodyEnd.faults] using (Grown.skipTrivia _).faults
  | unclosed hskip _ =>
    subst hskip
    have hfault : (Problem.unclosedClassBody.diagnostic opening).isFault = true := rfl
    simpa [State.faults, hfault, ClassBodyEnd.faults] using (Grown.skipTrivia _).faults
  | limit hskip _ hrun hfault _ =>
    subst hskip
    obtain ⟨fault, hback, hfaults⟩ := (hg.classMember.of_failed hrun).exists_fault
    obtain rfl := Option.some.inj (hfault.symm.trans hback)
    simpa [ClassBodyEnd.faults, (Grown.skipTrivia _).faults] using hfaults
  | dropped hskip _ hrun hfault _ _ ih =>
    subst hskip
    obtain ⟨fault, hback, hfaults⟩ := (hg.classMember.of_failed hrun).exists_fault
    obtain rfl := Option.some.inj (hfault.symm.trans hback)
    rw [ih, State.faults_moveTo, hfaults, (Grown.skipTrivia _).faults]
    simp
  | kept hskip _ hrun _ ih =>
    subst hskip
    rw [ih, (hg.classMember.of_ok hrun).1.faults, (Grown.skipTrivia _).faults]
    rfl

/-- The members that a run keeps are well-formed. -/
theorem wellFormed (hg : g.Grows ctx) (h : ClassBodyRun g ctx opening s entries ending s') :
    ∀ member ∈ entries.filterMap MemberEntry.member?, (Node.ofClassMember member).WellFormed := by
  induction h with
  | closed | unclosed | limit => simp
  | dropped _ _ _ _ _ _ ih => simpa using ih
  | kept _ _ hrun _ ih =>
    simpa using ⟨(hg.classMember.of_ok hrun).2.1, by simpa using ih⟩

end ClassBodyRun

namespace Grammar

variable {g : Grammar} {ctx : Context} {s s' : State} {opening : Span}

/-- What the loop over the members comes to: a run from a state on, in which the members that are
kept follow those that are there already. -/
def RunsBody (g : Grammar) (ctx : Context) (opening : Span) (s : State)
    (members : Array ClassMember) : EStateM.Result Stop State (Array ClassMember) → Prop
  | .ok result s' => ∃ entries, ClassBodyRun g ctx opening s entries .closed s' ∧
      result.toList = members.toList ++ entries.filterMap MemberEntry.member?
  | .error .failed s' => ∃ entries ending, ending ≠ .closed ∧
      ClassBodyRun g ctx opening s entries ending s'
  | .error _ s' => Kept ctx.text s s'

namespace RunsBody

variable {u t : State} {members : Array ClassMember}
  {result : EStateM.Result Stop State (Array ClassMember)}

theorem kept (hg : g.Grows ctx) {member : ClassMember} (hskip : s.skipTrivia ctx.text = u)
    (hat : AtMember ctx.text u) (hrun : g.classMember ctx u = .ok member t)
    (h : RunsBody g ctx opening t (members.push member) result) :
    RunsBody g ctx opening s members result := by
  have hkept : Kept ctx.text s t :=
    (hskip ▸ (Grown.skipTrivia s).toKept).trans (hg.classMember.of_ok hrun).1.toKept
  cases result with
  | ok result s' =>
    obtain ⟨entries, h, hresult⟩ := h
    exact ⟨_, .kept hskip hat hrun h, by simpa using hresult⟩
  | error stop s' =>
    cases stop with
    | failed =>
      obtain ⟨entries, ending, hending, h⟩ := h
      exact ⟨_, _, hending, .kept hskip hat hrun h⟩
    | tooDeep => exact hkept.trans h
    | stalled => exact hkept.trans h

theorem dropped (hg : g.Grows ctx) (hskip : s.skipTrivia ctx.text = u) (hat : AtMember ctx.text u)
    (hrun : g.classMember ctx u = .error .failed t) (hlimit : ctx.options.limitReached t = false)
    (h : RunsBody g ctx opening { t with pos := memberResume ctx.text u.pos t.pos } members
      result) : RunsBody g ctx opening s members result := by
  have hkept : Kept ctx.text s { t with pos := memberResume ctx.text u.pos t.pos } :=
    ((hskip ▸ (Grown.skipTrivia s).toKept).trans (hg.classMember.kept hrun)).trans
      (kept_memberResume u.pos)
  obtain ⟨fault, hfault, -⟩ := (hg.classMember.of_failed hrun).exists_fault
  cases result with
  | ok result s' =>
    obtain ⟨entries, h, hresult⟩ := h
    exact ⟨_, .dropped hskip hat hrun hfault hlimit h, hresult⟩
  | error stop s' =>
    cases stop with
    | failed =>
      obtain ⟨entries, ending, hending, h⟩ := h
      exact ⟨_, _, hending, .dropped hskip hat hrun hfault hlimit h⟩
    | tooDeep => exact hkept.trans h
    | stalled => exact hkept.trans h

end RunsBody

/-- The loop over the members is a run. The induction is on the rounds. -/
theorem Grows.classRounds (hg : g.Grows ctx) (opening : Span) (n : Nat)
    (members : Array ClassMember) (s : State) :
    RunsBody g ctx opening s members (rounds (g.classRound opening) n members ctx s) := by
  induction n generalizing members s with
  | zero => exact Kept.refl s
  | succ n ih =>
    obtain ⟨u, hskip⟩ : ∃ u, s.skipTrivia ctx.text = u := ⟨_, rfl⟩
    rw [rounds, bind_apply, classRound_apply members hskip]
    by_cases hend : ctx.text.size ≤ u.pos
    · rw [if_pos hend]
      exact ⟨[], .unclosed, nofun, .unclosed hskip hend⟩
    rw [if_neg hend]
    by_cases hclose : charAt ctx.text u.pos = '\x7d'
    · rw [if_pos hclose, Nat.min_eq_right (by omega)]
      exact ⟨[], .closed hskip (by omega) hclose, by simp⟩
    rw [if_neg hclose]
    have hat : AtMember ctx.text u := ⟨by omega, hclose⟩
    cases hrun : g.classMember ctx u with
    | ok member t => exact .kept hg hskip hat hrun (ih _ t)
    | error stop t =>
      have hkept := (hskip ▸ (Grown.skipTrivia s).toKept : Kept ctx.text s u).trans
        (hg.classMember.kept hrun)
      cases stop with
      | tooDeep => exact hkept
      | stalled => exact hkept
      | failed =>
        simp only
        cases hlimit : ctx.options.limitReached t with
        | true =>
          obtain ⟨fault, hfault, -⟩ := (hg.classMember.of_failed hrun).exists_fault
          exact ⟨_, .limit, nofun, .limit hskip hat hrun hfault hlimit⟩
        | false => exact .dropped hg hskip hat hrun hlimit (ih members _)

/-- What the body of a class comes to when it is read: a run behind the brace that opens it. -/
theorem Grows.classBody_of_ok (hg : g.Grows ctx) {body : List ClassMember × Int}
    (h : g.classBody ctx s = .ok body s') :
    ∃ opening t entries, expect "\x7b" ctx s = .ok opening t ∧
      ClassBodyRun g ctx opening t entries .closed s' ∧
      body = (entries.filterMap MemberEntry.member?, (s'.pos : Int)) := by
  rw [classBody_eq, bind_apply] at h
  cases hopening : expect "\x7b" ctx s with
  | error stop t =>
    rw [hopening] at h
    cases h
  | ok opening t =>
    simp only [hopening, bind_apply (repeating _ _)] at h
    have hloop : repeating (g.classRound opening) #[] ctx t =
        rounds (g.classRound opening) (ctx.text.size - t.pos + 1) #[] ctx t := rfl
    have hrun := hloop ▸ hg.classRounds opening (ctx.text.size - t.pos + 1) #[] t
    cases hmembers : repeating (g.classRound opening) #[] ctx t with
    | error stop u =>
      rw [hmembers] at h
      cases h
    | ok members u =>
      rw [hmembers] at h hrun
      cases h
      obtain ⟨entries, hentries, hkept⟩ := hrun
      exact ⟨opening, t, entries, rfl, hentries, congrArg (·, _) (by simpa using hkept)⟩

end Grammar

/-! ### Declarations -/

/-- Words that begin differently do not stand at the same place. -/
theorem wordAt_eq_false {text : Array Char} {i : Nat} {word other : String} {c d : Char}
    (h : wordAt text word i = true) (hword : word.toList[0]? = some c)
    (hother : other.toList[0]? = some d) (hne : c ≠ d) : wordAt text other i = false := by
  rw [Bool.eq_false_iff]
  intro h'
  exact hne ((charAt_of_matchesAt (matchesAt_of_wordAt h) hword).symm.trans
    (charAt_of_matchesAt (matchesAt_of_wordAt h') hother))

namespace Grammar

/-- The part of a class declaration up to the brace that opens its body. There is none when the
declaration is another one, or a class without a body. -/
def classOpening (g : Grammar) : Parser (Option (ClassHead × Span)) := do
  let before ← g.preamble
  if ← atWord "class" then
    let head ← g.classHead before
    if ← atToken "\x7b" then return some (head, ← expect "\x7b")
    else return none
  else return none

variable {g : Grammar} {ctx : Context} {s s' t : State} {head : ClassHead} {opening : Span}

/-- A declaration that is a class with a body is read up to its body, and then the body. -/
theorem declarationRule_of_opening (h : g.classOpening ctx s = .ok (some (head, opening)) t) :
    g.declarationRule ctx s =
      (do
        let members ← repeating (g.classRound opening) #[]
        let stop ← position
        return Declaration.classDecl (head.withBody (some (members.toList, stop)))) ctx t := by
  rw [classOpening, bind_apply] at h
  rw [declarationRule, bind_apply]
  cases hbefore : g.preamble ctx s with
  | error stop s' => rw [hbefore] at h; cases h
  | ok before s₁ =>
    simp only [hbefore, (atWord_looks _).bind_apply] at h ⊢
    cases hword : wordAt ctx.text "class" s₁.pos with
    | false => simp only [hword] at h; cases h
    | true =>
      have hother {other : String} {d : Char} (hd : other.toList[0]? = some d) (hne : 'c' ≠ d) :=
        wordAt_eq_false hword (c := 'c') (by decide) hd hne
      have hmodule := hother (show "module".toList[0]? = some 'm' by decide) (by decide)
      have himport := hother (show "import".toList[0]? = some 'i' by decide) (by decide)
      have hextends := hother (show "extends".toList[0]? = some 'e' by decide) (by decide)
      have hamends := hother (show "amends".toList[0]? = some 'a' by decide) (by decide)
      have htypealias := hother (show "typealias".toList[0]? = some 't' by decide) (by decide)
      simp only [hword, if_true, bind_apply (g.classHead before)] at h
      simp only [hmodule, himport, hextends, hamends, htypealias, hword, Bool.false_eq_true, if_false,
        if_true, (atWord_looks _).bind_apply, classRule_eq, bind_assoc, bind_apply (g.classHead before)]
      cases hhead : g.classHead before ctx s₁ with
      | error stop s' => rw [hhead] at h; cases h
      | ok head' s₂ =>
        simp only [hhead, bind_apply (atToken _)] at h ⊢
        cases hbrace : atToken "\x7b" ctx s₂ with
        | error stop s' => rw [hbrace] at h; cases h
        | ok found s₃ =>
          simp only [hbrace] at h ⊢
          cases found with
          | false => cases h
          | true =>
            simp only [if_true, bind_apply (expect _), classBody_eq] at h ⊢
            cases hopening : expect "\x7b" ctx s₃ with
            | error stop s' => rw [hopening] at h; cases h
            | ok opening' s₄ =>
              simp only [hopening] at h
              cases h
              simp only [map_eq_pure_bind, bind_assoc, pure_bind, bind_apply (expect _), hopening]

theorem Grows.classOpening (hg : g.Grows ctx) :
    g.classOpening.Grows ctx s fun opening? s' =>
      ∀ opening ∈ opening?, opening.1.WellFormed ∧ Advanced ctx.text s s' := by
  refine hg.preamble.bind fun before s₁ h₁ hbefore => .look (atWord_looks _) (.ite (fun hword => ?_)
    fun _ => .pure (by simp))
  refine (hg.classHead hbefore hword).bind fun head s₂ h₂ hhead => (atToken_grows _).bind
    fun found s₃ h₃ _ => .ite (fun _ => ?_) fun _ => .pure (by simp)
  refine (expect_grows (by decide)).bind fun opening s₄ h₄ _ => .pure ?_
  rintro _ ⟨⟩
  exact ⟨hhead.1, h₁.advanced ((hhead.2.grown h₃).grown h₄)⟩

/-- A class in which no body is reached. -/
theorem Grows.classRule (hg : g.Grows ctx) {before : Preamble} (hbefore : before.WellFormed)
    (hword : wordAt ctx.text "class" s.pos = true)
    (hno : ∀ head s₁ s₂ opening s₃, g.classHead before ctx s = .ok head s₁ →
      atToken "\x7b" ctx s₁ = .ok true s₂ → expect "\x7b" ctx s₂ ≠ .ok opening s₃) :
    (g.classRule before).Grows ctx s fun decl s' =>
      (Node.classDecl decl).WellFormed ∧ Advanced ctx.text s s' := by
  rw [classRule_eq]
  refine (hg.classHead hbefore hword).tracked.bind fun head s₁ _ hhead =>
    (atToken_grows _).tracked.bind fun found s₂ h₂ hfound => ?_
  obtain ⟨hrun₁, hhead, hadvanced⟩ := hhead
  cases found with
  | false =>
    exact .pure ⟨hhead.withBody nofun, hadvanced.grown h₂⟩
  | true =>
    -- The brace is at the cursor and so would be read.
    refine .bind (P := fun _ _ => False) (.map (g := some) ?_) fun _ _ _ h => h.elim
    rw [classBody_eq]
    exact (expect_grows (by decide)).tracked.bind fun opening s₃ _ h =>
      (hno head s₁ s₂ opening s₃ hrun₁ hfound.1 h.1).elim

/-- A declaration in which no class body is reached. -/
theorem Grows.declarationRule (hg : g.Grows ctx)
    (hno : ∀ opening t, g.classOpening ctx s ≠ .ok (some opening) t) :
    g.declarationRule.Grows ctx s fun decl s' =>
      (Node.ofDeclaration decl).WellFormed ∧ Advanced ctx.text s s' := by
  refine .bind hg.preamble.tracked fun before s₁ h₁ hbefore => ?_
  obtain ⟨hrun, hbefore⟩ := hbefore
  have hdone {α : Type} {p : Parser α} {decl : α → Declaration} {node : α → Node}
      (hp : p.Grows ctx s₁ fun a s' => (node a).WellFormed ∧ Advanced ctx.text s₁ s')
      (hnode : ∀ a, node a = Node.ofDeclaration (decl a)) :
      (p >>= fun a => pure (decl a)).Grows ctx s₁ fun decl s' =>
        (Node.ofDeclaration decl).WellFormed ∧ Advanced ctx.text s s' :=
    hp.bind fun a s₂ _ h => .pure ⟨hnode a ▸ h.1, h₁.advanced h.2⟩
  refine .look (atWord_looks _) (.ite (fun hword =>
    hdone (moduleClauseRule_grows hbefore hword) fun _ => rfl) fun _ => ?_)
  refine .look (atWord_looks _) (.ite (fun hword =>
    hdone (hg.importRule hbefore hword) fun _ => rfl) fun _ => ?_)
  refine .look (atWord_looks _) (.ite (fun _ =>
    hdone (hg.extendsRule hbefore) fun _ => rfl) fun _ => ?_)
  refine .look (atWord_looks _) (.ite (fun _ =>
    hdone (hg.amendsRule hbefore) fun _ => rfl) fun _ => ?_)
  refine .look (atWord_looks _) (.ite (fun _ =>
    hdone (hg.typeAliasRule hbefore) fun _ => rfl) fun _ => ?_)
  refine .look (atWord_looks _) (.ite (fun hword =>
    hdone (hg.classRule hbefore hword ?_) fun _ => rfl) fun _ => ?_)
  · intro head s₂ s₃ opening s₄ hhead hbrace hopening
    refine hno (head, opening) s₄ ?_
    rw [Grammar.classOpening, bind_apply, hrun]
    simp only [(atWord_looks _).bind_apply, hword, if_true, bind_apply, hhead, hbrace, hopening]
    rfl
  refine .look (atWord_looks _) (.ite (fun hword =>
    hdone (hg.functionRule hbefore hword) fun _ => rfl) fun _ => ?_)
  exact .look atIdentifier_looks (.ite (fun _ =>
    hdone (hg.propertyRule hbefore) fun _ => rfl) fun _ => failDeclaration_grows)

/-- What a declaration that is a class with a body comes to: a run over the body. -/
theorem Grows.classDeclaration (hg : g.Grows ctx)
    (h : g.classOpening ctx s = .ok (some (head, opening)) t) :
    match g.declarationRule ctx s with
    | .ok decl s' => ∃ entries, ClassBodyRun g ctx opening t entries .closed s' ∧
        decl = .classDecl (head.withBody (some (entries.filterMap MemberEntry.member?, s'.pos)))
    | .error .failed s' => ∃ entries ending, ending ≠ .closed ∧
        ClassBodyRun g ctx opening t entries ending s'
    | .error _ s' => Kept ctx.text t s' := by
  rw [declarationRule_of_opening h, bind_apply]
  have hrun := hg.classRounds opening (ctx.text.size - t.pos + 1) #[] t
  have hloop : repeating (g.classRound opening) #[] ctx t =
      rounds (g.classRound opening) (ctx.text.size - t.pos + 1) #[] ctx t := rfl
  rw [hloop]
  cases hresult : rounds (g.classRound opening) (ctx.text.size - t.pos + 1) #[] ctx t with
  | ok members s' =>
    rw [hresult] at hrun
    obtain ⟨entries, hrun, hmembers⟩ := hrun
    refine ⟨entries, hrun, ?_⟩
    rw [hmembers]
    rfl
  | error stop s' =>
    rw [hresult] at hrun
    cases stop <;> exact hrun

/-- What any declaration comes to that is read. -/
theorem Grows.declaration_of_ok (hg : g.Grows ctx) {decl : Declaration}
    (h : g.declarationRule ctx s = .ok decl s') :
    Kept ctx.text s s' ∧ (Node.ofDeclaration decl).WellFormed ∧ Advanced ctx.text s s' := by
  by_cases hopen : ∃ opening t, g.classOpening ctx s = .ok (some opening) t
  · obtain ⟨⟨head, opening⟩, t, hopen⟩ := hopen
    obtain ⟨hgrown, hhead⟩ := hg.classOpening.of_ok hopen
    obtain ⟨hhead, hadvanced⟩ := hhead _ rfl
    have hclass := hg.classDeclaration hopen
    rw [h] at hclass
    obtain ⟨entries, hrun, rfl⟩ := hclass
    have hkept := hrun.kept_state hg
    refine ⟨hgrown.toKept.trans hkept, hhead.withBody ?_, hadvanced.kept hkept⟩
    rintro _ ⟨⟩
    exact hrun.wellFormed hg
  · have hrun := (hg.declarationRule fun opening t ht => hopen ⟨opening, t, ht⟩).of_ok h
    exact ⟨hrun.1.toKept, hrun.2⟩

/-- What any declaration comes to that is given up. -/
theorem Grows.declaration_of_error (hg : g.Grows ctx) {stop : Stop}
    (h : g.declarationRule ctx s = .error stop s') : Kept ctx.text s s' := by
  by_cases hopen : ∃ opening t, g.classOpening ctx s = .ok (some opening) t
  · obtain ⟨⟨head, opening⟩, t, hopen⟩ := hopen
    have hkept := (hg.classOpening.of_ok hopen).1.toKept
    have hclass := hg.classDeclaration hopen
    rw [h] at hclass
    cases stop with
    | failed =>
      obtain ⟨entries, ending, -, hrun⟩ := hclass
      exact hkept.trans (hrun.kept_state hg)
    | tooDeep => exact hkept.trans hclass
    | stalled => exact hkept.trans hclass
  · exact (hg.declarationRule fun opening t ht => hopen ⟨opening, t, ht⟩).kept h

end Grammar

end PklSyntax
