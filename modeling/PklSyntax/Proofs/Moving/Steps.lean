import PklSyntax.Proofs.Growth.Basic
import PklSyntax.Proofs.Moving.Mirror

/-!
# Steps that mirror one another

The steps of which parsers are made, in two texts that agree on a stretch. A step that changes the
state leaves the two parses abreast; that it also mirrors itself as a parser says in addition that
nothing is taken that lies behind the last token.

## Main statements

* `Overlap.Abreast.skipTrivia`, `Overlap.Abreast.at_pos`, `Overlap.Abreast.push`,
  `Overlap.Abreast.takeDoc`: steps keep two parses abreast.
* `Parser.skip_mirrors`, `Parser.moveTo_mirrors`, `Parser.advance_mirrors`: moving.
* `Parser.report_mirrors`, `Parser.failWith_mirrors`, `Parser.attempt_mirrors`: recording and
  stopping.
* `Parser.inMode_mirrors`: another mode.
-/

namespace PklSyntax

variable {text : Array Char} {s t : State} {c : Nat} {b : Bool}

/-! ### Errors on record -/

namespace State

theorem errors_append (s : State) (ds : List Diagnostic) :
    { s with diagnostics := s.diagnostics ++ ds }.errors =
      s.errors ++ ds.filter Diagnostic.isError := by
  rw [errors, Array.toList_appendList, List.filter_append, errors]

theorem errors_push (s : State) (d : Diagnostic) :
    { s with diagnostics := s.diagnostics.push d }.errors =
      s.errors ++ if d.isError = true then [d] else [] := by
  simp only [errors, Array.toList_push, List.filter_append, List.filter_cons, List.filter_nil]

end State

/-- Diagnostics of trivia are errors. -/
theorem filter_isError_trivia (items : List Trivia) :
    (items.filterMap Trivia.diagnostic?).filter Diagnostic.isError =
      items.filterMap Trivia.diagnostic? := by
  refine List.filter_eq_self.2 fun d hd => ?_
  obtain ⟨item, -, hitem⟩ := List.mem_filterMap.1 hd
  cases item with
  | unclosedComment => cases hitem; rfl
  | _ => simp [Trivia.diagnostic?] at hitem

/-! ### Skipping trivia -/

/-- The state behind trivia that have not been skipped yet. -/
theorem Stands.skipTrivia_of_fresh (h : Stands text s c) (hmode : s.mode = .loose)
    (hfresh : s.triviaEnd ≠ some s.pos) :
    s.skipTrivia text =
      { s with
        pos := skipEnd text c
        runStart := s.docs.size
        triviaEnd := some (skipEnd text c)
        docs := s.docs ++ docsFrom text c
        diagnostics := s.diagnostics ++ (triviaFrom text c).1.filterMap Trivia.diagnostic? } := by
  rw [State.skipTrivia, hmode]
  simp only [if_neg hfresh]
  rw [h.of_fresh hfresh]
  rfl

theorem Stands.skipTrivia_of_skipped (h : Stands text s c) (hend : s.triviaEnd = some s.pos) :
    s.skipTrivia text = s := by
  refine State.skipTrivia_eq_self hend ?_
  rw [(h.of_skipped hend).1]
  exact triviaAt?_skipEnd c

theorem Stands.attached_skipTrivia (h : Stands text s c) (hmode : s.mode = .loose) :
    (s.skipTrivia text).attached = s.attached := by
  by_cases hend : s.triviaEnd = some s.pos
  · rw [h.skipTrivia_of_skipped hend]
  · rw [h.skipTrivia_of_fresh hmode hend]

/-- The doc comment that waits behind trivia that have just been skipped is the last one of them. -/
theorem Stands.pending_skipTrivia (h : Stands text s c) (hmode : s.mode = .loose)
    (hfresh : s.triviaEnd ≠ some s.pos) :
    (s.skipTrivia text).pending = (docsFrom text c).getLast? := by
  have hskip := h.skipTrivia_of_fresh hmode hfresh
  obtain ⟨hon, hpos, hend⟩ := h.skipTrivia hmode
  obtain ⟨-, hdoc⟩ := hon.stands.of_skipped hend
  rw [State.pending_eq]
  split
  · exact hdoc
  · rename_i hcond
    -- What was attached before is not in the run of trivia that was skipped now.
    rw [← hdoc, State.runDoc?]
    split
    · rename_i hrun
      rw [hskip] at hrun hcond
      simp only at hrun hcond
      refine absurd ⟨trivial, ?_⟩ hcond
      rw [← Bool.not_eq_true, List.contains_iff_mem]
      intro hmem
      have := h.attached_lt _ hmem
      omega
    · rfl

/-- Neither the mode nor what is on record has a bearing on the doc comment that waits. -/
theorem State.pending_with (s : State) (mode : Mode) (diagnostics : Array Diagnostic) :
    ({ s with mode, diagnostics } : State).pending = s.pending := by
  rw [pending_eq, pending_eq]
  rfl

namespace Overlap

variable {W : Overlap}

/-- Trivia that reach neither the end of the stretch nor that of the text are closed. -/
theorem Live.allClosed (h : W.Live b s c) (hmode : s.mode = .loose) (hw : W.whole = false) :
    AllClosed W.left.text c := by
  obtain ⟨-, hc⟩ := h.resolve_left (by simp [hw])
  obtain ⟨hstop, hleft, -, -⟩ := W.cut hw
  rcases hc with hlt | ⟨-, rfl⟩
  · rw [State.front, hmode] at hlt
    rcases called_triviaFrom W.left.text c with hclosed | ⟨-, -, hend⟩
    · exact hclosed
    · simp only at hlt
      omega
  · exact hleft.closed

/-- A parse that is live is live behind the trivia that follow. -/
theorem Live.skipTrivia (h : W.Live b s c) (hs : Stands W.left.text s c) (hmode : s.mode = .loose) :
    W.Live b (s.skipTrivia W.left.text) c := by
  rcases Bool.eq_false_or_eq_true W.whole with hw | hw
  · exact .inl hw
  · have hclosed := h.allClosed hmode hw
    refine h.imp_right fun ⟨herror, hc⟩ => ⟨fun he => herror ?_, ?_⟩
    · by_cases hend : s.triviaEnd = some s.pos
      · rwa [hs.skipTrivia_of_skipped hend] at he
      · rw [hs.skipTrivia_of_fresh hmode hend, hclosed] at he
        exact he
    · have hmode' := (hs.skipTrivia hmode).1.mode_eq
      rw [State.front, hmode]  at hc
      rw [State.front, hmode', hmode]
      exact hc

namespace Abreast

/-- Behind the trivia that follow, the parses are abreast, as long as the left one is live there. -/
theorem skipTrivia (h : W.Abreast s c t) (hlo : W.lo ≤ c) (hs : Stands W.left.text s c)
    (hmode : s.mode = .loose) (hlive : W.Live true s c) :
    W.Abreast (s.skipTrivia W.left.text) c (t.skipTrivia W.right.text) := by
  have hmode' : t.mode = .loose := h.mode_eq.trans hmode
  by_cases hend : s.triviaEnd = some s.pos
  · rw [hs.skipTrivia_of_skipped hend, h.stands.skipTrivia_of_skipped (h.skipped.2 hend)]
    exact h
  · have hend' : t.triviaEnd ≠ some t.pos := fun he => hend (h.skipped.1 he)
    obtain ⟨hon, hpos, hskipped⟩ := hs.skipTrivia hmode
    obtain ⟨hon', hpos', hskipped'⟩ := h.stands.skipTrivia hmode'
    have hskip := hs.skipTrivia_of_fresh hmode hend
    have hskip' := h.stands.skipTrivia_of_fresh hmode' hend'
    refine ⟨hon'.stands, by rw [hon'.mode_eq, hon.mode_eq, h.mode_eq],
      iff_of_true hskipped' hskipped, fun hi => ?_, ?_⟩
    · rw [hpos] at hi
      rw [hs.pending_skipTrivia hmode hend, h.stands.pending_skipTrivia hmode' hend',
        docsFrom_place hlo hi, List.getLast?_map]
    · rw [hskip, hskip']
      show State.errors { t with diagnostics := _ } =
        (State.errors { s with diagnostics := _ }).map _
      rw [State.errors_append, State.errors_append, filter_isError_trivia, filter_isError_trivia,
        h.errors, List.map_append]
      congr 1
      have hfront : s.front W.left.text c = skipEnd W.left.text c := by rw [State.front, hmode]
      rcases hlive with hw | ⟨-, hlt | ⟨-, rfl⟩⟩
      · exact diagnosticsFrom_place hlo (.inr hw)
      · exact diagnosticsFrom_place hlo (.inl (hfront ▸ hlt))
      · rcases Bool.eq_false_or_eq_true W.whole with hw | hw
        · exact diagnosticsFrom_place hlo (.inr hw)
        · -- No comment is left open behind a declaration.
          obtain ⟨-, hleft, hright, -⟩ := W.cut hw
          rw [hleft.closed]
          exact hright.closed

/-- Where the cursor is moved on over a token, the parses are abreast. -/
theorem at_pos (h : W.Abreast s c t) (hlo : W.lo ≤ c) (hs : Stands W.left.text s c)
    (hpos : t.pos = W.place s.pos) {pos : Nat} (hlt : s.pos < pos) (hsize : pos ≤ W.left.text.size)
    (hstop : pos ≤ W.stop ∨ W.whole = true) :
    W.Abreast { s with pos } pos { t with pos := W.place pos } := by
  have hle := hs.le_pos
  have hlt' : t.pos < W.place pos := hpos ▸ place_lt (by omega) hlt
  have hsize' : W.place pos ≤ W.right.text.size := by
    rcases Bool.eq_false_or_eq_true W.whole with hw | hw
    · have := (W.full hw).2.1
      have := W.cast_place (i := pos) (by omega)
      omega
    · have := W.place_stop_le_size hw
      have := W.place_le (i := pos) (by omega) (hstop.resolve_right (by simp [hw]))
      omega
  have hfresh : ∀ {text : Array Char} {u : State} {d e : Nat}, Stands text u d → u.pos < e →
      u.triviaEnd ≠ some e := by
    intro text u d e hu he hend
    rcases hu.place with ⟨hpos, hlast⟩ | ⟨hend', -⟩
    · have := hlast _ hend
      omega
    · rw [hend'] at hend
      cases hend
      omega
  have hnone : ∀ {u : State} {e : Nat}, u.triviaEnd ≠ some e →
      ({ u with pos := e } : State).pending = none := by
    intro u e he
    rw [State.pending_eq, if_neg fun hcond => he hcond.1]
  refine ⟨h.stands.at_pos hlt' hsize', h.mode_eq, ?_, fun _ => ?_, h.errors⟩
  · exact iff_of_false (show t.triviaEnd ≠ some (W.place pos) from hfresh h.stands hlt')
      (show s.triviaEnd ≠ some pos from hfresh hs hlt)
  · rw [hnone (hfresh h.stands hlt'), hnone (hfresh hs hlt)]
    rfl

/-- A diagnostic that is recorded on both sides. -/
theorem push (h : W.Abreast s c t) (d : Diagnostic) :
    W.Abreast { s with diagnostics := s.diagnostics.push d } c
      { t with diagnostics := t.diagnostics.push (d.placed W.shift) } where
  stands := (h.stands.push _).stands
  mode_eq := h.mode_eq
  skipped := h.skipped
  pending := fun hi => (t.pending_with _ _).trans
    ((h.pending hi).trans (congrArg _ (s.pending_with _ _).symm))
  errors := by
    rw [State.errors_push, State.errors_push, h.errors, Diagnostic.isError_placed, List.map_append]
    split <;> rfl

/-- A warning that is recorded on one side only. -/
theorem push_left (h : W.Abreast s c t) {d : Diagnostic} (hd : d.isError = false) :
    W.Abreast { s with diagnostics := s.diagnostics.push d } c t where
  stands := h.stands
  mode_eq := h.mode_eq
  skipped := h.skipped
  pending := fun hi => (h.pending hi).trans (congrArg _ (s.pending_with _ _).symm)
  errors := by
    rw [State.errors_push, hd, h.errors]
    simp

theorem push_right (h : W.Abreast s c t) {d : Diagnostic} (hd : d.isError = false) :
    W.Abreast s c { t with diagnostics := t.diagnostics.push d } where
  stands := (h.stands.push _).stands
  mode_eq := h.mode_eq
  skipped := h.skipped
  pending := fun hi => (t.pending_with _ _).trans (h.pending hi)
  errors := by
    rw [State.errors_push, hd, h.errors]
    simp

/-- Another mode on both sides. -/
theorem with_mode (h : W.Abreast s c t) (mode : Mode) :
    W.Abreast { s with mode } c { t with mode } where
  stands := h.stands.with_mode mode
  mode_eq := rfl
  skipped := h.skipped
  pending := fun hi => (t.pending_with _ _).trans
    ((h.pending hi).trans (congrArg _ (s.pending_with _ _).symm))
  errors := h.errors

end Abreast

end Overlap

/-! ### Taking the doc comment that waits -/

namespace State

theorem takeDoc_snd (s : State) :
    s.takeDoc.2 = if s.pending.isSome = true then
      { s with attached := (s.docs.size - 1) :: s.attached } else s := by
  rw [pending, takeDoc]
  split
  · rename_i h
    dsimp only
    split
    · rfl
    · have hlt : s.docs.size - 1 < s.docs.size := by omega
      simp [hlt]
  · rfl

/-- No doc comment is taken twice. -/
theorem pending_takeDoc (s : State) : s.takeDoc.2.pending = none := by
  rw [takeDoc_snd]
  split
  · rw [pending_eq, if_neg]
    simp
  · rename_i h
    simpa using h

end State

namespace Overlap

variable {W : Overlap}

theorem Abreast.takeDoc (h : W.Abreast s c t) :
    W.Abreast s.takeDoc.2 c t.takeDoc.2 := by
  have hsame : ∀ u : State, u.takeDoc.2.pos = u.pos ∧ u.takeDoc.2.mode = u.mode ∧
      u.takeDoc.2.triviaEnd = u.triviaEnd ∧ u.takeDoc.2.diagnostics = u.diagnostics := by
    intro u
    rw [State.takeDoc_snd]
    split <;> exact ⟨rfl, rfl, rfl, rfl⟩
  obtain ⟨hpos, hmode, hend, hdiagnostics⟩ := hsame s
  obtain ⟨hpos', hmode', hend', hdiagnostics'⟩ := hsame t
  refine ⟨h.stands.takeDoc.stands, ?_, ?_, fun _ => ?_, ?_⟩
  · rw [hmode', hmode, h.mode_eq]
  · rw [hend', hend, hpos', hpos, h.skipped]
  · rw [State.pending_takeDoc, State.pending_takeDoc]
    rfl
  · rw [State.errors, State.errors, hdiagnostics', hdiagnostics]
    exact h.errors

theorem Live.takeDoc (h : W.Live b s c) : W.Live b s.takeDoc.2 c := by
  rw [State.takeDoc_snd]
  split
  · exact h
  · exact h

end Overlap

namespace Parser

variable {α β : Type} {W : Overlap} {mode : Mode}

/-! ### Moving -/

theorem fresh_at_pos (hs : Stands text s c) {pos : Nat} (hlt : s.pos < pos) :
    Arrived { s with pos } pos := by
  refine ⟨rfl, fun hend => ?_⟩
  have hend : s.triviaEnd = some pos := hend
  rcases hs.place with ⟨hpos, hlast⟩ | ⟨hend', -⟩
  · have := hlast _ hend
    omega
  · rw [hend'] at hend
    cases hend
    omega

theorem skip_mirrors :
    Mirrors W .loose b (fun _ => b) skip skip s c t fun _ s' c' =>
      Skipped W.left.text c s' c' ∧ s'.triviaEnd = some s'.pos := by
  intro h
  show ∃ c', Passes W.left.text b s c (s.skipTrivia W.left.text) c' ∧ _
  obtain ⟨hon, hpos, hend⟩ := h.stands.skipTrivia h.mode_eq
  have hpoised : Poised W.left.text (s.skipTrivia W.left.text) c := by
    rw [Poised, State.front, hon.mode_eq, h.mode_eq]
    exact Nat.le_of_eq hpos.symm
  refine ⟨c, .of_idle hon (h.stands.attached_skipTrivia h.mode_eq),
    ⟨⟨rfl, hpoised, fun _ => hend⟩, hend⟩, fun hjoined hlive => ?_⟩
  have hl := hlive.back hon
  exact ⟨_, rfl, (hjoined hl).skipTrivia h.lo_le h.stands h.mode_eq (hl.mono fun _ => rfl)⟩

/-- Skipping trivia where the parse goes on in the stretch in any case. -/
theorem skip_inner_mirrors :
    Mirrors W .loose b (fun _ => false) skip skip s c t fun _ s' c' =>
      Skipped W.left.text c s' c' ∧ s'.triviaEnd = some s'.pos :=
  .weaken (fun h => absurd h Bool.false_ne_true) skip_mirrors

theorem moveTo_mirrors {pos pos' : Nat} (hp : Poised W.left.text s c) (hlt : s.pos < pos)
    (hsize : pos ≤ W.left.text.size)
    (hpos' : W.Together false s c t → pos ≤ W.stop ∨ W.whole = true → pos' = W.place pos) :
    Mirrors W mode b (fun _ => true) (moveTo pos) (moveTo pos') s c t fun _ s' c' =>
      s' = { s with pos } ∧ c' = pos ∧ Arrived s' c' := by
  intro h
  have hon := h.stands.moveTo hp hlt hsize
  have hle := h.stands.le_pos
  refine ⟨pos, .of_onward hon hlt rfl, ⟨rfl, rfl, fresh_at_pos h.stands hlt⟩,
    fun hjoined hlive => ?_⟩
  have hl : ∀ b, W.Live b s c := fun b => hlive.inner hon (by omega)
  have htogether : W.Together false s c t := ⟨h.lo_le, h.stands, hl false, hjoined (hl b)⟩
  have hstop := hlive.le_stop hon.stands
  refine ⟨{ t with pos := W.place pos }, ?_,
    htogether.abreast.at_pos h.lo_le h.stands htogether.pos_eq hlt hsize hstop⟩
  rw [hpos' htogether hstop]
  rfl

theorem advance_mirrors {n : Nat} (hp : Poised W.left.text s c) (hn : 0 < n)
    (hsize : s.pos + n ≤ W.left.text.size) :
    Mirrors W mode b (fun _ => true) (advance n) (advance n) s c t fun _ s' c' =>
      s' = { s with pos := s.pos + n } ∧ c' = s.pos + n ∧ Arrived s' c' := by
  have hleft : advance n W.left s = moveTo (s.pos + n) W.left s := by
    show moveTo (min W.left.text.size (s.pos + n)) W.left s = _
    rw [Nat.min_eq_right hsize]
  refine .congr_left hleft (.swap (r := moveTo (min W.right.text.size (t.pos + n)))
    (fun _ _ _ => rfl) (moveTo_mirrors hp (by omega) hsize fun htogether hstop => ?_))
  have hlo := htogether.lo_le_pos
  rw [htogether.pos_eq, ← Overlap.place_add hlo, Nat.min_eq_right]
  rcases Bool.eq_false_or_eq_true W.whole with hw | hw
  · have := (W.full hw).2.1
    have := W.cast_place (i := s.pos + n) (by omega)
    omega
  · have := W.place_stop_le_size hw
    have := W.place_le (i := s.pos + n) (by omega) (hstop.resolve_right (by simp [hw]))
    omega

/-- Moving over a character with which no trivia begin. -/
theorem advance_sign_mirrors (hopens : opensToken (charAt W.left.text s.pos) = true) :
    Mirrors W mode b (fun _ => true) (advance 1) (advance 1) s c t fun _ s' c' =>
      s' = { s with pos := s.pos + 1 } ∧ c' = s.pos + 1 ∧ Arrived s' c' :=
  .of_linked fun h => advance_mirrors (h.stands.poised_of_opens hopens) Nat.one_pos
    (lt_size_of_opens hopens)

/-- Moving over a token that stands where a token can begin. -/
theorem advance_matched_mirrors {token : String} (hp : Poised W.left.text s c)
    (hmatch : matchesAt W.left.text token s.pos = true) (hne : token ≠ "") :
    Mirrors W mode b (fun _ => true) (advance token.length) (advance token.length) s c t
      fun _ s' c' =>
        s' = { s with pos := s.pos + token.length } ∧ c' = s.pos + token.length ∧
        Arrived s' c' := by
  have hlen : 0 < token.length := Nat.pos_of_ne_zero fun h => hne (String.length_eq_zero_iff.1 h)
  exact advance_mirrors hp hlen (add_length_le_of_matchesAt hmatch hne)

/-- Moving over a token with whose first character no trivia begin. -/
theorem advance_token_mirrors (token : String) (hmatch : matchesAt W.left.text token s.pos = true)
    (hopens : token.toList.head?.any opensToken = true) :
    Mirrors W mode b (fun _ => true) (advance token.length) (advance token.length) s c t
      fun _ s' c' =>
        s' = { s with pos := s.pos + token.length } ∧ c' = s.pos + token.length ∧
        Arrived s' c' := by
  obtain ⟨first, hfirst, hopens⟩ := (Option.any_eq_true _ _).1 hopens
  rw [List.head?_eq_getElem?] at hfirst
  have hchar := charAt_of_matchesAt hmatch hfirst
  rw [Nat.add_zero] at hchar
  refine .of_linked fun h =>
    advance_matched_mirrors (h.stands.poised_of_opens (by rwa [hchar])) hmatch ?_
  rintro rfl
  simp at hfirst

/-! ### Recording and stopping -/

/-- What is recorded on both sides. -/
theorem report_mirrors {problem problem' : Problem} {span span' : Span}
    (hproblem : problem' = problem.placed W.shift)
    (hspan : W.Together b s c t → span' = W.shift.span span) :
    Mirrors W mode b (fun _ => b) (report problem span) (report problem' span') s c t
      fun _ s' c' =>
        s' = { s with diagnostics := s.diagnostics.push (problem.diagnostic span) } ∧ c' = c := by
  intro h
  have hon := h.stands.push (problem.diagnostic span)
  refine ⟨c, .of_idle hon rfl, ⟨rfl, rfl⟩, fun hjoined hlive => ?_⟩
  have hl := hlive.back hon
  have habreast := (hjoined hl).push (problem.diagnostic span)
  rw [← Problem.diagnostic_placed, ← hproblem,
    ← hspan ⟨h.lo_le, h.stands, hl, hjoined hl⟩] at habreast
  exact ⟨_, rfl, habreast⟩

/-- A construct that is given up on both sides. -/
theorem failWith_mirrors {last : α → Bool} {Q : α → State → Nat → Prop} [Movable α]
    {problem problem' : Problem} {span span' : Span}
    (herror : (problem.diagnostic span).isError = true)
    (hproblem : problem' = problem.placed W.shift)
    (hspan : W.Together false s c t → span' = W.shift.span span) :
    Mirrors W mode b last (failWith problem span) (failWith problem' span') s c t Q := by
  intro h
  have hon := h.stands.push (problem.diagnostic span)
  refine ⟨fun _ => ⟨_, by simp, herror⟩, c, .of_idle hon rfl, fun hjoined hw => ?_⟩
  have habreast := (hjoined (.inl hw)).push (problem.diagnostic span)
  rw [← Problem.diagnostic_placed, ← hproblem,
    ← hspan ⟨h.lo_le, h.stands, .inl hw, hjoined (.inl hw)⟩] at habreast
  exact ⟨_, rfl, habreast⟩

theorem failWith_bind_mirrors {last : β → Bool} {Q : β → State → Nat → Prop} [Movable α] [Movable β]
    {problem problem' : Problem} {span span' : Span} {f f' : α → Parser β}
    (herror : (problem.diagnostic span).isError = true)
    (hproblem : problem' = problem.placed W.shift)
    (hspan : W.Together false s c t → span' = W.shift.span span) :
    Mirrors W mode b last (failWith problem span >>= f) (failWith problem' span' >>= f') s c t Q :=
  .bind (P := fun _ _ _ => False) (failWith_mirrors herror hproblem hspan)
    fun _ _ _ _ _ h => h.elim

/-- A warning that is recorded on a condition, which need not hold on both sides. -/
theorem warn_if_mirrors {x x' : Bool} {problem problem' : Problem} {span span' : Span}
    (hwarning : (problem.diagnostic span).isError = false)
    (hwarning' : (problem'.diagnostic span').isError = false) :
    Mirrors W mode true (fun _ => true) (if x = true then report problem span else pure ())
      (if x' = true then report problem' span' else pure ()) s c t fun _ s' c' =>
        (∃ diagnostics, s' = { s with diagnostics }) ∧ c' = c := by
  have hright : ∀ {s' : State}, W.Abreast s' c t → ∃ t',
      (if x' = true then report problem' span' else pure () : Parser Unit) W.right t = .ok () t' ∧
        W.Abreast s' c t' := by
    intro s' h
    cases x' with
    | true => exact ⟨_, rfl, h.push_right hwarning'⟩
    | false => exact ⟨_, rfl, h⟩
  cases x with
  | true =>
    exact fun h => ⟨c, .of_idle (h.stands.push _) rfl, ⟨⟨_, rfl⟩, rfl⟩, fun hjoined hlive =>
      hright ((hjoined (hlive.back (h.stands.push _))).push_left hwarning)⟩
  | false =>
    exact fun h => ⟨c, .refl h.stands, ⟨⟨s.diagnostics, rfl⟩, rfl⟩, fun hjoined hlive =>
      hright (hjoined hlive)⟩

/-- A step that is taken on a condition, and then the others. -/
theorem ite_bind {x : Bool} {p : Parser Unit} {f : Unit → Parser β} :
    (if x = true then p >>= f else f ()) = (if x = true then p else pure ()) >>= f := by
  cases x <;> rfl

theorem throw_mirrors {last : α → Bool} {Q : α → State → Nat → Prop} [Movable α] (stop : Stop)
    (herror : stop = .failed → s.HasError) :
    Mirrors W mode b last (throw stop : Parser α) (throw stop) s c t Q :=
  fun h => ⟨herror, c, .refl h.stands, fun hjoined hw => ⟨t, rfl, hjoined (.inl hw)⟩⟩

/-- The attempt at a construct is given up on both sides, or on neither. -/
theorem attempt_mirrors {last : α → Bool} {p q : Parser α} {Q : α → State → Nat → Prop} [Movable α]
    (hp : Mirrors W mode b last p q s c t Q) :
    Mirrors W mode b (Option.any last) (attempt p) (attempt q) s c t fun a? s' c' =>
      match a? with
      | some a => Q a s' c'
      | none => s'.HasError := by
  intro h
  have hp := hp h
  rw [attempt]
  cases hrun : p W.left s with
  | ok a s' =>
    rw [hrun] at hp
    obtain ⟨c', hpass, hQ, hlive⟩ := hp
    refine ⟨c', hpass, hQ, fun hjoined hl => ?_⟩
    obtain ⟨t', hright, habreast⟩ := hlive hjoined hl
    exact ⟨t', by rw [attempt, hright]; rfl, habreast⟩
  | error stop s' =>
    rw [hrun] at hp
    obtain ⟨herror, c', hpass, hwhole⟩ := hp
    cases stop with
    | failed =>
      refine ⟨c', hpass, herror rfl, fun hjoined hl => ?_⟩
      have hw : W.whole = true := hl.resolve_right fun h => h.1 (herror rfl)
      obtain ⟨t', hright, habreast⟩ := hwhole hjoined hw
      exact ⟨t', by rw [attempt, hright]; rfl, habreast⟩
    | tooDeep =>
      refine ⟨(fun h => by cases h), c', hpass, fun hjoined hw => ?_⟩
      obtain ⟨t', hright, habreast⟩ := hwhole hjoined hw
      exact ⟨t', by rw [attempt, hright], habreast⟩
    | stalled =>
      refine ⟨(fun h => by cases h), c', hpass, fun hjoined hw => ?_⟩
      obtain ⟨t', hright, habreast⟩ := hwhole hjoined hw
      exact ⟨t', by rw [attempt, hright], habreast⟩

/-! ### Reading ahead -/

/-- Reads ahead for what decides how to go on. When nothing is found there, the cursor goes back to
where it was. -/
def reading {α β : Type} (ahead : Parser (Option α)) (found : α → Parser β) (missing : Parser β) :
    Parser β := do
  let before ← mark
  match ← ahead with
  | some a => found a
  | none =>
    rewind before
    missing

/-- Going back after a parse from a state that stood somewhere restores it. -/
theorem rewind_of_yields {ctx : Context} {p : Parser α} {a : α} {s' : State}
    (hp : p.Yields ctx s c fun _ _ _ => True) (hs : Stands ctx.text s c)
    (hrun : p ctx s = .ok a s') : s'.rewind s.checkpoint = s := by
  have hp := hp hs
  rw [EndsFrom, hrun] at hp
  obtain ⟨c', hon, -⟩ := hp
  exact hon.rewind

/-- Reading ahead, when it is known of the left text whether something is found there. Only what is
found has to be mirrored; when nothing is found, nothing is to be found on the right either if what
is read then leaves the left parse live. -/
theorem reading_mirrors_of_found [Movable α] [Movable β] {ahead ahead' : Parser (Option α)}
    {found found' : α → Parser β} {missing missing' : Parser β} {last : β → Bool}
    {level : Option α → Bool} {P : Option α → State → Nat → Prop} {Q : β → State → Nat → Prop}
    (hback : ∀ s₁, ahead W.left s = .ok none s₁ → W.Linked mode s c t →
      s₁.rewind s.checkpoint = s)
    (hahead : (∀ s₁, ahead W.left s ≠ .ok none s₁) →
      Mirrors W mode b level ahead ahead' s c t P)
    (hfound : ∀ a s' c' t', Onward W.left.text s c s' c' → P (some a) s' c' →
      Mirrors W mode (level (some a)) last (found a) (found' (move W.shift a)) s' c' t'
        fun r s'' c'' => (level (some a) = false → last r = true → c' < c'') ∧ Q r s'' c'')
    (hmissing : Mirrors W mode b last missing missing' s c t Q)
    (hright : ∀ s₁, ahead W.left s = .ok none s₁ → W.Linked mode s c t → W.Joined b s c t →
      Hopeful W last s c Q →
        ∃ t₁, ahead' W.right t = .ok none t₁ ∧ t₁.rewind t.checkpoint = t) :
    Mirrors W mode b last (reading ahead found missing) (reading ahead' found' missing') s c t
      Q := by
  refine .of_linked fun hlinked => ?_
  by_cases hnone : ∃ s₁, ahead W.left s = .ok none s₁
  · obtain ⟨s₁, hrun⟩ := hnone
    refine .congr_left (r := missing) ?_ (.swap (r := missing') (fun _ hjoined hope => ?_)
      hmissing)
    · rw [reading, mark_looks.bind_apply, bind_apply, hrun]
      show missing W.left (s₁.rewind s.checkpoint) = _
      rw [hback s₁ hrun hlinked]
    · obtain ⟨t₁, hrun', hrewind⟩ := hright s₁ hrun hlinked hjoined hope
      rw [reading, mark_looks.bind_apply, bind_apply, hrun']
      show missing' W.right (t₁.rewind t.checkpoint) = _
      rw [hrewind]
  · rw [not_exists] at hnone
    refine .peel mark_looks mark_looks (.bind_level (hahead hnone).with_run
      fun a? s' c' t' hon hP => ?_)
    cases a? with
    | none => exact absurd hP.1 (hnone _)
    | some a => exact hfound a s' c' t' hon hP.2

/-- Reading ahead mirrors itself when what is found does, and what is read when nothing is found,
and when there is nothing to be found on the right either if the latter leaves the left parse
live. -/
theorem reading_mirrors [Movable α] [Movable β] {ahead ahead' : Parser (Option α)}
    {found found' : α → Parser β} {missing missing' : Parser β} {last : β → Bool}
    {level : Option α → Bool} {P : Option α → State → Nat → Prop} {Q : β → State → Nat → Prop}
    (hahead : Mirrors W mode b level ahead ahead' s c t P)
    (hfound : ∀ a s' c' t', Onward W.left.text s c s' c' → P (some a) s' c' →
      Mirrors W mode (level (some a)) last (found a) (found' (move W.shift a)) s' c' t'
        fun r s'' c'' => (level (some a) = false → last r = true → c' < c'') ∧ Q r s'' c'')
    (hmissing : Mirrors W mode b last missing missing' s c t Q)
    (hright : ∀ s₁ c₁, ahead W.left s = .ok none s₁ → Passes W.left.text (level none) s c s₁ c₁ →
      P none s₁ c₁ → W.Linked mode s c t → W.Joined b s c t → Hopeful W last s c Q →
      (W.Live (level none) s₁ c₁ → ∃ t₁, ahead' W.right t = .ok none t₁ ∧ W.Abreast s₁ c₁ t₁) →
        ∃ t₁, ahead' W.right t = .ok none t₁ ∧ t₁.rewind t.checkpoint = t) :
    Mirrors W mode b last (reading ahead found missing) (reading ahead' found' missing') s c t
      Q := by
  refine reading_mirrors_of_found (fun s₁ hrun hlinked => ?_) (fun _ => hahead) hfound hmissing
    fun s₁ hrun hlinked hjoined hope => ?_
  · have hrun' := hahead hlinked
    rw [hrun] at hrun'
    obtain ⟨c₁, hpass, -⟩ := hrun'
    exact hpass.onward.rewind
  · have hrun' := hahead hlinked
    rw [hrun] at hrun'
    obtain ⟨c₁, hpass, hP, hlive⟩ := hrun'
    exact hright s₁ c₁ hrun hpass hP hlinked hjoined hope (hlive hjoined)

/-! ### Doc comments -/

theorem takeDoc_mirrors :
    Mirrors W mode b (fun _ => false) takeDoc takeDoc s c t fun doc s' c' =>
      doc = s.pending ∧ s'.pos = s.pos ∧ c' = c := by
  intro h
  have hon := h.stands.takeDoc
  have hpos : s.takeDoc.2.pos = s.pos := by
    obtain ⟨attached, heq, -⟩ := s.takeDoc_eq
    rw [heq]
  have hrun : ∀ ctx u, takeDoc ctx u = .ok u.pending u.takeDoc.2 := fun _ _ => rfl
  rw [hrun]
  refine ⟨c, ⟨hon, fun hlt => absurd hlt (Nat.lt_irrefl c), fun i hi => ?_⟩, ⟨rfl, hpos, rfl⟩,
    fun hjoined hlive => ?_⟩
  · -- The doc comment that is taken lies in front of the cursor.
    rw [State.takeDoc_snd] at hi ⊢
    split at hi
    · rename_i hsome
      rw [if_pos hsome]
      rcases List.mem_cons.1 hi with rfl | hi
      · refine .inr fun doc hdoc => ?_
        obtain ⟨waiting, hwaiting⟩ := Option.isSome_iff_exists.1 hsome
        obtain ⟨start, stop, hspan, -, -, hle⟩ := h.stands.pending_span hwaiting
        obtain ⟨hend, hrun⟩ := State.runDoc?_of_pending hwaiting
        rw [State.runDoc?] at hrun
        split at hrun
        · rw [hrun] at hdoc
          cases hdoc
          rw [hspan]
          simpa [Span.ofNat] using hle
        · simp at hrun
      · exact .inl hi
    · exact .inl hi
  · have hl := hlive.back hon
    have habreast := hjoined (hl.mono fun h => by cases h)
    refine ⟨t.takeDoc.2, ?_, habreast.takeDoc⟩
    rw [hrun, habreast.pending (hl.inside h.stands)]
    rfl

/-! ### Modes -/

theorem inMode_apply (inner : Mode) (p : Parser α) (ctx : Context) (u : State) :
    inMode inner p ctx u =
      match p ctx { u with mode := inner } with
      | .ok a s' => .ok a { s' with mode := u.mode }
      | .error stop s' => .error stop { s' with mode := u.mode } := rfl

/-- In tight mode, where a token can begin. -/
theorem inMode_mirrors {p q : Parser α} {Q : α → State → Nat → Prop} [Movable α]
    (hpoised : Poised W.left.text s c)
    (hp : Mirrors W .tight b (fun _ => true) p q { s with mode := .tight } c
      { t with mode := .tight } fun a s' c' => Q a { s' with mode := s.mode } c') :
    Mirrors W mode b (fun _ => true) (inMode .tight p) (inMode .tight q) s c t Q := by
  intro h
  have hjoin : W.Joined b s c t →
      W.Joined b { s with mode := .tight } c { t with mode := .tight } := by
    refine fun hjoined hl => (hjoined ?_).with_mode _
    refine hl.imp_right fun ⟨herror, hc⟩ => ⟨herror, hc.imp_left fun hlt => ?_⟩
    exact Nat.lt_of_le_of_lt hpoised hlt
  have hp := hp ⟨h.lo_le, h.stands.with_mode _, rfl, rfl⟩
  have hmode : t.mode = s.mode := h.mode_right.trans h.mode_eq.symm
  rw [inMode_apply]
  -- What is live in the mode around was live in tight mode.
  have hexit : ∀ {s' c'}, Stands W.left.text s' c' → s'.mode = .tight →
      W.Live true { s' with mode := s.mode } c' → W.Live true s' c' := by
    intro s' c' hs' hmode hl
    refine hl.imp_right fun ⟨herror, hc⟩ => ⟨herror, hc.imp_left fun hlt => ?_⟩
    have hfront := (hs'.with_mode s.mode).pos_le_front
    have hpos : s'.pos < W.stop := Nat.lt_of_le_of_lt hfront hlt
    rw [State.front, hmode]
    exact hpos
  cases hrun : p W.left { s with mode := .tight } with
  | ok a s' =>
    rw [hrun] at hp
    obtain ⟨c', hpass, hQ, hlive⟩ := hp
    refine ⟨c', hpass.of_mode h.stands fun _ => hpoised, hQ, fun hjoined hl => ?_⟩
    obtain ⟨t', hright, habreast⟩ :=
      hlive (hjoin hjoined) (hexit hpass.onward.stands (hpass.onward.mode_eq.trans rfl) hl)
    exact ⟨{ t' with mode := s.mode }, by rw [inMode_apply, hright, hmode], habreast.with_mode _⟩
  | error stop s' =>
    rw [hrun] at hp
    obtain ⟨herror, c', hpass, hwhole⟩ := hp
    refine ⟨herror, c', hpass.of_mode h.stands fun _ => hpoised, fun hjoined hw => ?_⟩
    obtain ⟨t', hright, habreast⟩ := hwhole (hjoin hjoined) hw
    exact ⟨{ t' with mode := s.mode }, by rw [inMode_apply, hright, hmode], habreast.with_mode _⟩

/-- In the mode that is in force anyway. -/
theorem inMode_same_mirrors {last : α → Bool} {p q : Parser α} {Q : α → State → Nat → Prop}
    [Movable α] (hp : Mirrors W mode b last p q s c t Q) :
    Mirrors W mode b last (inMode mode p) (inMode mode q) s c t Q := by
  intro h
  have hp := hp h
  have hself : ∀ u : State, u.mode = mode → ({ u with mode } : State) = u := by
    rintro u rfl
    rfl
  have hmode := h.mode_eq
  rw [inMode_apply, hself s hmode, hmode]
  cases hrun : p W.left s with
  | ok a s' =>
    rw [hrun] at hp
    obtain ⟨c', hpass, hQ, hlive⟩ := hp
    have hmode' := hpass.onward.mode_eq.trans hmode
    dsimp only
    rw [hself s' hmode']
    refine ⟨c', hpass, hQ, fun hjoined hl => ?_⟩
    obtain ⟨t', hright, habreast⟩ := hlive hjoined hl
    refine ⟨t', ?_, habreast⟩
    rw [inMode_apply, hself t h.mode_right, hright, h.mode_right]
    dsimp only
    rw [hself t' (habreast.mode_eq.trans hmode')]
  | error stop s' =>
    rw [hrun] at hp
    obtain ⟨herror, c', hpass, hwhole⟩ := hp
    have hmode' := hpass.onward.mode_eq.trans hmode
    dsimp only
    rw [hself s' hmode']
    refine ⟨herror, c', hpass, fun hjoined hw => ?_⟩
    obtain ⟨t', hright, habreast⟩ := hwhole hjoined hw
    refine ⟨t', ?_, habreast⟩
    rw [inMode_apply, hself t h.mode_right, hright, h.mode_right]
    dsimp only
    rw [hself t' (habreast.mode_eq.trans hmode')]

end Parser

end PklSyntax
