import PklSyntax.Proofs.Growth.Token

/-!
# Reading a text under other options

A text is read twice, under different options. The second reading asks for no warning that the first
one does not ask for, and it allows no fewer errors. What is on record is never looked at while a
text is read, but for the number of errors. So the two readings do the same, and whatever state the
first one is in, the second one is in the state that remains when the record has gone through a
*sieve*, which leaves out the warnings that it does not ask for.

That a parser *sifts* is an equation between its runs. It is put together along the parser, with one
rule for each way of building parsers from others. Only going back asks for more than the equations
of the parts: what was recorded since then has to be a continuation of what was on record before.

## Main definitions

* `Options.asksFor`: whether a problem is reported under the options.
* `State.sifted`: a state without the diagnostics that are left out.
* `Sieve`: two readings of one text, and the diagnostics that the second one keeps.
* `Sieve.SiftsAt`, `Parser.Sifts`: parsers whose runs in the two readings correspond.

## Main statements

* `Kept.rewind_sifted`: going back restores a state also behind the sieve.
* `Sieve.errorCount_sifted`: the two readings record the same number of errors.
* `Parser.Sifts.bind`, `Parser.Sifts.repeating`, `Sieve.SiftsAt.rewind`: the main rules.
-/

namespace PklSyntax

/-- The problem is reported under the options: some warnings are only given on request. -/
def Options.asksFor (options : Options) : Problem → Bool
  | .missingIntegerPart _ | .contentOnOpeningLine => options.styleWarnings
  | .orphanedDocComment => options.docCommentWarnings
  | _ => true

/-- Errors are reported under all options. -/
theorem Options.asksFor_of_isError (options : Options) {problem : Problem} {span : Span}
    (h : (problem.diagnostic span).isError = true) : options.asksFor problem = true := by
  cases problem <;> first | rfl | cases h

namespace State

/-- Every diagnostic on record reports a problem. -/
def Reported (s : State) : Prop :=
  ∀ d ∈ s.diagnostics.toList, ∃ (problem : Problem) (span : Span), d = problem.diagnostic span

theorem Reported.push {s : State} (h : s.Reported) (problem : Problem) (span : Span) :
    Reported { s with diagnostics := s.diagnostics.push (problem.diagnostic span) } := by
  intro d hd
  rw [Array.toList_push, List.mem_append, List.mem_singleton] at hd
  exact hd.elim (h d) fun heq => ⟨problem, span, heq⟩

/-- The state when only those diagnostics are on record that are kept. -/
def sifted (keep : Diagnostic → Bool) (s : State) : State :=
  { s with diagnostics := s.diagnostics.filter keep }

end State

/-- Two readings of one text under different options, with the diagnostics of the first one that the
second one keeps: those of the problems that it asks for, too. -/
structure Sieve where
  text : Array Char
  first : Options
  second : Options
  keep : Diagnostic → Bool
  asksFor : ∀ problem, second.asksFor problem = true → first.asksFor problem = true
  keep_diagnostic : ∀ (problem : Problem) (span : Span), first.asksFor problem = true →
    keep (problem.diagnostic span) = second.asksFor problem
  maxErrors : 0 < second.maxErrors → 0 < first.maxErrors ∧ first.maxErrors ≤ second.maxErrors

/-- The state in which a run ends. -/
def endState {α : Type} : EStateM.Result Stop State α → State
  | .ok _ s => s
  | .error _ s => s

namespace Sieve

/-- What stays the same during the first reading. -/
abbrev front (W : Sieve) : Context := ⟨W.text, W.first⟩

/-- What stays the same during the second reading. -/
abbrev behind (W : Sieve) : Context := ⟨W.text, W.second⟩

variable {α : Type}

/-- How a run ends whose record goes through the sieve. -/
def ending (W : Sieve) : EStateM.Result Stop State α → EStateM.Result Stop State α
  | .ok a s => .ok a (s.sifted W.keep)
  | .error stop s => .error stop (s.sifted W.keep)

/-- The run of `q` in the second reading comes to what the run of `p` from `s` in the first one comes
to, but for what the sieve leaves out. -/
def SiftsAt (W : Sieve) (p q : Parser α) (s : State) : Prop :=
  s.Reported → q W.behind (s.sifted W.keep) = W.ending (p W.front s) ∧
    (endState (p W.front s)).Reported

end Sieve

/-- The parser does the same in both readings, but for what the sieve leaves out. -/
def Parser.Sifts {α : Type} (W : Sieve) (p : Parser α) : Prop := ∀ s, W.SiftsAt p p s

/-! ### The record behind the sieve -/

section Record

variable {W : Sieve} {text : Array Char} {s s' : State}

/-- Nothing that is asked for is left out. -/
theorem Sieve.keep_of_asksFor (W : Sieve) (problem : Problem) (span : Span)
    (h : W.second.asksFor problem = true) : W.keep (problem.diagnostic span) = true := by
  rw [W.keep_diagnostic problem span (W.asksFor problem h), h]

/-- Recording what is kept commutes with sifting. -/
theorem State.sifted_push {d : Diagnostic} (s : State) (hd : W.keep d = true) :
    State.sifted W.keep { s with diagnostics := s.diagnostics.push d } =
      { s.sifted W.keep with diagnostics := (s.sifted W.keep).diagnostics.push d } := by
  simp only [sifted, Array.filter_push, hd, if_true]

/-- Recording what is left out changes nothing behind the sieve. -/
theorem State.sifted_push_of_left_out {d : Diagnostic} (s : State) (hd : W.keep d = false) :
    State.sifted W.keep { s with diagnostics := s.diagnostics.push d } = s.sifted W.keep := by
  simp only [sifted, Array.filter_push, hd, Bool.false_eq_true, if_false]

/-- The first entries of a record that has been continued, when both have been sifted. -/
theorem take_filter {α : Type} (keep : α → Bool) {as bs : Array α}
    (h : as.toList <+: bs.toList) : (bs.filter keep).take (as.filter keep).size = as.filter keep := by
  obtain ⟨rest, hrest⟩ := h
  apply Array.toList_inj.1
  rw [Array.take_eq_extract, Array.toList_extract, Array.toList_filter, ← hrest, List.filter_append,
    ← Array.length_toList, Array.toList_filter]
  simp

/-- Going back to an earlier state restores it, also behind the sieve. -/
theorem Kept.rewind_sifted (h : Kept text s s') (keep : Diagnostic → Bool) :
    (s'.sifted keep).rewind (s.sifted keep).checkpoint = s.sifted keep := by
  have hdocs : s'.docs.take s.docs.size = s.docs := congrArg State.docs h.rewind
  have hrecord := take_filter keep h.diagnostics
  simp only [State.rewind, State.checkpoint, State.sifted, hrecord, hdocs, h.mode_eq]

/-- Trying a construct loses nothing. -/
theorem kept_of_attempt {α : Type} {p : Parser α} {ctx : Context} {P : α → State → Prop} {a? : Option α}
    (hp : p.Grows ctx s P) (h : Parser.attempt p ctx s = .ok a? s') : Kept ctx.text s s' := by
  rw [Parser.attempt] at h
  cases hrun : p ctx s with
  | ok a t =>
    rw [hrun] at h
    cases h
    exact (hp.of_ok hrun).1.toKept
  | error stop t =>
    rw [hrun] at h
    cases stop with
    | failed =>
      cases h
      exact hp.kept hrun
    | tooDeep => cases h
    | stalled => cases h

/-- What was reported before is reported still. -/
theorem Kept.reported (h : Kept text s s') (hs' : s'.Reported) : s.Reported :=
  fun d hd => hs' d (h.diagnostics.subset hd)

/-- The number of errors is not changed by sifting. -/
theorem Sieve.errorCount_sifted (W : Sieve) (hs : s.Reported) :
    (s.sifted W.keep).errorCount = s.errorCount := by
  simp only [State.errorCount, State.sifted, ← Array.countP_toList, Array.toList_filter,
    List.countP_filter]
  refine List.countP_congr fun d hd => ?_
  obtain ⟨problem, span, rfl⟩ := hs d hd
  simpa using fun herror => W.keep_of_asksFor _ span (W.second.asksFor_of_isError herror)

/-- What trivia call for are problems, and they are kept. -/
theorem Sieve.called (W : Sieve) (text : Array Char) (i : Nat) :
    ∀ d ∈ (triviaFrom text i).1.filterMap Trivia.diagnostic?,
      W.keep d = true ∧ ∃ (problem : Problem) (span : Span), d = problem.diagnostic span := by
  intro d hd
  rcases called_triviaFrom text i with hnone | ⟨⟨span, hsome⟩, -⟩
  · rw [hnone] at hd
    cases hd
  · rw [hsome, List.mem_singleton] at hd
    rw [hd]
    exact ⟨W.keep_of_asksFor _ span rfl, _, span, rfl⟩

/-- Skipping trivia commutes with sifting. -/
theorem State.sifted_skipTrivia (W : Sieve) (text : Array Char) (s : State) :
    (s.sifted W.keep).skipTrivia text = (s.skipTrivia text).sifted W.keep := by
  have hrecord : (s.diagnostics ++ (triviaFrom text s.pos).1.filterMap Trivia.diagnostic?).filter
      W.keep = s.diagnostics.filter W.keep ++
        (triviaFrom text s.pos).1.filterMap Trivia.diagnostic? := by
    apply Array.toList_inj.1
    simp [List.filter_eq_self.2 fun d hd => (W.called text s.pos d hd).1]
  obtain ⟨pos, mode, diagnostics, docs, attached, runStart, triviaEnd⟩ := s
  cases mode with
  | tight => rfl
  | loose =>
    simp only [skipTrivia, sifted, hrecord]
    rfl

theorem State.Reported.skipTrivia (W : Sieve) (text : Array Char) (h : s.Reported) :
    (s.skipTrivia text).Reported := by
  rw [State.skipTrivia]
  split
  · exact h
  · intro d hd
    rw [Array.toList_appendList, List.mem_append] at hd
    exact hd.elim (h d) fun hd => (W.called text s.pos d hd).2

/-- A doc comment is taken in the same way behind the sieve. -/
theorem State.sifted_takeDoc (keep : Diagnostic → Bool) (s : State) :
    (s.sifted keep).takeDoc = (s.takeDoc.1, s.takeDoc.2.sifted keep) := by
  show (if s.triviaEnd = some s.pos ∧ s.runStart < s.docs.size then
      let last := s.docs.size - 1
      if s.attached.contains last then (none, s.sifted keep)
      else (s.docs[last]?, { s.sifted keep with attached := last :: s.attached })
    else (none, s.sifted keep)) = _
  rw [takeDoc]
  split
  · dsimp only
    split <;> rfl
  · rfl

end Record

/-! ### Rules -/

namespace Sieve.SiftsAt

open PklSyntax.Parser

variable {α β σ : Type} {W : Sieve} {s s₀ : State} {p q : Parser α} {f f' : α → Parser β}

theorem pure (a : α) : W.SiftsAt (Pure.pure a) (Pure.pure a) s := fun hs => ⟨rfl, hs⟩

theorem bind (hp : W.SiftsAt p q s)
    (hf : ∀ a s', p W.front s = .ok a s' → W.SiftsAt (f a) (f' a) s') :
    W.SiftsAt (p >>= f) (q >>= f') s := by
  intro hs
  obtain ⟨hrun, hreported⟩ := hp hs
  rw [Parser.bind_apply, Parser.bind_apply, hrun]
  cases hend : p W.front s with
  | ok a s' =>
    rw [hend] at hreported
    exact hf a s' hend hreported
  | error stop s' =>
    rw [hend] at hreported
    exact ⟨rfl, hreported⟩

theorem look {v : Context → State → α} (hp : Looks p v)
    (hv : v W.behind (s.sifted W.keep) = v W.front s)
    (hf : W.SiftsAt (f (v W.front s)) (f' (v W.front s)) s) : W.SiftsAt (p >>= f) (p >>= f') s := by
  intro hs
  rw [hp.bind_apply, hp.bind_apply, hv]
  exact hf hs

theorem ite {b : Bool} {p' q' : Parser α} (hp : W.SiftsAt p p' s) (hq : W.SiftsAt q q' s) :
    W.SiftsAt (if b = true then p else q) (if b = true then p' else q') s := by
  cases b with
  | true => exact hp
  | false => exact hq

/-- Two ways that come together again. -/
theorem branch {b : Bool} {p q : Parser α} (hp : W.SiftsAt p p s) (hq : W.SiftsAt q q s)
    (hf : ∀ a s', W.SiftsAt (f a) (f' a) s') :
    W.SiftsAt (if b = true then p >>= f else q >>= f) (if b = true then p >>= f' else q >>= f') s := by
  cases b with
  | true => exact hp.bind fun a s' _ => hf a s'
  | false => exact hq.bind fun a s' _ => hf a s'

theorem inMode {mode : Mode} (hp : W.SiftsAt p q { s with mode }) :
    W.SiftsAt (Parser.inMode mode p) (Parser.inMode mode q) s := by
  intro hs
  obtain ⟨hrun, hreported⟩ := hp hs
  have hrun : q W.behind { s.sifted W.keep with mode } = W.ending (p W.front { s with mode }) := hrun
  rw [Parser.inMode, Parser.inMode, hrun]
  cases hend : p W.front { s with mode } with
  | ok a s' =>
    rw [hend] at hreported
    exact ⟨rfl, hreported⟩
  | error stop s' =>
    rw [hend] at hreported
    exact ⟨rfl, hreported⟩

/-- The rule for what depends on the options. -/
theorem options {f f' : Options → Parser β} (h : W.SiftsAt (f W.first) (f' W.second) s) :
    W.SiftsAt (Parser.theOptions >>= f) (Parser.theOptions >>= f') s := h

/-- The rule for reading ahead: the two readings set different marks. -/
theorem mark {f : Checkpoint → Parser β}
    (h : W.SiftsAt (f s.checkpoint) (f (s.sifted W.keep).checkpoint) s) :
    W.SiftsAt (Parser.mark >>= f) (Parser.mark >>= f) s := h

/-- Going back to where the run began. -/
theorem rewind {f f' : Unit → Parser β} (h : Kept W.text s₀ s) (hf : W.SiftsAt (f ()) (f' ()) s₀) :
    W.SiftsAt (Parser.rewind s₀.checkpoint >>= f)
      (Parser.rewind (s₀.sifted W.keep).checkpoint >>= f') s := by
  intro hs
  have hrun := hf (h.reported hs)
  rw [← h.rewind_sifted W.keep] at hrun
  have hstate := h.rewind
  show f' () W.behind ((s.sifted W.keep).rewind (s₀.sifted W.keep).checkpoint) =
    W.ending (f () W.front (s.rewind s₀.checkpoint)) ∧
      (endState (f () W.front (s.rewind s₀.checkpoint))).Reported
  rw [hstate]
  exact hrun

end Sieve.SiftsAt

namespace Parser.Sifts

variable {α β σ : Type} {W : Sieve} {p q : Parser α} {f : α → Parser β}

theorem pure (a : α) : (Pure.pure a : Parser α).Sifts W := fun _ => .pure a

theorem bind (hp : p.Sifts W) (hf : ∀ a, (f a).Sifts W) : (p >>= f).Sifts W :=
  fun s => (hp s).bind fun a s' _ => hf a s'

theorem map {g : α → β} (hp : p.Sifts W) : (g <$> p).Sifts W := hp.bind fun _ => .pure _

/-- What is found by looking at the text does not depend on the options or on the record. -/
theorem look {v : Context → State → α} (hp : Looks p v)
    (hv : ∀ s, v W.behind (s.sifted W.keep) = v W.front s) : p.Sifts W := by
  intro s hs
  rw [hp, hp, hv]
  exact ⟨rfl, hs⟩

theorem ite {b : Bool} {p q : Parser β} (hp : p.Sifts W) (hq : q.Sifts W) :
    (if b = true then p else q).Sifts W := by
  cases b with
  | true => exact hp
  | false => exact hq

/-- Two ways that come together again. -/
theorem branch {b : Bool} (hp : p.Sifts W) (hq : q.Sifts W) (hf : ∀ a, (f a).Sifts W) :
    (if b = true then p >>= f else q >>= f).Sifts W :=
  .ite (hp.bind hf) (hq.bind hf)

/-- A step that is taken on a condition. -/
theorem option {b : Bool} (a : α) (hp : p.Sifts W) (hf : ∀ a, (f a).Sifts W) :
    (if b = true then p >>= f else f a).Sifts W :=
  .ite (hp.bind hf) (hf a)

theorem attempt (hp : p.Sifts W) : (Parser.attempt p).Sifts W := by
  intro s hs
  obtain ⟨hrun, hreported⟩ := hp s hs
  rw [Parser.attempt, Parser.attempt, hrun]
  cases hend : p W.front s with
  | ok a s' =>
    rw [hend] at hreported
    exact ⟨rfl, hreported⟩
  | error stop s' =>
    rw [hend] at hreported
    cases stop <;> exact ⟨rfl, hreported⟩

theorem inMode {mode : Mode} (hp : p.Sifts W) : (Parser.inMode mode p).Sifts W :=
  fun s => .inMode (hp { s with mode })

theorem throw (stop : Stop) : (throw stop : Parser α).Sifts W := fun _ hs => ⟨rfl, hs⟩

theorem rounds {step : σ → Parser (Round σ β)} (hstep : ∀ v, (step v).Sifts W) (n : Nat) (value : σ) :
    (Parser.rounds step n value).Sifts W := by
  induction n generalizing value with
  | zero => exact .throw .stalled
  | succ n ih =>
    refine (hstep value).bind fun round => ?_
    cases round with
    | next v => exact ih v
    | done result => exact .pure result

end Parser.Sifts

namespace Parser

variable {α β σ : Type} {W : Sieve} {f : α → Parser β}

/-! ### Looking -/

theorem theText_sifts : theText.Sifts W := .look theText_looks fun _ => rfl

theorem position_sifts : position.Sifts W := .look position_looks fun _ => rfl

theorem peek_sifts : peek.Sifts W := .look peek_looks fun _ => rfl

theorem peekAt_sifts (n : Nat) : (peekAt n).Sifts W := .look (peekAt_looks n) fun _ => rfl

theorem atEnd_sifts : atEnd.Sifts W := .look atEnd_looks fun _ => rfl

theorem startsWith_sifts (word : String) : (startsWith word).Sifts W :=
  .look (startsWith_looks word) fun _ => rfl

theorem atWord_sifts (word : String) : (atWord word).Sifts W := .look (atWord_looks word) fun _ => rfl

theorem wordEnd_sifts : wordEnd.Sifts W := .look wordEnd_looks fun _ => rfl

theorem slice_sifts (start stop : Nat) : (slice start stop).Sifts W :=
  .look (slice_looks start stop) fun _ => rfl

theorem sliceFrom_sifts (start : Nat) : (sliceFrom start).Sifts W :=
  .look (sliceFrom_looks start) fun _ => rfl

theorem peekWord_sifts : peekWord.Sifts W := .look peekWord_looks fun _ => rfl

theorem newlineSince_sifts (span : Span) : (newlineSince span).Sifts W :=
  .look (newlineSince_looks span) fun _ => rfl

theorem spanFrom_sifts (start : Nat) : (spanFrom start).Sifts W :=
  .look (spanFrom_looks start) fun _ => rfl

theorem atIdentifier_sifts : atIdentifier.Sifts W := .look atIdentifier_looks fun _ => rfl

/-! ### Steps -/

theorem moveTo_sifts (pos : Nat) : (moveTo pos).Sifts W := fun _ hs => ⟨rfl, hs⟩

theorem advance_sifts (n : Nat) : (advance n).Sifts W :=
  theText_sifts.bind fun _ => position_sifts.bind fun _ => moveTo_sifts _

theorem skip_sifts : skip.Sifts W := fun s hs =>
  ⟨congrArg (EStateM.Result.ok ()) (s.sifted_skipTrivia W W.text), hs.skipTrivia W W.text⟩

theorem takeDoc_sifts : takeDoc.Sifts W := by
  intro s hs
  have htaken := s.sifted_takeDoc W.keep
  obtain ⟨attached, hstate, -⟩ := s.takeDoc_eq
  show EStateM.Result.ok (s.sifted W.keep).takeDoc.1 (s.sifted W.keep).takeDoc.2 =
    .ok s.takeDoc.1 (s.takeDoc.2.sifted W.keep) ∧ s.takeDoc.2.Reported
  rw [htaken, hstate]
  exact ⟨rfl, hs⟩

/-- A problem that both readings ask for. -/
theorem report_sifts {problem : Problem} (hasked : W.second.asksFor problem = true) (span : Span) :
    (report problem span).Sifts W := fun s hs =>
  ⟨congrArg (EStateM.Result.ok ()) (s.sifted_push (W.keep_of_asksFor _ span hasked)).symm,
    hs.push problem span⟩

theorem failWith_sifts {problem : Problem} (hasked : W.second.asksFor problem = true) (span : Span) :
    (failWith problem span : Parser α).Sifts W :=
  (report_sifts hasked span).bind fun _ => .throw .failed

/-- What stands behind a failure does not matter. -/
theorem failWith_bind_sifts {problem : Problem} (hasked : W.second.asksFor problem = true)
    (span : Span) : (failWith problem span >>= f).Sifts W := fun s hs =>
  ⟨congrArg (EStateM.Result.error Stop.failed)
    (s.sifted_push (W.keep_of_asksFor _ span hasked)).symm, hs.push problem span⟩

/-- A warning that is given when it is asked for. -/
theorem reportIfAsked_sifts (problem : Problem) (span : Span) {f : Unit → Parser β} {s : State}
    (hf : (f ()).Sifts W) :
    W.SiftsAt (if W.first.asksFor problem = true then report problem span >>= f else f ())
      (if W.second.asksFor problem = true then report problem span >>= f else f ()) s := by
  cases hsecond : W.second.asksFor problem with
  | true =>
    rw [if_pos (W.asksFor problem hsecond), if_pos rfl]
    exact ((report_sifts hsecond span).bind fun _ => hf) s
  | false =>
    cases hfirst : W.first.asksFor problem with
    | false => exact hf s
    | true =>
      intro hs
      have hkeep := (W.keep_diagnostic problem span hfirst).trans hsecond
      have hrun := hf { s with diagnostics := s.diagnostics.push (problem.diagnostic span) }
        (hs.push problem span)
      rw [s.sifted_push_of_left_out hkeep] at hrun
      exact hrun

theorem repeating_sifts {step : σ → Parser (Round σ β)} (hstep : ∀ v, (step v).Sifts W) (value : σ) :
    (repeating step value).Sifts W :=
  theText_sifts.bind fun _ => position_sifts.bind fun _ => .rounds hstep _ value

end Parser

end PklSyntax
