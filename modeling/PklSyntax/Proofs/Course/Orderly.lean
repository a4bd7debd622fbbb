import PklSyntax.Proofs.Course.Production
import PklSyntax.Proofs.Layout.Row

/-!
# Orderly states and runs

A state keeps offsets into the text and numbers of doc comments apart from the text and the doc
comments themselves. It is *orderly* when none of them points anywhere else than it should: the
cursor stands in the text, the last trivia end at the cursor or in front of it, no doc comment is
taken or begins a run that is not there, and the doc comments stand in the text, one behind the
other and in front of the cursor.

A moment is orderly when its state is, when a production of anything but a token or a literal is
entered in loose mode, and when a production is left in the mode in which it was entered. A run is
orderly when from an orderly state it passes through orderly moments only.

There is one rule for each way in which parsers are put together. That all runs of a parser are
orderly that begin in some mode is found along its definition; where a production moves the cursor
to a place that it has looked for, or goes back, the rules are applied to one run.

## Main definitions

* `State.Orderly`, `Moment.Orderly`.
* `DocComment.StandsIn`: the doc comment stands at its span in the text.
* `Parser.OrderlyFrom`: the run of a parser from a state is orderly.
* `Parser.Orderly`: all runs of a parser that begin in a mode are orderly.

## Main statements

* `docsFrom_standsIn`, `docsFrom_pairwise`: the doc comments among some trivia.
* `State.Orderly.skipTrivia`, `State.Orderly.takeDoc`, `State.Orderly.moveTo`: the steps.
* `Parser.OrderlyFrom.bind`, `Parser.OrderlyFrom.rewind`: what goes on behind a parser, and what
  goes back.
* `Parser.Orderly.of_runs`: the rule for productions.
-/

namespace PklSyntax

/-- The doc comment stands in the text from the offset `lo` on up to the offset `hi`. -/
def DocComment.StandsIn (text : Array Char) (lo hi : Nat) (doc : DocComment) : Prop :=
  ∃ start stop : Nat, doc.span = .ofNat start stop ∧ lo ≤ start ∧ start < stop ∧ stop ≤ hi ∧
    matchesAt text "///" start = true

/-- The doc comment begins in front of the other one, and has no offset in common with it. -/
def DocComment.Precedes (a b : DocComment) : Prop :=
  a.span.start < b.span.start ∧ a.span.Before b.span

/-- What the state keeps on the side agrees with the text and with the doc comments. -/
structure State.Orderly (text : Array Char) (s : State) : Prop where
  pos_le : s.pos ≤ text.size
  triviaEnd_le : ∀ i, s.triviaEnd = some i → i ≤ s.pos
  runStart_le : s.runStart ≤ s.docs.size
  attached_lt : ∀ i ∈ s.attached, i < s.docs.size
  docs_standIn : ∀ doc ∈ s.docs.toList, doc.StandsIn text 0 s.pos
  docs_pairwise : s.docs.toList.Pairwise DocComment.Precedes

/-- The state of the moment is orderly, and the mode is as it should be. -/
def Moment.Orderly (text : Array Char) : Moment → Prop
  | .behind s => s.Orderly text
  | .entering construct s => s.Orderly text ∧ (construct.isLoose = true → s.mode = .loose)
  | .leaving _ before after => after.Orderly text ∧ after.mode = before.mode

theorem Moment.Orderly.state {text : Array Char} {moment : Moment} (h : moment.Orderly text) :
    moment.state.Orderly text := by
  cases moment with
  | behind => exact h
  | entering | leaving => exact h.1

variable {text : Array Char}

/-! ### Doc comments among trivia -/

namespace DocComment

variable {doc doc' : DocComment} {lo hi : Nat}

theorem StandsIn.mono (h : doc.StandsIn text lo hi) {lo' hi' : Nat} (hlo : lo' ≤ lo)
    (hhi : hi ≤ hi') : doc.StandsIn text lo' hi' := by
  obtain ⟨start, stop, hspan, hle, hlt, hstop, hmark⟩ := h
  exact ⟨start, stop, hspan, hlo.trans hle, hlt, hstop.trans hhi, hmark⟩

/-- A doc comment in front of an offset precedes one behind it. -/
theorem StandsIn.precedes {mid : Nat} (h : doc.StandsIn text lo mid)
    (h' : doc'.StandsIn text mid hi) : doc.Precedes doc' := by
  obtain ⟨start, stop, hspan, -, hlt, hstop, -⟩ := h
  obtain ⟨start', stop', hspan', hle', -, -, -⟩ := h'
  rw [Precedes, Span.Before, hspan, hspan']
  simp only [Span.ofNat]
  omega

end DocComment

/-- A block of documentation begins with its mark. -/
theorem matchesAt_of_docBlock {i : Nat} {item : Trivia} {doc : DocComment}
    (h : triviaAt? text i = some item) (hdoc : item.doc? = some doc) :
    matchesAt text "///" i = true := by
  rw [triviaAt?] at h
  split at h
  next =>
    split at h
    next => cases h; cases hdoc
    next =>
      split at h
      next hmark => exact hmark
      next =>
        split at h
        next => cases h; cases hdoc
        next =>
          split at h
          next => split at h <;> (cases h; cases hdoc)
          next => cases h
  next => cases h

theorem docsFrom_of_some {i : Nat} {item : Trivia} (h : triviaAt? text i = some item) :
    docsFrom text i = item.doc?.toList ++ docsFrom text item.stop := by
  rw [docsFrom, triviaFrom_of_some h, List.filterMap_cons]
  cases item.doc? <;> rfl

/-- The doc comment that an item of trivia is stands where the item does. -/
theorem Trivia.standsIn {i : Nat} {item : Trivia} {doc : DocComment}
    (h : triviaAt? text i = some item) (hdoc : doc ∈ item.doc?.toList) :
    doc.StandsIn text i item.stop := by
  have hsome : item.doc? = some doc := Option.mem_toList.1 hdoc
  exact ⟨i, item.stop, triviaAt?_docBlock h hsome, le_refl i, (triviaAt?_spec h).1, le_refl _,
    matchesAt_of_docBlock h hsome⟩

/-- The doc comments among some trivia stand there. -/
theorem docsFrom_standsIn {i : Nat} {doc : DocComment} (h : doc ∈ docsFrom text i) :
    doc.StandsIn text i (skipEnd text i) := by
  induction i using trivia_induction text with
  | stop i hi =>
    rw [docsFrom, triviaFrom_of_none hi] at h
    cases h
  | item i item hi ih =>
    rw [skipEnd_of_some hi]
    rw [docsFrom_of_some hi] at h
    rcases List.mem_append.1 h with hdoc | hrest
    · exact (Trivia.standsIn hi hdoc).mono (le_refl i) (le_skipEnd _)
    · exact (ih hrest).mono (triviaAt?_spec hi).1.le (le_refl _)

/-- The doc comments among some trivia stand one behind the other. -/
theorem docsFrom_pairwise (i : Nat) : (docsFrom text i).Pairwise DocComment.Precedes := by
  induction i using trivia_induction text with
  | stop i hi =>
    rw [docsFrom, triviaFrom_of_none hi]
    exact .nil
  | item i item hi ih =>
    rw [docsFrom_of_some hi]
    refine List.pairwise_append.2 ⟨?_, ih, fun doc hdoc doc' hdoc' =>
      (Trivia.standsIn hi hdoc).precedes (docsFrom_standsIn hdoc')⟩
    cases item.doc? with
    | none => exact .nil
    | some => exact List.pairwise_singleton _ _

/-! ### Steps -/

namespace State.Orderly

variable {s : State}

theorem initial (text : Array Char) : Orderly text {} where
  pos_le := Nat.zero_le _
  triviaEnd_le := nofun
  runStart_le := le_refl 0
  attached_lt := nofun
  docs_standIn := nofun
  docs_pairwise := .nil

theorem with_mode (h : s.Orderly text) (mode : Mode) : Orderly text { s with mode } :=
  ⟨h.pos_le, h.triviaEnd_le, h.runStart_le, h.attached_lt, h.docs_standIn, h.docs_pairwise⟩

/-- Diagnostics are not kept on the side. -/
theorem with_diagnostics (h : s.Orderly text) (diagnostics : Array Diagnostic) :
    Orderly text { s with diagnostics } :=
  ⟨h.pos_le, h.triviaEnd_le, h.runStart_le, h.attached_lt, h.docs_standIn, h.docs_pairwise⟩

/-- The cursor may be moved on within the text. -/
theorem moveTo (h : s.Orderly text) {pos : Nat} (hle : s.pos ≤ pos) (hsize : pos ≤ text.size) :
    Orderly text { s with pos } where
  pos_le := hsize
  triviaEnd_le i hi := (h.triviaEnd_le i hi).trans hle
  runStart_le := h.runStart_le
  attached_lt := h.attached_lt
  docs_standIn doc hdoc := (h.docs_standIn doc hdoc).mono (Nat.zero_le _) hle
  docs_pairwise := h.docs_pairwise

/-- Doc comments may be given back, as long as those that stay taken are there. -/
theorem attach (h : s.Orderly text) {attached : List Nat}
    (hattached : ∀ i ∈ attached, i < s.docs.size) : Orderly text { s with attached } :=
  ⟨h.pos_le, h.triviaEnd_le, h.runStart_le, hattached, h.docs_standIn, h.docs_pairwise⟩

theorem takeDoc (h : s.Orderly text) : s.takeDoc.2.Orderly text := by
  obtain ⟨attached, heq, hattached⟩ := s.takeDoc_eq
  rw [heq]
  exact h.attach fun i hi => (hattached i hi).elim (h.attached_lt i) id

/-- Skipping trivia adds the doc comments among them, all of which stand behind the cursor. -/
theorem skipTrivia (h : s.Orderly text) : (s.skipTrivia text).Orderly text := by
  rw [State.skipTrivia]
  split
  · exact h
  have hle : s.pos ≤ skipEnd text s.pos := le_skipEnd s.pos
  have hdocs : (s.docs ++ docsFrom text s.pos).toList = s.docs.toList ++ docsFrom text s.pos :=
    Array.toList_appendList
  have hsize : s.docs.size ≤ (s.docs ++ docsFrom text s.pos).size := by
    rw [← Array.length_toList, ← Array.length_toList, hdocs, List.length_append]
    omega
  exact {
    pos_le := skipEnd_le_size h.pos_le
    triviaEnd_le := fun i hi => (Option.some.inj hi).ge
    runStart_le := by
      dsimp only
      split
      · exact h.runStart_le.trans hsize
      · exact hsize
    attached_lt := fun i hi => (h.attached_lt i hi).trans_le hsize
    docs_standIn := fun doc hdoc => by
      rcases List.mem_append.1 (hdocs ▸ hdoc) with hold | hnew
      · exact (h.docs_standIn doc hold).mono (Nat.zero_le _) hle
      · exact (docsFrom_standsIn hnew).mono (Nat.zero_le _) (le_refl _)
    docs_pairwise := by
      refine hdocs.symm ▸ List.pairwise_append.2 ⟨h.docs_pairwise, docsFrom_pairwise s.pos,
        fun doc hdoc doc' hdoc' => (h.docs_standIn doc hdoc).precedes (docsFrom_standsIn hdoc')⟩ }

end State.Orderly

namespace Parser

variable {α β σ : Type}

/-- From an orderly state, the run of the parser passes through orderly moments only. -/
def OrderlyFrom (p : Parser α) [Scripted p] (ctx : Context) (s : State) : Prop :=
  s.Orderly ctx.text → ∀ moment ∈ course p ctx s, moment.Orderly ctx.text

/-- All runs of the parser that begin in the mode are orderly. -/
class Orderly (mode : Mode) (p : Parser α) [Scripted p] : Prop where
  orderlyFrom : ∀ ctx s, s.mode = mode → OrderlyFrom p ctx s

/-! ### Rules for one run -/

namespace OrderlyFrom

variable {p q : Parser α} {f : α → Parser β} {ctx : Context} {s : State}

/-- An orderly run ends in an orderly state. -/
theorem endState {_ : Scripted p} (h : OrderlyFrom p ctx s) (hs : s.Orderly ctx.text) :
    (PklSyntax.endState (p ctx s)).Orderly ctx.text := by
  rcases (Scripted.script : Script p).endState_eq_or_mem ctx s with hend | ⟨moment, hmem, hend⟩
  · rwa [hend]
  · rw [← hend]
    exact (h hs moment hmem).state

theorem of_mode {mode : Mode} {_ : Scripted p} [Orderly mode p] (hmode : s.mode = mode) :
    OrderlyFrom p ctx s :=
  Orderly.orderlyFrom ctx s hmode

/-- Only runs from orderly states are to be looked at. -/
theorem of_orderly {_ : Scripted p} (h : s.Orderly ctx.text → OrderlyFrom p ctx s) :
    OrderlyFrom p ctx s :=
  fun hs => h hs hs

theorem pure (a : α) : OrderlyFrom (Pure.pure a : Parser α) ctx s := fun _ => nofun

theorem throw (stop : Stop) : OrderlyFrom (throw stop : Parser α) ctx s := fun _ => nofun

theorem bind {_ : Scripted p} {_ : ∀ a, Scripted (f a)} (hp : OrderlyFrom p ctx s)
    (hf : ∀ a s', p ctx s = .ok a s' → s'.mode = s.mode → OrderlyFrom (f a) ctx s') :
    OrderlyFrom (p >>= f) ctx s := by
  intro hs moment hmem
  have hend := hp.endState hs
  have hmode := (Scripted.script : Script p).mode_endState ctx s
  rw [course_bind] at hmem
  rcases List.mem_append.1 hmem with hfirst | hnext
  · exact hp hs moment hfirst
  · cases hrun : p ctx s with
    | ok a s' =>
      rw [hrun] at hend hmode hnext
      exact hf a s' hrun hmode hend moment hnext
    | error =>
      rw [hrun] at hnext
      cases hnext

/-- What goes on behind a parser all of whose runs are orderly begins in the same mode. -/
theorem after {mode : Mode} {_ : Scripted p} {_ : ∀ a, Scripted (f a)} [Orderly mode p]
    (hmode : s.mode = mode)
    (hf : ∀ a s', p ctx s = .ok a s' → s'.mode = mode → OrderlyFrom (f a) ctx s') :
    OrderlyFrom (p >>= f) ctx s :=
  .bind (.of_mode hmode) fun a s' hrun hmode' => hf a s' hrun (hmode'.trans hmode)

/-- What is seen by looking is known behind it. -/
theorem look {_ : Scripted p} {_ : ∀ a, Scripted (f a)} {v : Context → State → α} [Orderly s.mode p]
    (hp : Looks p v) (hf : OrderlyFrom (f (v ctx s)) ctx s) : OrderlyFrom (p >>= f) ctx s :=
  .after rfl fun a s' hrun _ => by
    rw [hp ctx s] at hrun
    cases hrun
    exact hf

theorem idle {_ : Scripted p} {_ : ∀ a, Scripted (f a)} [Orderly s.mode p] (hp : Idle p)
    (hf : ∀ a, OrderlyFrom (f a) ctx s) : OrderlyFrom (p >>= f) ctx s :=
  .after rfl fun a s' hrun _ => by
    obtain ⟨a', ha'⟩ := hp ctx s
    rw [ha'] at hrun
    cases hrun
    exact hf a

theorem ite {c : Prop} [Decidable c] {_ : Scripted p} {_ : Scripted q}
    (hp : c → OrderlyFrom p ctx s) (hq : ¬ c → OrderlyFrom q ctx s) :
    OrderlyFrom (if c then p else q) ctx s := by
  intro hs moment hmem
  rw [course_ite] at hmem
  by_cases hc : c
  · exact hp hc hs moment (by rwa [if_pos hc] at hmem)
  · exact hq hc hs moment (by rwa [if_neg hc] at hmem)

/-- A step that leads to an orderly state. -/
theorem step {h : IsStep p} (hend : s.Orderly ctx.text →
    (PklSyntax.endState (p ctx s)).Orderly ctx.text) : @OrderlyFrom α p ⟨.step h⟩ ctx s := by
  intro hs moment hmem
  rw [List.mem_singleton.1 hmem]
  exact hend hs

theorem moveTo {pos : Nat} (hle : s.Orderly ctx.text → s.pos ≤ pos ∧ pos ≤ ctx.text.size) :
    OrderlyFrom (moveTo pos) ctx s :=
  .step fun hs => hs.moveTo (hle hs).1 (hle hs).2

/-- The rule for reading ahead. -/
theorem mark {f : Checkpoint → Parser β} {_ : ∀ c, Scripted (f c)}
    (hf : OrderlyFrom (f s.checkpoint) ctx s) : OrderlyFrom (Parser.mark >>= f) ctx s :=
  hf

/-- Going back to where a run began, of which nothing has been lost. -/
theorem rewind {s₀ : State} {f : Unit → Parser β} {_ : ∀ u, Scripted (f u)}
    (hs₀ : s₀.Orderly ctx.text) (h : Kept ctx.text s₀ s) (hf : OrderlyFrom (f ()) ctx s₀) :
    OrderlyFrom (Parser.rewind s₀.checkpoint >>= f) ctx s := by
  have hback : Parser.rewind s₀.checkpoint ctx s = .ok () s₀ :=
    congrArg (EStateM.Result.ok ()) h.rewind
  refine .bind (.step fun _ => ?_) fun _ s' hrun _ => ?_
  · rwa [hback]
  · rw [hback] at hrun
    cases hrun
    exact hf

/-- Giving back all doc comments but those that were taken where a run began, of which nothing has
been lost. -/
theorem release {s₀ : State} (hs₀ : s₀.Orderly ctx.text) (h : Kept ctx.text s₀ s) :
    OrderlyFrom (release s₀.attached) ctx s :=
  .step fun hs => hs.attach fun i hi => (hs₀.attached_lt i hi).trans_le h.docs.length_le

theorem attempt {_ : Scripted p} (h : OrderlyFrom p ctx s) : OrderlyFrom (attempt p) ctx s := h

theorem outcome {_ : Scripted p} (h : OrderlyFrom p ctx s) : OrderlyFrom (outcome p) ctx s := h

theorem inMode {mode : Mode} {_ : Scripted p} (h : OrderlyFrom p ctx { s with mode }) :
    OrderlyFrom (inMode mode p) ctx s := by
  intro hs moment hmem
  have hs' := hs.with_mode mode
  have hend := h.endState hs'
  rcases List.mem_cons.1 hmem with rfl | hmem
  · exact hs'
  rcases List.mem_append.1 hmem with hbody | hlast
  · exact h hs' moment hbody
  · rw [List.mem_singleton.1 hlast]
    show State.Orderly ctx.text (PklSyntax.endState (Parser.inMode mode p ctx s))
    rw [Parser.inMode]
    cases hrun : p ctx { s with mode } <;> (rw [hrun] at hend; exact hend.with_mode s.mode)

/-- A production is entered in the mode that it asks for, and left in the same one. -/
theorem production {construct : Construct} {body : Scripted p} (h : @OrderlyFrom α p body ctx s)
    (hmode : construct.isLoose = true → s.mode = .loose) :
    @OrderlyFrom α p (.production construct body) ctx s := by
  intro hs moment hmem
  rcases List.mem_cons.1 hmem with rfl | hmem
  · exact ⟨hs, hmode⟩
  rcases List.mem_append.1 hmem with hbody | hlast
  · exact h hs moment hbody
  · rw [List.mem_singleton.1 hlast]
    exact ⟨h.endState hs, body.script.mode_endState ctx s⟩

end OrderlyFrom

/-! ### Rules for all runs in a mode -/

namespace Orderly

variable {mode : Mode} {p q : Parser α} {f : α → Parser β}

/-- Parsers for which the mode does not matter. -/
theorem of_all {_ : Scripted p} (h : ∀ ctx s, OrderlyFrom p ctx s) : Orderly mode p :=
  ⟨fun ctx s _ => h ctx s⟩

/-- A parser that passes through no moments only looks. -/
theorem of_silent [Scripted p] (h : ∀ ctx s, course p ctx s = []) : Orderly mode p :=
  .of_all fun ctx s _ moment hmem => by
    rw [h ctx s] at hmem
    cases hmem

instance pure (a : α) : Orderly mode (Pure.pure a : Parser α) := .of_silent fun _ _ => rfl

instance read : Orderly mode (read : Parser Context) := .of_silent fun _ _ => rfl

instance get : Orderly mode (get : Parser State) := .of_silent fun _ _ => rfl

instance throw (stop : Stop) : Orderly mode (throw stop : Parser α) := .of_silent fun _ _ => rfl

/-- A parser with what goes on behind it. -/
theorem sequence {_ : Scripted p} {_ : ∀ a, Scripted (f a)} [Orderly mode p]
    (hf : ∀ a, Orderly mode (f a)) : Orderly mode (p >>= f) :=
  ⟨fun ctx _ hmode => .after hmode fun a s' _ hmode' => (hf a).orderlyFrom ctx s' hmode'⟩

theorem choice {c : Prop} [Decidable c] {_ : Scripted p} {_ : Scripted q} (hp : Orderly mode p)
    (hq : Orderly mode q) : Orderly mode (if c then p else q) :=
  ⟨fun ctx s hmode => .ite (fun _ => hp.orderlyFrom ctx s hmode) fun _ =>
    hq.orderlyFrom ctx s hmode⟩

instance bind [Scripted p] [∀ a, Scripted (f a)] [Orderly mode p] [hf : ∀ a, Orderly mode (f a)] :
    Orderly mode (p >>= f) :=
  sequence hf

instance map {g : α → β} [Scripted p] [Orderly mode p] : Orderly mode (g <$> p) :=
  inferInstanceAs (Orderly mode (p >>= fun a => Pure.pure (g a)))

instance ite {c : Prop} [Decidable c] [Scripted p] [Scripted q] [hp : Orderly mode p]
    [hq : Orderly mode q] : Orderly mode (if c then p else q) :=
  choice hp hq

/-- What is read in a mode of its own is read from there, whatever the mode is around it. -/
theorem within {mode' : Mode} {_ : Scripted p} (hp : Orderly mode' p) :
    Orderly mode (Parser.inMode mode' p) :=
  ⟨fun ctx s _ => .inMode (hp.orderlyFrom ctx { s with mode := mode' } rfl)⟩

instance inMode {mode' : Mode} [Scripted p] [hp : Orderly mode' p] :
    Orderly mode (Parser.inMode mode' p) :=
  within hp

instance attempt [Scripted p] [Orderly mode p] : Orderly mode (attempt p) :=
  ⟨fun ctx s hmode => .attempt (orderlyFrom ctx s hmode)⟩

instance outcome [Scripted p] [Orderly mode p] : Orderly mode (outcome p) :=
  ⟨fun ctx s hmode => .outcome (orderlyFrom ctx s hmode)⟩

/-- The rounds of a loop are orderly when each of them is. The induction is on the rounds. -/
instance rounds {step : σ → Parser (Round σ β)} [∀ value, Scripted (step value)]
    [∀ value, Orderly mode (step value)] (n : Nat) (value : σ) :
    Orderly mode (rounds step n value) := by
  induction n generalizing value with
  | zero => exact throw .stalled
  | succ n ih =>
    refine sequence fun round => ?_
    cases round with
    | next value => exact ih value
    | done result => exact pure result

instance forM {step : σ → Parser PUnit} [∀ a, Scripted (step a)] [∀ a, Orderly mode (step a)]
    (as : List σ) : Orderly mode (as.forM step) := by
  induction as with
  | nil => exact pure _
  | cons a as ih => exact sequence fun _ => ih

/-- Productions, by what each run of their text does. -/
theorem of_runs {construct : Construct} {body : Scripted p}
    (h : ∀ ctx s, s.mode = mode → @OrderlyFrom α p body ctx s)
    (hmode : construct.isLoose = true → mode = .loose := by first | exact fun _ => rfl | nofun) :
    @Orderly α mode p (.production construct body) :=
  @Orderly.mk _ _ _ (.production construct body) fun ctx s hs =>
    .production (h ctx s hs) fun hloose => hs.trans (hmode hloose)

theorem of_production {construct : Construct} {body : Scripted p} (h : @Orderly α mode p body)
    (hmode : construct.isLoose = true → mode = .loose := by first | exact fun _ => rfl | nofun) :
    @Orderly α mode p (.production construct body) :=
  .of_runs h.orderlyFrom hmode

instance skip : Orderly mode skip := .of_all fun _ _ => .step fun hs => hs.skipTrivia

instance record (d : Diagnostic) : Orderly mode (record d) :=
  .of_all fun _ _ => .step fun hs => hs.with_diagnostics _

instance takeDoc : Orderly mode takeDoc := .of_all fun _ _ => .step fun hs => hs.takeDoc

instance keepDiagnostics (count : Nat) : Orderly mode (keepDiagnostics count) :=
  .of_all fun _ _ => .step fun hs => hs.with_diagnostics _

instance report (problem : Problem) (span : Span) : Orderly mode (report problem span) :=
  record _

instance failWith (problem : Problem) (span : Span) :
    Orderly mode (failWith problem span : Parser α) := by
  delta Parser.failWith failWith.scripted id inferInstance
  infer_instance

end Orderly

/-- What stands behind a failure is not reached. -/
theorem OrderlyFrom.failWith {problem : Problem} {span : Span} {f : α → Parser β}
    {_ : ∀ a, Scripted (f a)} {ctx : Context} {s : State} :
    OrderlyFrom (Parser.failWith problem span >>= f) ctx s :=
  .after rfl nofun

end Parser

end PklSyntax
