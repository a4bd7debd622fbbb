import PklSyntax.Proofs.Reading.Steps

/-!
# How the record of a parse grows

What a parse has recorded, its doc comments and diagnostics, only grows, except when it goes back to
an earlier state. So a state that was reached from another one by reading ahead can be undone: going
back gives the earlier state again, as it was.

An error is a *fault* unless it says that a comment is not closed. A comment error comes from the
trivia between tokens and gives nothing up; a fault is recorded where a construct is given up, as
the last thing that is recorded of it. So a run that ends with a result has recorded no fault, and
one that gives its construct up has recorded exactly one. This holds from every state, whatever
stands there.

Only the body of a class does otherwise, since it goes on behind a member that was given up. It is
the matter of `PklSyntax.Proofs.Growth.ClassBody`.

## Main definitions

* `Diagnostic.isFault`, `State.faults`, `State.unclosedComments`.
* `Kept`: nothing that was recorded is lost, and the cursor does not move back.
* `Grown`, `GivenUp`: the same without a fault, and with one as the last diagnostic.
* `Parser.GrowsFrom`, `Parser.Grows`: what the runs of a parser come to.

## Main statements

* `Kept.rewind`: going back to an earlier state restores it.
* `Parser.Grows.bind`, `Parser.Grows.repeating`, `Parser.GrowsFrom.rewind`: the main rules.
-/

namespace PklSyntax

namespace Diagnostic

/-- The diagnostic says that a block comment is not closed. -/
def isUnclosedComment (d : Diagnostic) : Bool :=
  d.code == "E100" && d.message == "unterminated block comment"

/-- The diagnostic is an error for which a construct is given up. -/
def isFault (d : Diagnostic) : Bool := d.isError && !d.isUnclosedComment

end Diagnostic

namespace State

/-- The errors for which constructs were given up, in the order in which they were recorded. -/
def faults (s : State) : List Diagnostic := s.diagnostics.toList.filter Diagnostic.isFault

/-- How often it was recorded that a comment is not closed. -/
def unclosedComments (s : State) : Nat := s.diagnostics.toList.countP Diagnostic.isUnclosedComment

/-- Every diagnostic on record has a place in the text. -/
def Located (s : State) : Prop := ∀ d ∈ s.diagnostics.toList, d.span?.isSome = true

theorem Located.push {s : State} (h : s.Located) {d : Diagnostic} (hd : d.span?.isSome = true) :
    Located { s with diagnostics := s.diagnostics.push d } := by
  intro d' hd'
  rw [Array.toList_push, List.mem_append, List.mem_singleton] at hd'
  exact hd'.elim (h d') fun heq => heq ▸ hd

end State

variable {text : Array Char} {s s' t : State}

/-- Only one problem says that a comment is not closed. -/
theorem isUnclosedComment_diagnostic (problem : Problem) (span : Span) :
    (problem.diagnostic span).isUnclosedComment = decide (problem = .unterminatedComment) := by
  cases problem <;> rfl

/-- An item that calls for a diagnostic is a comment that is not closed and reaches to the end. -/
theorem triviaAt?_unclosed {i : Nat} {item : Trivia} {d : Diagnostic}
    (h : triviaAt? text i = some item) (hd : item.diagnostic? = some d) :
    d = Problem.unterminatedComment.diagnostic (.ofNat i (i + 2)) ∧ item.stop = text.size := by
  cases item with
  | unclosedComment start stop =>
    obtain ⟨rfl, rfl, -⟩ := triviaAt?_unclosedComment h
    cases hd
    exact ⟨rfl, rfl⟩
  | blanks | lineComment | docBlock | blockComment => cases hd

/-- What trivia call for: nothing, or that the comment is not closed with which they end. -/
theorem called_triviaFrom (text : Array Char) (i : Nat) :
    (triviaFrom text i).1.filterMap Trivia.diagnostic? = [] ∨
      (∃ span, (triviaFrom text i).1.filterMap Trivia.diagnostic? =
        [Problem.unterminatedComment.diagnostic span]) ∧ i < text.size ∧
        skipEnd text i = text.size := by
  induction i using trivia_induction text with
  | stop i h =>
    rw [triviaFrom_of_none h]
    exact .inl rfl
  | item i item h ih =>
    have hlt := (triviaAt?_spec h).1
    have hle := (triviaAt?_spec h).2.1
    rw [triviaFrom_of_some h, skipEnd_of_some h, List.filterMap_cons]
    cases hd : item.diagnostic? with
    | none => exact ih.imp_right fun hcalled => ⟨hcalled.1, by omega, hcalled.2.2⟩
    | some d =>
      obtain ⟨rfl, hstop⟩ := triviaAt?_unclosed h hd
      rw [hstop] at hlt ⊢
      refine .inr ⟨⟨.ofNat i (i + 2), ?_⟩, hlt,
        skipEnd_of_none (triviaAt?_size_le (Nat.le_refl _))⟩
      rw [triviaFrom_of_none (triviaAt?_size_le (Nat.le_refl _))]
      rfl

/-- Nothing that was recorded at `s` is lost at `s'`, and the cursor has not moved back. That a
comment is not closed is recorded at most once more, and then the end of the text is reached. All
that is recorded has a place in the text. -/
structure Kept (text : Array Char) (s s' : State) : Prop where
  mode_eq : s'.mode = s.mode
  docs : s.docs.toList <+: s'.docs.toList
  diagnostics : s.diagnostics.toList <+: s'.diagnostics.toList
  pos_le : min s.pos text.size ≤ s'.pos
  pos_le_size : s.pos ≤ text.size → s'.pos ≤ text.size
  comments : s'.unclosedComments = s.unclosedComments ∨
    s'.unclosedComments = s.unclosedComments + 1 ∧ s.pos < text.size ∧ text.size ≤ s'.pos
  located : s.Located → s'.Located

/-- Nothing is lost, and no fault was recorded. -/
structure Grown (text : Array Char) (s s' : State) : Prop extends Kept text s s' where
  faults : s'.faults = s.faults

/-- Nothing is lost, and the last diagnostic is the only fault that was recorded. -/
def GivenUp (text : Array Char) (s s' : State) : Prop :=
  ∃ t fault, Grown text s t ∧ fault.isFault = true ∧ fault.span?.isSome = true ∧
    s' = { t with diagnostics := t.diagnostics.push fault }

/-- The cursor was in the text and has moved on. -/
def Advanced (text : Array Char) (s s' : State) : Prop := s.pos < text.size ∧ s.pos < s'.pos

namespace Kept

theorem refl (s : State) : Kept text s s :=
  ⟨rfl, List.prefix_rfl, List.prefix_rfl, Nat.min_le_left _ _, id, .inl rfl, id⟩

theorem trans (h : Kept text s s') (h' : Kept text s' t) : Kept text s t where
  mode_eq := h'.mode_eq.trans h.mode_eq
  docs := h.docs.trans h'.docs
  diagnostics := h.diagnostics.trans h'.diagnostics
  pos_le := by
    have := h.pos_le
    have := h'.pos_le
    omega
  pos_le_size := fun hs => h'.pos_le_size (h.pos_le_size hs)
  comments := by
    have := h.pos_le
    have := h'.pos_le
    rcases h.comments with hc | hc <;> rcases h'.comments with hc' | hc' <;> omega
  located := h'.located ∘ h.located

/-- Going back to an earlier state restores it. -/
theorem rewind (h : Kept text s s') : s'.rewind s.checkpoint = s := by
  have htake {α : Type} {as bs : Array α} (hinit : as.toList <+: bs.toList) :
      bs.take as.size = as := by
    obtain ⟨rest, hrest⟩ := hinit
    apply Array.toList_inj.1
    rw [Array.take_eq_extract, Array.toList_extract, ← hrest, ← Array.length_toList]
    simp
  simp only [State.rewind, State.checkpoint, htake h.diagnostics, htake h.docs, h.mode_eq]

/-- Nothing is lost when a parser in another mode is run. -/
theorem of_mode {mode : Mode} (h : Kept text { s with mode } s') :
    Kept text s { s' with mode := s.mode } where
  mode_eq := rfl
  docs := h.docs
  diagnostics := h.diagnostics
  pos_le := h.pos_le
  pos_le_size := h.pos_le_size
  comments := h.comments
  located := h.located

/-- What changes nothing but the cursor loses nothing. -/
theorem moveTo {pos : Nat} (hle : min s.pos text.size ≤ pos)
    (hsize : s.pos ≤ text.size → pos ≤ text.size) : Kept text s { s with pos } where
  mode_eq := rfl
  docs := List.prefix_rfl
  diagnostics := List.prefix_rfl
  pos_le := hle
  pos_le_size := hsize
  comments := .inl rfl
  located := id

/-- What records a diagnostic loses nothing. -/
theorem push {d : Diagnostic} (hd : d.isUnclosedComment = false)
    (hspan : d.span?.isSome = true) :
    Kept text s { s with diagnostics := s.diagnostics.push d } where
  mode_eq := rfl
  docs := List.prefix_rfl
  diagnostics := by simp
  pos_le := Nat.min_le_left _ _
  pos_le_size := id
  comments := .inl (by simp [State.unclosedComments, hd])
  located := fun h => h.push hspan

/-- What is attached has no bearing on what is kept. -/
theorem attach {attached : List Nat} : Kept text s { s with attached } where
  mode_eq := rfl
  docs := List.prefix_rfl
  diagnostics := List.prefix_rfl
  pos_le := Nat.min_le_left _ _
  pos_le_size := id
  comments := .inl rfl
  located := id

end Kept

namespace Grown

theorem refl (s : State) : Grown text s s := ⟨.refl s, rfl⟩

theorem trans (h : Grown text s s') (h' : Grown text s' t) : Grown text s t :=
  ⟨h.toKept.trans h'.toKept, h'.faults.trans h.faults⟩

theorem of_mode {mode : Mode} (h : Grown text { s with mode } s') :
    Grown text s { s' with mode := s.mode } :=
  ⟨h.toKept.of_mode, h.faults⟩

theorem moveTo {pos : Nat} (hle : min s.pos text.size ≤ pos)
    (hsize : s.pos ≤ text.size → pos ≤ text.size) : Grown text s { s with pos } :=
  ⟨.moveTo hle hsize, rfl⟩

/-- A warning is no fault. -/
theorem push {d : Diagnostic} (herror : d.isError = false) (hd : d.isUnclosedComment = false)
    (hspan : d.span?.isSome = true) :
    Grown text s { s with diagnostics := s.diagnostics.push d } :=
  ⟨.push hd hspan, by simp [State.faults, Diagnostic.isFault, herror]⟩

theorem attach {attached : List Nat} : Grown text s { s with attached } := ⟨.attach, rfl⟩

/-- Where trivia are skipped, at most one of them calls for a diagnostic: a comment that is not
closed and so reaches to the end of the text. -/
theorem skipTrivia (s : State) : Grown text s (s.skipTrivia text) := by
  rw [State.skipTrivia]
  split
  · exact .refl s
  · have hle := @le_skipEnd text s.pos
    have hcalled := called_triviaFrom text s.pos
    simp only
    refine ⟨⟨rfl, by simp, by simp, ?_, skipEnd_le_size, ?_, fun hlocated => ?_⟩, ?_⟩
    · show min s.pos text.size ≤ skipEnd text s.pos
      omega
    · rcases hcalled with hnone | ⟨⟨span, hsome⟩, hlt, hend⟩
      · exact .inl (by simp [State.unclosedComments, hnone])
      · refine .inr ⟨?_, hlt, Nat.le_of_eq hend.symm⟩
        simp [State.unclosedComments, hsome, isUnclosedComment_diagnostic]
    · rcases hcalled with hnone | ⟨⟨span, hsome⟩, -⟩
      · simpa [State.Located, hnone] using hlocated
      · simpa [State.Located, hsome, or_imp, forall_and] using hlocated
    · rcases hcalled with hnone | ⟨⟨span, hsome⟩, -⟩
      · simp [State.faults, hnone]
      · simp [State.faults, hsome, Diagnostic.isFault, isUnclosedComment_diagnostic]

theorem advanced (h : Grown text s s') (h' : Advanced text s' t) : Advanced text s t := by
  have := h.pos_le
  obtain ⟨hlt, hlt'⟩ := h'
  exact ⟨by omega, by omega⟩

end Grown

theorem Advanced.kept (h : Advanced text s s') (h' : Kept text s' t) : Advanced text s t := by
  have := h'.pos_le
  obtain ⟨hlt, hlt'⟩ := h
  exact ⟨hlt, by omega⟩

theorem Advanced.grown (h : Advanced text s s') (h' : Grown text s' t) : Advanced text s t :=
  h.kept h'.toKept

namespace GivenUp

theorem kept (h : GivenUp text s s') : Kept text s s' := by
  obtain ⟨t, fault, hgrown, hfault, hspan, rfl⟩ := h
  refine hgrown.toKept.trans (.push ?_ hspan)
  simp only [Diagnostic.isFault, Bool.and_eq_true, Bool.not_eq_true'] at hfault
  exact hfault.2

theorem of_grown (h : Grown text s s') (h' : GivenUp text s' t) : GivenUp text s t := by
  obtain ⟨t', fault, hgrown, hfault, heq⟩ := h'
  exact ⟨t', fault, h.trans hgrown, hfault, heq⟩

theorem of_mode {mode : Mode} (h : GivenUp text { s with mode } s') :
    GivenUp text s { s' with mode := s.mode } := by
  obtain ⟨t, fault, hgrown, hfault, hspan, rfl⟩ := h
  exact ⟨_, fault, hgrown.of_mode, hfault, hspan, rfl⟩

/-- Exactly one fault was recorded, and it is the last diagnostic. -/
theorem exists_fault (h : GivenUp text s s') :
    ∃ fault, s'.diagnostics.back? = some fault ∧ s'.faults = s.faults ++ [fault] := by
  obtain ⟨t, fault, hgrown, hfault, -, rfl⟩ := h
  refine ⟨fault, by simp, ?_⟩
  rw [← hgrown.faults]
  simp [State.faults, hfault]

end GivenUp

namespace Parser

variable {α β σ : Type} {ctx : Context} {s₀ : State}

/-- What a run of the parser from `s` comes to, measured from the state `s₀`. -/
def GrowsFrom (p : Parser α) (ctx : Context) (s₀ s : State) (Q : α → State → Prop) : Prop :=
  match p ctx s with
  | .ok a s' => Grown ctx.text s₀ s' ∧ Q a s'
  | .error .failed s' => GivenUp ctx.text s₀ s'
  | .error _ s' => Grown ctx.text s₀ s'

/-- What a run of the parser from `s` comes to: when it has a result, no fault was recorded, and the
result and the new state are as `Q` says; when it gives its construct up, one fault was recorded. -/
def Grows (p : Parser α) (ctx : Context) (s : State) (Q : α → State → Prop) : Prop :=
  p.GrowsFrom ctx s s Q

variable {p q : Parser α} {f : α → Parser β} {P : α → State → Prop} {Q : β → State → Prop}

theorem Grows.of_ok (hp : p.Grows ctx s P) {a : α} (h : p ctx s = .ok a s') :
    Grown ctx.text s s' ∧ P a s' := by
  rwa [Grows, GrowsFrom, h] at hp

theorem Grows.of_failed (hp : p.Grows ctx s P) (h : p ctx s = .error .failed s') :
    GivenUp ctx.text s s' := by
  rwa [Grows, GrowsFrom, h] at hp

theorem Grows.kept (hp : p.Grows ctx s P) {stop : Stop} (h : p ctx s = .error stop s') :
    Kept ctx.text s s' := by
  rw [Grows, GrowsFrom, h] at hp
  cases stop with
  | failed => exact GivenUp.kept hp
  | tooDeep => exact Grown.toKept hp
  | stalled => exact Grown.toKept hp

namespace GrowsFrom

theorem pure {a : β} (h : Grown ctx.text s₀ s) (hQ : Q a s) :
    GrowsFrom (Pure.pure a) ctx s₀ s Q := ⟨h, hQ⟩

/-- What a run comes to from where it goes on is what it comes to altogether. -/
theorem of_grows (h : Grown ctx.text s₀ s) (hp : p.Grows ctx s P) : p.GrowsFrom ctx s₀ s P := by
  rw [Grows, GrowsFrom] at hp
  rw [GrowsFrom]
  split at hp
  · exact ⟨h.trans hp.1, hp.2⟩
  · exact .of_grown h hp
  · exact h.trans hp

theorem bind (h : Grown ctx.text s₀ s) (hp : p.Grows ctx s P)
    (hf : ∀ a s', Grown ctx.text s s' → Grown ctx.text s₀ s' → P a s' →
      (f a).GrowsFrom ctx s₀ s' Q) :
    (p >>= f).GrowsFrom ctx s₀ s Q := by
  have hend := of_grows h hp
  rw [GrowsFrom] at hend
  rw [GrowsFrom, bind_apply]
  cases hrun : p ctx s with
  | ok a s' =>
    rw [hrun] at hend
    exact hf a s' (hp.of_ok hrun).1 hend.1 hend.2
  | error stop s' =>
    rw [hrun] at hend
    cases stop <;> exact hend

theorem look {v : Context → State → α} (hp : Looks p v)
    (hf : (f (v ctx s)).GrowsFrom ctx s₀ s Q) : (p >>= f).GrowsFrom ctx s₀ s Q := by
  rwa [GrowsFrom, bind_apply, hp ctx s]

/-- Going back to where the run began. -/
theorem rewind {f : Unit → Parser β} (h : Kept ctx.text s₀ s)
    (hf : (f ()).GrowsFrom ctx s₀ s₀ Q) :
    (Parser.rewind s₀.checkpoint >>= f).GrowsFrom ctx s₀ s Q := by
  show match f () ctx (s.rewind s₀.checkpoint) with
    | .ok a s' => _
    | .error .failed s' => _
    | .error _ s' => _
  rw [h.rewind]
  exact hf

/-- Trying a construct. When it is given up, its fault is on record; it remains to go back. -/
theorem attempt {f : Option α → Parser β} (hp : p.Grows ctx s₀ P)
    (hsome : ∀ a s', Grown ctx.text s₀ s' → P a s' → (f (some a)).GrowsFrom ctx s₀ s' Q)
    (hnone : ∀ s', Kept ctx.text s₀ s' → (f none).GrowsFrom ctx s₀ s' Q) :
    (Parser.attempt p >>= f).GrowsFrom ctx s₀ s₀ Q := by
  rw [GrowsFrom, bind_apply, Parser.attempt]
  cases hrun : p ctx s₀ with
  | ok a s' => exact hsome a s' (hp.of_ok hrun).1 (hp.of_ok hrun).2
  | error stop s' =>
    cases stop with
    | failed => exact hnone s' (hp.of_failed hrun).kept
    | tooDeep =>
      rw [Grows, GrowsFrom, hrun] at hp
      exact hp
    | stalled =>
      rw [Grows, GrowsFrom, hrun] at hp
      exact hp

end GrowsFrom

namespace Grows

theorem pure {a : β} (hQ : Q a s) : Grows (Pure.pure a) ctx s Q := ⟨.refl s, hQ⟩

theorem bind (hp : p.Grows ctx s P)
    (hf : ∀ a s', Grown ctx.text s s' → P a s' → (f a).Grows ctx s' Q) :
    (p >>= f).Grows ctx s Q :=
  GrowsFrom.bind (.refl s) hp fun a s' h _ hP => .of_grows h (hf a s' h hP)

theorem mono {R : α → State → Prop} (hp : p.Grows ctx s P)
    (h : ∀ a s', Grown ctx.text s s' → P a s' → R a s') : p.Grows ctx s R := by
  rw [Grows, GrowsFrom] at hp ⊢
  split at hp
  · exact ⟨hp.1, h _ _ hp.1 hp.2⟩
  · exact hp
  · exact hp

/-- The result comes from the run. -/
theorem tracked (hp : p.Grows ctx s P) : p.Grows ctx s fun a s' => p ctx s = .ok a s' ∧ P a s' := by
  cases hrun : p ctx s with
  | ok a s' =>
    rw [Grows, GrowsFrom, hrun]
    exact ⟨(hp.of_ok hrun).1, rfl, (hp.of_ok hrun).2⟩
  | error stop s' =>
    rw [Grows, GrowsFrom, hrun] at hp ⊢
    cases stop <;> exact hp

theorem map {g : α → β} (hp : p.Grows ctx s fun a => Q (g a)) : (g <$> p).Grows ctx s Q :=
  hp.bind fun _ _ _ hQ => .pure hQ

theorem look {v : Context → State → α} (hp : Looks p v) (hf : (f (v ctx s)).Grows ctx s Q) :
    (p >>= f).Grows ctx s Q :=
  GrowsFrom.look hp hf

theorem value {v : Context → State → β} {p : Parser β} (hp : Looks p v) (hQ : Q (v ctx s) s) :
    p.Grows ctx s Q := by
  rw [Grows, GrowsFrom, hp ctx s]
  exact ⟨.refl s, hQ⟩

theorem idle (hp : Idle p) (hf : ∀ a, (f a).Grows ctx s Q) : (p >>= f).Grows ctx s Q := by
  obtain ⟨a, ha⟩ := hp ctx s
  rw [Grows, GrowsFrom, bind_apply, ha]
  exact hf a

theorem ite {b : Bool} {p q : Parser β} (hp : b = true → p.Grows ctx s Q)
    (hq : b = false → q.Grows ctx s Q) : (if b = true then p else q).Grows ctx s Q := by
  cases b with
  | true => exact hp rfl
  | false => exact hq rfl

/-- Two ways that come together again. -/
theorem branch {b : Bool} (hp : b = true → p.Grows ctx s P) (hq : b = false → q.Grows ctx s P)
    (hf : ∀ a s', Grown ctx.text s s' → P a s' → (f a).Grows ctx s' Q) :
    (if b = true then p >>= f else q >>= f).Grows ctx s Q := by
  cases b with
  | true => exact (hp rfl).bind hf
  | false => exact (hq rfl).bind hf

/-- A step that is taken on a condition. -/
theorem option {b : Bool} (a : α) (hp : b = true → p.Grows ctx s P) (hP : b = false → P a s)
    (hf : ∀ a s', Grown ctx.text s s' → P a s' → (f a).Grows ctx s' Q) :
    (if b = true then p >>= f else f a).Grows ctx s Q := by
  cases b with
  | true => exact (hp rfl).bind hf
  | false => exact hf a s (.refl s) (hP rfl)

/-- A condition under which the construct is given up. -/
theorem guard {b : Bool} {r : Parser β} (hp : b = true → p.Grows ctx s fun _ _ => False)
    (hr : b = false → r.Grows ctx s Q) : (if b = true then p >>= f else r).Grows ctx s Q := by
  cases b with
  | true => exact (hp rfl).bind fun _ _ _ h => h.elim
  | false => exact hr rfl

/-- The rule for loops: a property that holds before the first round and is kept by each round. -/
theorem repeating {step : σ → Parser (Round σ β)} {value : σ} (I : σ → State → Prop)
    (hI : I value s)
    (hstep : ∀ v s', Grown ctx.text s s' → I v s' →
      (step v).Grows ctx s' fun round s'' => round.Meets (I · s'') (Q · s'')) :
    (Parser.repeating step value).Grows ctx s Q := by
  have hrounds : ∀ n v s', Grown ctx.text s s' → I v s' → (rounds step n v).GrowsFrom ctx s s' Q := by
    intro n
    induction n with
    | zero => exact fun v s' h _ => h
    | succ n ih =>
      intro v s' h hv
      refine GrowsFrom.bind h (hstep v s' h hv) fun round s'' _ h' hround => ?_
      cases round with
      | next v' => exact ih v' s'' h' hround
      | done result => exact .pure h' hround
  exact .look theText_looks (.look position_looks (hrounds _ value s (.refl s) hI))

/-- The rule for reading ahead. -/
theorem mark {f : Checkpoint → Parser β} (hf : (f s.checkpoint).GrowsFrom ctx s s Q) :
    (Parser.mark >>= f).Grows ctx s Q :=
  GrowsFrom.look mark_looks hf

end Grows

end Parser

end PklSyntax
