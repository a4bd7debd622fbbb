import PklSyntax.Proofs.Reading.Characters
import PklSyntax.Proofs.Reading.Onward

/-!
# What parsers yield

A parser is described by what its runs come to. From a state behind `c` every run goes onward; it
ends with a result that has a given property, or it stops, and then not because a loop stalled, and
not without an error on record unless the text is nested too deeply.

Such a description is put together along the parser: there is one rule for each way of building
parsers from others. Steps that only look at the text are described by the value that they find.

## Main definitions

* `Parser.passes`: what can be evaluated of a run.
* `Parser.Looks`, `Parser.Idle`: a parser that changes nothing, by its value or whatever it is.
* `Parser.EndsFrom`: what a run comes to, measured from a state that it may return to.
* `Parser.Yields`: what a run comes to.
* `Parser.OnlyStalls`: a parser that gives nothing up.

## Main statements

* `Parser.Yields.bind`, `Parser.Yields.branch`, `Parser.Yields.repeating`: the main rules.
* `Parser.OnlyStalls.exists_result`: a parser that gives nothing up, and whose loops do not stall.
-/

namespace PklSyntax

namespace Parser

variable {α β σ : Type} {ctx : Context} {s s₀ : State} {c c₀ : Nat}

/-! ### Evaluation -/

/-- The parser has a value here, which passes the test with the state behind it. -/
def passes (p : Parser α) (ctx : Context) (s : State) (test : α → State → Bool) : Bool :=
  match p ctx s with
  | .ok a s' => test a s'
  | .error _ _ => false

theorem exists_of_passes (p : Parser α) (ctx : Context) (s : State) (test : α → State → Bool)
    (h : p.passes ctx s test = true) : ∃ a s', p ctx s = .ok a s' ∧ test a s' = true := by
  rw [passes] at h
  cases hrun : p ctx s with
  | ok a s' =>
    rw [hrun] at h
    exact ⟨a, s', rfl, h⟩
  | error stop s' =>
    rw [hrun] at h
    cases h

/-! ### Looking -/

/-- The parser changes nothing and has the given value. -/
def Looks (p : Parser α) (value : Context → State → α) : Prop :=
  ∀ ctx s, p ctx s = .ok (value ctx s) s

theorem theText_looks : Looks theText fun ctx _ => ctx.text := fun _ _ => rfl

theorem theOptions_looks : Looks theOptions fun ctx _ => ctx.options := fun _ _ => rfl

theorem position_looks : Looks position fun _ s => s.pos := fun _ _ => rfl

theorem peekAt_looks (n : Nat) : Looks (peekAt n) fun ctx s => charAt ctx.text (s.pos + n) :=
  fun _ _ => rfl

theorem peek_looks : Looks peek fun ctx s => charAt ctx.text s.pos := fun _ _ => rfl

theorem atEnd_looks : Looks atEnd fun ctx s => decide (ctx.text.size ≤ s.pos) := fun _ _ => rfl

theorem startsWith_looks (word : String) :
    Looks (startsWith word) fun ctx s => matchesAt ctx.text word s.pos := fun _ _ => rfl

theorem wordEnd_looks : Looks wordEnd fun ctx s => skipWhile ctx.text continuesName s.pos :=
  fun _ _ => rfl

theorem slice_looks (start stop : Nat) :
    Looks (slice start stop) fun ctx _ => sliceOf ctx.text start stop := fun _ _ => rfl

theorem sliceFrom_looks (start : Nat) :
    Looks (sliceFrom start) fun ctx s => sliceOf ctx.text start s.pos := fun _ _ => rfl

theorem peekWord_looks :
    Looks peekWord fun ctx s =>
      sliceOf ctx.text s.pos (skipWhile ctx.text continuesName s.pos) := fun _ _ => rfl

theorem newlineSince_looks (span : Span) :
    Looks (newlineSince span) fun ctx s => hasLineFeed ctx.text span.stop.toNat s.pos :=
  fun _ _ => rfl

theorem spanFrom_looks (start : Nat) :
    Looks (spanFrom start) fun _ s => Span.ofNat start s.pos := fun _ _ => rfl

theorem limitReached_looks : Looks limitReached fun ctx s => ctx.options.limitReached s :=
  fun _ _ => rfl

theorem mark_looks : Looks mark fun _ s => s.checkpoint := fun _ _ => rfl

theorem atIdentifier_looks :
    Looks atIdentifier fun ctx s =>
      charAt ctx.text s.pos == backtick || startsName (charAt ctx.text s.pos) := fun _ _ => rfl

theorem atWord_looks (word : String) :
    Looks (atWord word) fun ctx s => wordAt ctx.text word s.pos := by
  intro ctx s
  show (if matchesAt ctx.text word s.pos = true then
    (return !continuesName (← peekAt word.length) : Parser Bool) else return false) ctx s =
      .ok (matchesAt ctx.text word s.pos &&
        !continuesName (charAt ctx.text (s.pos + word.length))) s
  cases matchesAt ctx.text word s.pos <;> rfl

theorem bind_apply (p : Parser α) (f : α → Parser β) :
    (p >>= f) ctx s =
      match p ctx s with
      | .ok a s' => f a ctx s'
      | .error stop s' => .error stop s' := by
  show EStateM.bind (p ctx) (fun a => f a ctx) s = _
  rw [EStateM.bind]
  cases p ctx s <;> rfl

theorem Looks.bind_apply {p : Parser α} {f : α → Parser β} {v : Context → State → α}
    (hp : Looks p v) : (p >>= f) ctx s = f (v ctx s) ctx s := by
  rw [Parser.bind_apply, hp ctx s]

/-- The parser changes nothing, whatever its value. -/
def Idle (p : Parser α) : Prop := ∀ ctx s, ∃ a, p ctx s = .ok a s

theorem Looks.idle {p : Parser α} {v : Context → State → α} (h : Looks p v) : Idle p :=
  fun ctx s => ⟨v ctx s, h ctx s⟩

theorem Idle.pure (a : α) : Idle (Pure.pure a) := fun _ _ => ⟨a, rfl⟩

theorem Idle.bind {p : Parser α} {f : α → Parser β} (hp : Idle p) (hf : ∀ a, Idle (f a)) :
    Idle (p >>= f) := by
  intro ctx s
  obtain ⟨a, ha⟩ := hp ctx s
  rw [bind_apply, ha]
  exact hf a ctx s

/-! ### Ends of runs -/

/-- What a run of the parser from `s` comes to, measured from the state `s₀`, where the last token
ended at `c₀`. -/
def EndsFrom (p : Parser α) (ctx : Context) (s₀ : State) (c₀ : Nat) (s : State)
    (Q : α → State → Nat → Prop) : Prop :=
  match p ctx s with
  | .ok a s' => ∃ c', Onward ctx.text s₀ c₀ s' c' ∧ Q a s' c'
  | .error stop s' =>
    stop ≠ .stalled ∧ (stop = .failed → s'.HasError) ∧ ∃ c', Onward ctx.text s₀ c₀ s' c'

/-- What a run of the parser comes to from a state that stands behind `c`: it goes onward, and when
it has a result, the result, the new state and the new end of the last token are as `Q` says. -/
def Yields (p : Parser α) (ctx : Context) (s : State) (c : Nat)
    (Q : α → State → Nat → Prop) : Prop :=
  Stands ctx.text s c → p.EndsFrom ctx s c s Q

/-- What a round of a loop has to establish: one thing before the next round, another at the end. -/
abbrev Round.Meets (next : σ → Prop) (done : β → Prop) : Round σ β → Prop
  | .next value => next value
  | .done result => done result

/-- What holds of all entries and of one more. -/
theorem forall_mem_toList_push {P : α → Prop} {as : Array α} {a : α} (h : ∀ b ∈ as.toList, P b)
    (ha : P a) : ∀ b ∈ (as.push a).toList, P b := by
  intro b hb
  rw [Array.toList_push, List.mem_append, List.mem_singleton] at hb
  exact hb.elim (h b) fun heq => heq ▸ ha

section Rules

variable {p q : Parser α} {f : α → Parser β} {P : α → State → Nat → Prop}
  {Q : β → State → Nat → Prop}

theorem EndsFrom.pure {a : β} (h : Onward ctx.text s₀ c₀ s c) (hQ : Q a s c) :
    EndsFrom (Pure.pure a) ctx s₀ c₀ s Q :=
  ⟨c, h, hQ⟩

theorem EndsFrom.bind (hp : p.Yields ctx s c P) (h : Onward ctx.text s₀ c₀ s c)
    (hf : ∀ a s' c', Onward ctx.text s c s' c' → Onward ctx.text s₀ c₀ s' c' → P a s' c' →
      (f a).EndsFrom ctx s₀ c₀ s' Q) :
    (p >>= f).EndsFrom ctx s₀ c₀ s Q := by
  have hp := hp h.stands
  rw [EndsFrom, bind_apply]
  rw [EndsFrom] at hp
  cases hrun : p ctx s with
  | ok a s' =>
    rw [hrun] at hp
    obtain ⟨c', hon, hP⟩ := hp
    exact hf a s' c' hon (h.trans hon) hP
  | error stop s' =>
    rw [hrun] at hp
    obtain ⟨hstop, herror, c', hon⟩ := hp
    exact ⟨hstop, herror, c', h.trans hon⟩

/-- What a run comes to from where it goes on is what it comes to altogether. -/
theorem Yields.endsFrom (hp : p.Yields ctx s c P) (h : Onward ctx.text s₀ c₀ s c) :
    p.EndsFrom ctx s₀ c₀ s P := by
  have hp := hp h.stands
  rw [EndsFrom] at hp ⊢
  split at hp
  · obtain ⟨c', hon, hP⟩ := hp
    exact ⟨c', h.trans hon, hP⟩
  · obtain ⟨hstop, herror, c', hon⟩ := hp
    exact ⟨hstop, herror, c', h.trans hon⟩

theorem EndsFrom.look {v : Context → State → α} (hp : Looks p v)
    (hf : (f (v ctx s)).EndsFrom ctx s₀ c₀ s Q) : (p >>= f).EndsFrom ctx s₀ c₀ s Q := by
  rwa [EndsFrom, bind_apply, hp ctx s]

/-- Going back to where the run began. -/
theorem EndsFrom.rewind {f : Unit → Parser β} (h : Onward ctx.text s₀ c₀ s c)
    (hf : (f ()).EndsFrom ctx s₀ c₀ s₀ Q) :
    (Parser.rewind s₀.checkpoint >>= f).EndsFrom ctx s₀ c₀ s Q := by
  show match f () ctx (s.rewind s₀.checkpoint) with
    | .ok a s' => _
    | .error stop s' => _
  rw [h.rewind]
  exact hf

namespace Yields

theorem pure {a : β} (h : Q a s c) : Yields (Pure.pure a) ctx s c Q :=
  fun hs => ⟨c, .refl hs, h⟩

theorem bind (hp : p.Yields ctx s c P)
    (hf : ∀ a s' c', Onward ctx.text s c s' c' → P a s' c' → (f a).Yields ctx s' c' Q) :
    (p >>= f).Yields ctx s c Q :=
  fun hs => EndsFrom.bind hp (.refl hs) fun a s' c' h _ hP => (hf a s' c' h hP).endsFrom h

theorem mono {R : α → State → Nat → Prop} (hp : p.Yields ctx s c P)
    (h : ∀ a s' c', Onward ctx.text s c s' c' → P a s' c' → R a s' c') :
    p.Yields ctx s c R := by
  intro hs
  have hp := hp hs
  rw [EndsFrom] at hp ⊢
  split at hp
  · obtain ⟨c', hon, hP⟩ := hp
    exact ⟨c', hon, h _ _ _ hon hP⟩
  · exact hp

/-- The state may be supposed to stand where it stands. -/
theorem of_stands (h : Stands ctx.text s c → p.Yields ctx s c P) : p.Yields ctx s c P :=
  fun hs => h hs hs

theorem map {g : α → β} (hp : p.Yields ctx s c fun a => Q (g a)) :
    (g <$> p).Yields ctx s c Q :=
  hp.bind fun _ _ _ _ hQ => .pure hQ

theorem look {v : Context → State → α} (hp : Looks p v) (hf : (f (v ctx s)).Yields ctx s c Q) :
    (p >>= f).Yields ctx s c Q :=
  fun hs => .look hp (hf hs)

theorem value {v : Context → State → β} {p : Parser β} (hp : Looks p v) (hQ : Q (v ctx s) s c) :
    p.Yields ctx s c Q := by
  intro hs
  rw [EndsFrom, hp ctx s]
  exact ⟨c, .refl hs, hQ⟩

theorem idle (hp : Idle p) (hf : ∀ a, (f a).Yields ctx s c Q) : (p >>= f).Yields ctx s c Q := by
  obtain ⟨a, ha⟩ := hp ctx s
  intro hs
  rw [EndsFrom, bind_apply, ha]
  exact hf a hs

theorem ite {b : Bool} {p q : Parser β} (hp : b = true → p.Yields ctx s c Q)
    (hq : b = false → q.Yields ctx s c Q) : (if b = true then p else q).Yields ctx s c Q := by
  cases b with
  | true => exact hp rfl
  | false => exact hq rfl

/-- Two ways that come together again. -/
theorem branch {b : Bool} (hp : b = true → p.Yields ctx s c P) (hq : b = false → q.Yields ctx s c P)
    (hf : ∀ a s' c', Onward ctx.text s c s' c' → P a s' c' → (f a).Yields ctx s' c' Q) :
    (if b = true then p >>= f else q >>= f).Yields ctx s c Q := by
  cases b with
  | true => exact (hp rfl).bind hf
  | false => exact (hq rfl).bind hf

/-- A step that is taken on a condition. -/
theorem option {b : Bool} (a : α) (hp : b = true → p.Yields ctx s c P) (hP : b = false → P a s c)
    (hf : ∀ a s' c', Onward ctx.text s c s' c' → P a s' c' → (f a).Yields ctx s' c' Q) :
    (if b = true then p >>= f else f a).Yields ctx s c Q := by
  cases b with
  | true => exact (hp rfl).bind hf
  | false => exact fun hs => hf a s c (.refl hs) (hP rfl) hs

/-- A condition under which the construct is given up. -/
theorem guard {b : Bool} {r : Parser β} (hp : b = true → p.Yields ctx s c fun _ _ _ => False)
    (hr : b = false → r.Yields ctx s c Q) :
    (if b = true then p >>= f else r).Yields ctx s c Q := by
  cases b with
  | true => exact (hp rfl).bind fun _ _ _ _ h => h.elim
  | false => exact hr rfl

/-- The rule for loops: a property that holds before the first round and is kept by each round, when
each round but the last moves the cursor on. -/
theorem repeating {step : σ → Parser (Round σ β)} {value : σ} (I : σ → State → Nat → Prop)
    (hI : I value s c)
    (hstep : ∀ v s' c', Onward ctx.text s c s' c' → I v s' c' →
      (step v).Yields ctx s' c' fun round s'' c'' =>
        round.Meets (fun v' => s'.pos < s''.pos ∧ I v' s'' c'') fun result => Q result s'' c'') :
    (Parser.repeating step value).Yields ctx s c Q := by
  have hrounds : ∀ n v s' c', ctx.text.size - s'.pos < n → Onward ctx.text s c s' c' →
      I v s' c' → (rounds step n v).EndsFrom ctx s c s' Q := by
    intro n
    induction n with
    | zero => exact fun v s' c' hn => absurd hn (Nat.not_lt_zero _)
    | succ n ih =>
      intro v s' c' hn hon hv
      refine EndsFrom.bind (hstep v s' c' hon hv) hon fun round s'' c'' _ hon' hround => ?_
      cases round with
      | next v' =>
        have := hon'.stands.pos_le_size
        exact ih v' s'' c'' (by omega) hon' hround.2
      | done result => exact .pure hon' hround
  exact fun hs => .look theText_looks (.look position_looks
    (hrounds _ value s c (Nat.lt_succ_self _) (.refl hs) hI))

end Yields

/-! ### Parsers that do not stop -/

/-- The parser stops for no other reason than a stalled loop. -/
def OnlyStalls (p : Parser α) : Prop :=
  ∀ ctx s stop s', p ctx s = .error stop s' → stop = .stalled

theorem Idle.onlyStalls (h : Idle p) : p.OnlyStalls := by
  intro ctx s stop s' hrun
  obtain ⟨a, ha⟩ := h ctx s
  rw [ha] at hrun
  cases hrun

namespace OnlyStalls

theorem bind (hp : p.OnlyStalls) (hf : ∀ a, (f a).OnlyStalls) : (p >>= f).OnlyStalls := by
  intro ctx s stop s' hrun
  rw [bind_apply] at hrun
  cases hp' : p ctx s with
  | ok a s₁ =>
    rw [hp'] at hrun
    exact hf a ctx s₁ stop s' hrun
  | error stop₁ s₁ =>
    rw [hp'] at hrun
    cases hrun
    exact hp ctx s _ _ hp'

theorem repeating {step : σ → Parser (Round σ β)} (hstep : ∀ v, (step v).OnlyStalls) (value : σ) :
    (Parser.repeating step value).OnlyStalls := by
  have hrounds : ∀ n v, (rounds step n v).OnlyStalls := by
    intro n
    induction n with
    | zero =>
      intro v ctx s stop s' hrun
      cases hrun
      rfl
    | succ n ih =>
      refine fun v => (hstep v).bind fun round => ?_
      cases round with
      | next v' => exact ih v'
      | done result => exact (Idle.pure result).onlyStalls
  exact (theText_looks.idle.onlyStalls).bind fun _ =>
    (position_looks.idle.onlyStalls).bind fun _ => hrounds _ value

/-- Such a parser comes to a result. -/
theorem exists_result {Q : β → State → Nat → Prop} {p : Parser β} (hp : p.OnlyStalls)
    (hyields : p.Yields ctx s c Q) (hs : Stands ctx.text s c) :
    ∃ a s' c', p ctx s = .ok a s' ∧ Onward ctx.text s c s' c' ∧ Q a s' c' := by
  have hend := hyields hs
  rw [EndsFrom] at hend
  cases hrun : p ctx s with
  | ok a s' =>
    rw [hrun] at hend
    obtain ⟨c', hon, hQ⟩ := hend
    exact ⟨a, s', c', rfl, hon, hQ⟩
  | error stop s' =>
    rw [hrun] at hend
    exact absurd (hp ctx s stop s' hrun) hend.1

end OnlyStalls

end Rules

end Parser

end PklSyntax
