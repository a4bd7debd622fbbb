import PklSyntax.Proofs.LineEnding.Trivia

/-!
# Other line endings: parsers in lockstep

The two texts are read by the same parsers, but the offsets that these have taken down on the way are
not the same, so that two parsers are compared. One *follows* another when from the same place it
comes to the same place, with a result that is the first one's at its new place; when the first one
gives its construct up, so does the second.

A parser in the text with other line endings follows itself, and this is put together along the
parser, with one rule for each way of building parsers from others. A loop may take more rounds in the
second text than in the first, where it has more characters to go over.

What a parser records where it gives its construct up is not compared. It is dropped when the parser
around it goes back, and otherwise it is an error that stays.

## Main definitions

* `Parser.Round.map`: the round of a loop whose values are changed.
* `LineFeeds.front`, `LineFeeds.behind`: the two readings.
* `LineFeeds.FollowsAt`: parsers whose runs from a state correspond.
* `Parser.GivesUp`: a parser that always gives its construct up.

## Main statements

* `LineFeeds.FollowsAt.bind`, `LineFeeds.FollowsAt.repeating`, `LineFeeds.FollowsAt.rewind`: the main
  rules.
-/

namespace PklSyntax

namespace Parser

/-- The round with its value, or the result of the loop, changed. -/
def Round.map {σ τ α β : Type} (f : σ → τ) (g : α → β) : Round σ α → Round τ β
  | next value => next (f value)
  | done result => done (g result)

/-- The parser gives its construct up, wherever it is run. -/
def GivesUp {α : Type} (p : Parser α) : Prop := ∀ ctx s, ∃ t, p ctx s = .error .failed t

end Parser

namespace LineFeeds

/-- What stays the same while the text is read. -/
abbrev front (W : LineFeeds) : Context := ⟨W.text, W.options⟩

/-- What stays the same while the text with other line endings is read. -/
abbrev behind (W : LineFeeds) : Context := ⟨W.crlf, W.options⟩

/-- The run of `q` in the text with other line endings follows the run of `p` from `s`: it comes to the
same place, where `f` gives the result, or gives the construct up with it. -/
def FollowsAt {α β : Type} (W : LineFeeds) (f : α → β) (p : Parser α) (q : Parser β) (s : State) : Prop :=
  match p W.front s with
  | .ok a s' => q W.behind (W.moved s) = .ok (f a) (W.moved s')
  | .error .failed _ => ∃ t, q W.behind (W.moved s) = .error .failed t
  | .error _ _ => True

end LineFeeds

/-! ### Parsers that give up -/

namespace Parser

variable {α β : Type}

theorem GivesUp.bind {p : Parser α} (hp : p.GivesUp) (k : α → Parser β) : (p >>= k).GivesUp := by
  intro ctx s
  obtain ⟨t, ht⟩ := hp ctx s
  exact ⟨t, by rw [bind_apply, ht]⟩

theorem GivesUp.of_idle {p : Parser α} {k : α → Parser β} (hp : Idle p) (hk : ∀ a, (k a).GivesUp) :
    (p >>= k).GivesUp := by
  intro ctx s
  obtain ⟨a, ha⟩ := hp ctx s
  rw [bind_apply, ha]
  exact hk a ctx s

theorem GivesUp.ite {b : Bool} {p q : Parser α} (hp : p.GivesUp) (hq : q.GivesUp) :
    (if b = true then p else q).GivesUp := by
  cases b with
  | true => exact hp
  | false => exact hq

theorem failWith_givesUp (problem : Problem) (span : Span) :
    (failWith problem span : Parser α).GivesUp := fun _ _ => ⟨_, rfl⟩

/-- A loop after a round with which it goes on. -/
theorem rounds_of_next {σ : Type} {step : σ → Parser (Round σ α)} {ctx : Context} {n : Nat}
    {value value' : σ} {s s' : State} (h : step value ctx s = .ok (.next value') s') :
    rounds step (n + 1) value ctx s = rounds step n value' ctx s' := by
  rw [rounds, bind_apply, h]

theorem rounds_of_error {σ : Type} {step : σ → Parser (Round σ α)} {ctx : Context} {n : Nat}
    {value : σ} {s t : State} {stop : Stop} (h : step value ctx s = .error stop t) :
    rounds step (n + 1) value ctx s = .error stop t := by
  rw [rounds, bind_apply, h]

end Parser

/-! ### Rules -/

namespace LineFeeds.FollowsAt

open PklSyntax.Parser

variable {α β γ δ σ τ : Type} {W : LineFeeds} {s s₀ : State} {f : α → β} {g : γ → δ} {p : Parser α}
  {q : Parser β} {k : α → Parser γ} {k' : β → Parser δ}

theorem pure {a : α} {b : β} (h : b = f a) : W.FollowsAt f (Pure.pure a) (Pure.pure b) s := by
  rw [h]
  rfl

theorem of_givesUp (hp : p.GivesUp) (hq : q.GivesUp) : W.FollowsAt f p q s := by
  obtain ⟨t, ht⟩ := hp W.front s
  rw [FollowsAt, ht]
  exact hq W.behind (W.moved s)

theorem of_stop {stop : Stop} (hstop : stop ≠ .failed) : W.FollowsAt f (throw stop) q s := by
  cases stop with
  | failed => exact absurd rfl hstop
  | tooDeep => exact trivial
  | stalled => exact trivial

theorem bind (hp : W.FollowsAt f p q s)
    (hk : ∀ a s', p W.front s = .ok a s' → W.FollowsAt g (k a) (k' (f a)) s') :
    W.FollowsAt g (p >>= k) (q >>= k') s := by
  rw [FollowsAt] at hp
  rw [FollowsAt, bind_apply, bind_apply]
  cases hrun : p W.front s with
  | ok a s' =>
    rw [hrun] at hp
    rw [hp]
    exact hk a s' hrun
  | error stop s' =>
    rw [hrun] at hp
    cases stop with
    | failed =>
      obtain ⟨t, ht⟩ := hp
      exact ⟨t, by rw [ht]⟩
    | tooDeep => trivial
    | stalled => trivial

theorem map {g : γ → δ} {h : α → γ} {h' : β → δ} (hp : W.FollowsAt f p q s)
    (heq : ∀ a, h' (f a) = g (h a)) : W.FollowsAt g (h <$> p) (h' <$> q) s :=
  hp.bind fun a _ _ => .pure (heq a)

/-- The rule for looking at the text. -/
theorem look {v : Context → State → α} {v' : Context → State → β} {b : β} (hp : Looks p v)
    (hq : Looks q v') (hv : v' W.behind (W.moved s) = b)
    (hk : W.FollowsAt g (k (v W.front s)) (k' b) s) : W.FollowsAt g (p >>= k) (q >>= k') s := by
  rw [FollowsAt, hp.bind_apply, hq.bind_apply, hv]
  exact hk

theorem value {v : Context → State → α} {v' : Context → State → β} (hp : Looks p v) (hq : Looks q v')
    (hv : v' W.behind (W.moved s) = f (v W.front s)) : W.FollowsAt f p q s := by
  rw [FollowsAt, hp, hq, hv]

theorem ite {b b' : Bool} {p' : Parser α} {q' : Parser β} (hb : b' = b)
    (hp : b = true → W.FollowsAt f p q s) (hq : b = false → W.FollowsAt f p' q' s) :
    W.FollowsAt f (if b = true then p else p') (if b' = true then q else q') s := by
  subst hb
  cases b' with
  | true => exact hp rfl
  | false => exact hq rfl

theorem iteProp {c c' : Prop} [Decidable c] [Decidable c'] {p' : Parser α} {q' : Parser β} (hc : c' ↔ c)
    (hp : c → W.FollowsAt f p q s) (hq : ¬c → W.FollowsAt f p' q' s) :
    W.FollowsAt f (if c then p else p') (if c' then q else q') s := by
  by_cases h : c
  · rw [if_pos h, if_pos (hc.2 h)]
    exact hp h
  · rw [if_neg h, if_neg fun h' => h (hc.1 h')]
    exact hq h

/-- A condition under which the construct is given up. -/
theorem guard {b b' : Bool} {r : Parser γ} {r' : Parser δ} (hb : b' = b) (hp : p.GivesUp)
    (hq : q.GivesUp) (hr : b = false → W.FollowsAt g r r' s) :
    W.FollowsAt g (if b = true then p >>= k else r) (if b' = true then q >>= k' else r') s :=
  .ite hb (fun _ => .of_givesUp (hp.bind k) (hq.bind k')) hr

/-- Two ways that come together again. -/
theorem branch {b b' : Bool} {p' : Parser α} {q' : Parser β} {P : α → State → Prop} (hb : b' = b)
    (hp : b = true → W.FollowsAt f p q s ∧ ∀ a s', p W.front s = .ok a s' → P a s')
    (hq : b = false → W.FollowsAt f p' q' s ∧ ∀ a s', p' W.front s = .ok a s' → P a s')
    (hk : ∀ a s', P a s' → W.FollowsAt g (k a) (k' (f a)) s') :
    W.FollowsAt g (if b = true then p >>= k else p' >>= k)
      (if b' = true then q >>= k' else q' >>= k') s :=
  .ite hb (fun h => (hp h).1.bind fun a s' hrun => hk a s' ((hp h).2 a s' hrun))
    fun h => (hq h).1.bind fun a s' hrun => hk a s' ((hq h).2 a s' hrun)

/-- Two ways that come together again wherever they end. -/
theorem join {b b' : Bool} {p' : Parser α} {q' : Parser β} (hb : b' = b)
    (hp : b = true → W.FollowsAt f p q s) (hq : b = false → W.FollowsAt f p' q' s)
    (hk : ∀ a s', W.FollowsAt g (k a) (k' (f a)) s') :
    W.FollowsAt g (if b = true then p >>= k else p' >>= k)
      (if b' = true then q >>= k' else q' >>= k') s :=
  .branch (P := fun _ _ => True) hb (fun h => ⟨hp h, fun _ _ _ => trivial⟩)
    (fun h => ⟨hq h, fun _ _ _ => trivial⟩) fun a s' _ => hk a s'

/-- A step that is taken on a condition. -/
theorem option {b b' : Bool} {k : Unit → Parser γ} {k' : Unit → Parser δ} {p q : Parser Unit}
    (hb : b' = b) (hp : b = true → W.FollowsAt id p q s)
    (hk : ∀ s', W.FollowsAt g (k ()) (k' ()) s') :
    W.FollowsAt g (if b = true then p >>= k else k ()) (if b' = true then q >>= k' else k' ()) s :=
  .ite hb (fun h => (hp h).bind fun _ s' _ => hk s') fun _ => hk s

theorem inMode {mode : Mode} (hp : W.FollowsAt f p q { s with mode }) :
    W.FollowsAt f (Parser.inMode mode p) (Parser.inMode mode q) s := by
  rw [FollowsAt] at hp
  rw [FollowsAt, Parser.inMode, Parser.inMode]
  have hmoved : { W.moved s with mode } = W.moved { s with mode } := rfl
  rw [hmoved]
  cases hrun : p W.front { s with mode } with
  | ok a s' =>
    rw [hrun] at hp
    rw [hp]
    rfl
  | error stop s' =>
    rw [hrun] at hp
    cases stop with
    | failed =>
      obtain ⟨t, ht⟩ := hp
      rw [ht]
      exact ⟨_, rfl⟩
    | tooDeep => trivial
    | stalled => trivial

/-- The rule for reading ahead. -/
theorem mark {k : Checkpoint → Parser γ} {k' : Checkpoint → Parser δ}
    (h : W.FollowsAt g (k s.checkpoint) (k' (W.moved s).checkpoint) s) :
    W.FollowsAt g (Parser.mark >>= k) (Parser.mark >>= k') s := h

/-- Going back to where the run began. -/
theorem rewind {k : Unit → Parser γ} {k' : Unit → Parser δ} (h : Kept W.text s₀ s)
    (hk : W.FollowsAt g (k ()) (k' ()) s₀) :
    W.FollowsAt g (Parser.rewind s₀.checkpoint >>= k)
      (Parser.rewind (W.moved s₀).checkpoint >>= k') s := by
  show match k () W.front (s.rewind s₀.checkpoint) with
    | .ok a s' => k' () W.behind ((W.moved s).rewind (W.moved s₀).checkpoint) = _
    | .error .failed _ => ∃ t, k' () W.behind ((W.moved s).rewind (W.moved s₀).checkpoint) = _
    | .error _ _ => True
  rw [rewind_moved, h.rewind]
  exact hk

/-- A construct is tried, and when it is given up, the run goes back to where it began. -/
theorem attempt {P : α → State → Prop} {Q : β → State → Prop} {k : Option α → Parser γ}
    {k' : Option β → Parser δ} {r : Unit → Parser γ} {r' : Unit → Parser δ}
    (hp : W.FollowsAt f p q s) (hgrows : p.Grows W.front s P) (hgrows' : q.Grows W.behind (W.moved s) Q)
    (hnone : k none = Parser.rewind s.checkpoint >>= r)
    (hnone' : k' none = Parser.rewind (W.moved s).checkpoint >>= r') (hback : W.FollowsAt g (r ()) (r' ()) s)
    (hsome : ∀ a s', p W.front s = .ok a s' → W.FollowsAt g (k (some a)) (k' (some (f a))) s') :
    W.FollowsAt g (Parser.attempt p >>= k) (Parser.attempt q >>= k') s := by
  rw [FollowsAt] at hp
  rw [FollowsAt, bind_apply, bind_apply, Parser.attempt, Parser.attempt]
  cases hrun : p W.front s with
  | ok a s' =>
    rw [hrun] at hp
    rw [hp]
    exact hsome a s' hrun
  | error stop s' =>
    rw [hrun] at hp
    cases stop with
    | failed =>
      obtain ⟨t, ht⟩ := hp
      rw [ht]
      show match k none W.front s' with
        | .ok a s' => k' none W.behind t = _
        | .error .failed _ => ∃ t', k' none W.behind t = _
        | .error _ _ => True
      rw [hnone, hnone']
      show match r () W.front (s'.rewind s.checkpoint) with
        | .ok a s' => r' () W.behind (t.rewind (W.moved s).checkpoint) = _
        | .error .failed _ => ∃ t', r' () W.behind (t.rewind (W.moved s).checkpoint) = _
        | .error _ _ => True
      rw [(hgrows.kept hrun).rewind, (hgrows'.kept ht).rewind]
      exact hback
    | tooDeep => trivial
    | stalled => trivial

/-! ### Loops -/

theorem rounds {f : σ → τ} {step : σ → Parser (Round σ γ)} {step' : τ → Parser (Round τ δ)}
    (hstep : ∀ v s, W.FollowsAt (Round.map f g) (step v) (step' (f v)) s) {n m : Nat} (h : n ≤ m)
    (value : σ) (s : State) :
    W.FollowsAt g (Parser.rounds step n value) (Parser.rounds step' m (f value)) s := by
  induction n generalizing m value s with
  | zero => exact .of_stop nofun
  | succ n ih =>
    obtain ⟨m, rfl⟩ : ∃ k, m = k + 1 := ⟨m - 1, by omega⟩
    refine (hstep value s).bind fun round s' _ => ?_
    cases round with
    | next v => exact ih (Nat.le_of_succ_le_succ h) v s'
    | done result => exact .pure rfl

theorem repeating {f : σ → τ} {step : σ → Parser (Round σ γ)} {step' : τ → Parser (Round τ δ)}
    (hstep : ∀ v s, W.FollowsAt (Round.map f g) (step v) (step' (f v)) s) {value : σ} {value' : τ}
    (hvalue : value' = f value) :
    W.FollowsAt g (Parser.repeating step value) (Parser.repeating step' value') s := by
  subst hvalue
  refine .look theText_looks theText_looks rfl (.look position_looks position_looks rfl ?_)
  exact .rounds hstep (Nat.succ_le_succ (size_sub_le s.pos)) value s

/-! ### Looking -/

theorem theText {k : Array Char → Parser γ} {k' : Array Char → Parser δ}
    (hk : W.FollowsAt g (k W.text) (k' W.crlf) s) :
    W.FollowsAt g (Parser.theText >>= k) (Parser.theText >>= k') s := hk

theorem theOptions {k : Options → Parser γ} {k' : Options → Parser δ}
    (hk : W.FollowsAt g (k W.options) (k' W.options) s) :
    W.FollowsAt g (Parser.theOptions >>= k) (Parser.theOptions >>= k') s := hk

theorem position {k : Nat → Parser γ} {k' : Nat → Parser δ}
    (hk : W.FollowsAt g (k s.pos) (k' (W.place s.pos)) s) :
    W.FollowsAt g (Parser.position >>= k) (Parser.position >>= k') s := hk

theorem peek {k : Char → Parser γ} {k' : Char → Parser δ}
    (hk : W.FollowsAt g (k (charAt W.text s.pos)) (k' (lineEnd (charAt W.text s.pos))) s) :
    W.FollowsAt g (Parser.peek >>= k) (Parser.peek >>= k') s :=
  .look peek_looks peek_looks (charAt_place _) hk

theorem peekAt {k : Char → Parser γ} {k' : Char → Parser δ} (n : Nat)
    (hk : W.FollowsAt g (k (charAt W.text (s.pos + n))) (k' (charAt W.crlf (W.place s.pos + n))) s) :
    W.FollowsAt g (Parser.peekAt n >>= k) (Parser.peekAt n >>= k') s := hk

theorem atEnd {k : Bool → Parser γ} {k' : Bool → Parser δ}
    (hk : W.FollowsAt g (k (decide (W.text.size ≤ s.pos))) (k' (decide (W.text.size ≤ s.pos))) s) :
    W.FollowsAt g (Parser.atEnd >>= k) (Parser.atEnd >>= k') s :=
  .look atEnd_looks atEnd_looks (decide_eq_decide.2 size_le_place) hk

theorem startsWith {k : Bool → Parser γ} {k' : Bool → Parser δ} {word : String} (hword : InLine word)
    (hk : W.FollowsAt g (k (matchesAt W.text word s.pos)) (k' (matchesAt W.text word s.pos)) s) :
    W.FollowsAt g (Parser.startsWith word >>= k) (Parser.startsWith word >>= k') s :=
  .look (startsWith_looks word) (startsWith_looks word) (matchesAt_place hword _) hk

theorem atWord {k : Bool → Parser γ} {k' : Bool → Parser δ} {word : String} (hword : InLine word)
    (hk : W.FollowsAt g (k (wordAt W.text word s.pos)) (k' (wordAt W.text word s.pos)) s) :
    W.FollowsAt g (Parser.atWord word >>= k) (Parser.atWord word >>= k') s :=
  .look (atWord_looks word) (atWord_looks word) (wordAt_place hword _) hk

theorem wordEnd {k : Nat → Parser γ} {k' : Nat → Parser δ}
    (hk : W.FollowsAt g (k (skipWhile W.text continuesName s.pos))
      (k' (W.place (skipWhile W.text continuesName s.pos))) s) :
    W.FollowsAt g (Parser.wordEnd >>= k) (Parser.wordEnd >>= k') s :=
  .look wordEnd_looks wordEnd_looks (skipWhile_place (by decide) _) hk

theorem slice {k : String → Parser γ} {k' : String → Parser δ} {i j : Nat}
    (hk : W.FollowsAt g (k (sliceOf W.text i j)) (k' (crlfText (sliceOf W.text i j))) s) :
    W.FollowsAt g (Parser.slice i j >>= k) (Parser.slice (W.place i) (W.place j) >>= k') s :=
  .look (slice_looks _ _) (slice_looks _ _) (sliceOf_place _ _) hk

theorem sliceFrom {k : String → Parser γ} {k' : String → Parser δ} {i : Nat}
    (hk : W.FollowsAt g (k (sliceOf W.text i s.pos)) (k' (crlfText (sliceOf W.text i s.pos))) s) :
    W.FollowsAt g (Parser.sliceFrom i >>= k) (Parser.sliceFrom (W.place i) >>= k') s :=
  .look (sliceFrom_looks _) (sliceFrom_looks _) (sliceOf_place _ _) hk

theorem spanFrom {k : Span → Parser γ} {k' : Span → Parser δ} {i : Nat}
    (hk : W.FollowsAt g (k (.ofNat i s.pos)) (k' (W.placement.span (.ofNat i s.pos))) s) :
    W.FollowsAt g (Parser.spanFrom i >>= k) (Parser.spanFrom (W.place i) >>= k') s := hk

theorem newlineSince {k : Bool → Parser γ} {k' : Bool → Parser δ} {span : Span}
    (hk : W.FollowsAt g (k (hasLineFeed W.text span.stop.toNat s.pos))
      (k' (hasLineFeed W.text span.stop.toNat s.pos)) s) :
    W.FollowsAt g (Parser.newlineSince span >>= k)
      (Parser.newlineSince (W.placement.span span) >>= k') s :=
  .look (newlineSince_looks _) (newlineSince_looks _) (by simp [hasLineFeed_place]) hk

theorem atIdentifier {k : Bool → Parser γ} {k' : Bool → Parser δ}
    (hk : ∀ b, W.FollowsAt g (k b) (k' b) s) :
    W.FollowsAt g (Parser.atIdentifier >>= k) (Parser.atIdentifier >>= k') s := by
  refine .look atIdentifier_looks atIdentifier_looks ?_ (hk _)
  show (charAt W.crlf (W.place s.pos) == backtick || startsName (charAt W.crlf (W.place s.pos))) = _
  rw [charAt_place, lineEnd_beq (by decide), lineEnd_class (p := startsName) (by decide)]

end LineFeeds.FollowsAt

namespace LineFeeds

open PklSyntax.Parser

variable {α β : Type} {W : LineFeeds} {s : State} {f : α → β}

/-! ### Steps -/

theorem skip_follows : W.FollowsAt id skip skip s :=
  congrArg (EStateM.Result.ok ()) (skipTrivia_moved s)

theorem moveTo_follows {pos pos' : Nat} (h : pos' = W.place pos) :
    W.FollowsAt id (moveTo pos) (moveTo pos') s := by
  subst h
  rfl

/-- Moving on within a line. -/
theorem advance_follows {n : Nat} (h : W.place (s.pos + n) = W.place s.pos + n) :
    W.FollowsAt id (advance n) (advance n) s := by
  refine .theText (.position (moveTo_follows ?_))
  rw [← h, min_size_place]

theorem advance_word_follows {n : Nat} (word : String) (hword : InLine word)
    (h : matchesAt W.text word s.pos = true) (hn : n ≤ word.length) :
    W.FollowsAt id (advance n) (advance n) s :=
  advance_follows (place_add_of_matchesAt hword h hn)

theorem advance_sign_follows (h : charAt W.text s.pos ≠ '\n') :
    W.FollowsAt id (advance 1) (advance 1) s :=
  advance_follows (place_succ h)

theorem takeDoc_follows :
    W.FollowsAt (Option.map (DocComment.placed W.placement)) takeDoc takeDoc s := by
  show EStateM.Result.ok (W.moved s).takeDoc.1 (W.moved s).takeDoc.2 =
    .ok (s.takeDoc.1.map (DocComment.placed W.placement)) (W.moved s.takeDoc.2)
  rw [takeDoc_moved]

/-- A problem that is reported with its place alone. -/
theorem report_follows {problem : Problem} {span : Span}
    (h : (problem.diagnostic span).placed W.placement =
      problem.diagnostic (W.placement.span span)) :
    W.FollowsAt id (report problem span) (report problem (W.placement.span span)) s := by
  refine congrArg (EStateM.Result.ok ()) ?_
  rw [← h]
  simp [moved]

end LineFeeds

end PklSyntax
