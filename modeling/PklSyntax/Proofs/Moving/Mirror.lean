import PklSyntax.Proofs.Moving.Abreast

/-!
# Parsers that mirror one another

One parser reads the left text and another one the right text. The second *mirrors* the first when
it comes to the same result, up to the distance between the two places of the stretch, and leaves
the two parses abreast, provided that the left parse is then still live. When the stretch is whole
the two also stop for the same reason.

As with what parsers yield, there is one rule for each way of putting parsers together. Steps that
look at the text are the crucial ones: what they find is the same on both sides only where the left
parse can still end with the stretch, and that depends on what is read behind them. So the rules for
them suppose that the whole run has a result and leaves the parse live.

## Main definitions

* `Parser.Mirrors`: a parser that mirrors another one.
* `Parser.Hopeful`: the run has a result that leaves the left parse live.

## Main statements

* `Parser.Mirrors.bind`, `Parser.Mirrors.bind_inner`, `Parser.Mirrors.repeating`: the main rules.
* `Parser.Mirrors.look`, `Parser.Mirrors.look_inside`: steps that look at the text.
-/

namespace PklSyntax

namespace Parser

variable {α β σ : Type}

instance [Movable σ] [Movable α] : Movable (Round σ α) :=
  ⟨fun P round => match round with
    | .next value => .next (move P value)
    | .done result => .done (move P result)⟩

@[simp] theorem move_next [Movable σ] [Movable α] (P : Placement) (value : σ) :
    move P (Round.next value : Round σ α) = .next (move P value) := rfl

@[simp] theorem move_done [Movable σ] [Movable α] (P : Placement) (result : α) :
    move P (Round.done result : Round σ α) = .done (move P result) := rfl

/-- How far the left parse has to be live behind a round of a loop. -/
def Round.level (next : Bool) (done : β → Bool) : Round σ β → Bool
  | .next _ => next
  | .done result => done result

/-- The run of `p` has a result, and the left parse is live then. -/
def Hopeful (W : Overlap) (last : α → Bool) (s : State) (c : Nat) (Q : α → State → Nat → Prop) :
    Prop :=
  W.whole = true ∨ ∃ a s' c', Onward W.left.text s c s' c' ∧ Q a s' c' ∧ W.Live (last a) s' c'

/-- The parser `q` mirrors `p` in a run from `s`, where the last token ended at `c`: to the result
of `p` there is one of `q`, if the left parse is live then, in the sense that `last` gives for that
result. The property `Q` holds of the result of `p`. -/
def Mirrors [Movable α] (W : Overlap) (mode : Mode) (b : Bool) (last : α → Bool) (p q : Parser α)
    (s : State) (c : Nat) (t : State) (Q : α → State → Nat → Prop) : Prop :=
  W.Linked mode s c t →
    match p W.left s with
    | .ok a s' => ∃ c', Passes W.left.text (last a) s c s' c' ∧ Q a s' c' ∧
        (W.Joined b s c t → W.Live (last a) s' c' →
          ∃ t', q W.right t = .ok (move W.shift a) t' ∧ W.Abreast s' c' t')
    | .error stop s' => (stop = .failed → s'.HasError) ∧ ∃ c', Passes W.left.text false s c s' c' ∧
        (W.Joined b s c t → W.whole = true →
          ∃ t', q W.right t = .error stop t' ∧ W.Abreast s' c' t')

variable {W : Overlap} {mode : Mode} {b : Bool} {last : β → Bool} {s t : State} {c : Nat}
  {Q : β → State → Nat → Prop}

theorem Hopeful.live (h : Hopeful W last s c Q) : W.Live true s c := by
  rcases h with hw | ⟨a, s', c', hon, -, hlive⟩
  · exact .inl hw
  · exact (hlive.mono fun _ => rfl).back hon

/-- The left parse is live in the sense that it has to be between two parsers. -/
theorem Hopeful.level (next : Bool) (h : Hopeful W last s c Q)
    (hQ : ∀ a s' c', Q a s' c' → next = false → last a = true → c < c') : W.Live next s c := by
  rcases h with hw | ⟨a, s', c', hon, hq, hlive⟩
  · exact .inl hw
  · cases hn : next with
    | true => exact (hlive.mono fun _ => rfl).back hon
    | false =>
      cases hl : last a with
      | true => exact (hl ▸ hlive).inner hon (hQ a s' c' hq hn hl)
      | false => exact (hl ▸ hlive).back hon

namespace Mirrors

variable [Movable β]

theorem pure_of {a a' : β} (ha : a' = move W.shift a) (hQ : Q a s c)
    (hb : last a = true → b = true) :
    Mirrors W mode b last (Pure.pure a) (Pure.pure a') s c t Q := by
  intro h
  exact ⟨c, .refl h.stands, hQ, fun hjoined hlive => ⟨t, by rw [ha]; rfl, hjoined (hlive.mono hb)⟩⟩

theorem pure {a a' : β} (ha : a' = move W.shift a) (hQ : Q a s c) :
    Mirrors W mode true last (Pure.pure a) (Pure.pure a') s c t Q :=
  pure_of ha hQ fun _ => rfl

/-- The parses may be supposed to be linked. -/
theorem of_linked {p q : Parser β}
    (h : W.Linked mode s c t → Mirrors W mode b last p q s c t Q) :
    Mirrors W mode b last p q s c t Q :=
  fun hlinked => h hlinked hlinked

theorem mono {p q : Parser β} {P : β → State → Nat → Prop}
    (h : Mirrors W mode b last p q s c t P)
    (hQ : ∀ a s' c', Onward W.left.text s c s' c' → P a s' c' → Q a s' c') :
    Mirrors W mode b last p q s c t Q := by
  intro hlinked
  have h := h hlinked
  split at h
  · obtain ⟨c', hpass, hP, hlive⟩ := h
    exact ⟨c', hpass, hQ _ _ _ hpass.onward hP, hlive⟩
  · exact h

/-- Of the result it is known that the parser came to it. -/
theorem with_run {p q : Parser β} (h : Mirrors W mode b last p q s c t Q) :
    Mirrors W mode b last p q s c t fun a s' c' => p W.left s = .ok a s' ∧ Q a s' c' := by
  intro hlinked
  have h := h hlinked
  split at h
  · rename_i hrun
    obtain ⟨c', hpass, hQ, hlive⟩ := h
    exact ⟨c', hpass, ⟨hrun, hQ⟩, hlive⟩
  · exact h

/-- Another parser may be run on the left that comes to the same. -/
theorem congr_left {p q r : Parser β} (hp : p W.left s = r W.left s)
    (h : Mirrors W mode b last r q s c t Q) : Mirrors W mode b last p q s c t Q := by
  intro hlinked
  have h := h hlinked
  rwa [hp]

/-- In front of a parser that reads a token, the left parse has to be live in the strict sense
anyway. -/
theorem of_lt {p q : Parser β} (hQ : ∀ a s' c', Q a s' c' → last a = true → c < c')
    (h : Mirrors W mode true last p q s c t Q) : Mirrors W mode b last p q s c t Q := by
  intro hlinked
  have h := h hlinked
  split at h
  · rename_i a s' hrun
    obtain ⟨c', hpass, hq, hlive⟩ := h
    refine ⟨c', hpass, hq, fun hjoined hl => hlive (fun _ => hjoined ?_) hl⟩
    have hope : Hopeful W last s c Q := .inr ⟨_, _, _, hpass.onward, hq, hl⟩
    exact (hope.level false fun a s' c' hq _ => hQ a s' c' hq).mono nofun
  · obtain ⟨herror, c', hon, hwhole⟩ := h
    exact ⟨herror, c', hon, fun hjoined hw => hwhole (fun _ => hjoined (.inl hw)) hw⟩

/-- In front of a parser the left parse may be supposed to be live in the weak sense. -/
theorem weaken {b' : Bool} {p q : Parser β} (hb : b = true → b' = true)
    (h : Mirrors W mode b last p q s c t Q) : Mirrors W mode b' last p q s c t Q := by
  intro hlinked
  have h := h hlinked
  split at h
  · obtain ⟨c', hpass, hQ, hlive⟩ := h
    exact ⟨c', hpass, hQ, fun hjoined => hlive fun hl => hjoined (hl.mono hb)⟩
  · obtain ⟨herror, c', hon, hwhole⟩ := h
    exact ⟨herror, c', hon, fun hjoined => hwhole fun hl => hjoined (hl.mono hb)⟩

/-- Behind a parser the left parse may be supposed to be live in the strict sense. -/
theorem lower {l : β → Bool} {p q : Parser β} (hlast : ∀ a, l a = true → last a = true)
    (h : Mirrors W mode b last p q s c t Q) : Mirrors W mode b l p q s c t Q := by
  intro hlinked
  have h := h hlinked
  split at h
  · rename_i a s' hrun
    obtain ⟨c', hpass, hQ, hlive⟩ := h
    refine ⟨c', ?_, hQ, fun hjoined hl => hlive hjoined (hl.mono (hlast a))⟩
    cases hl : last a with
    | true => exact (hl ▸ hpass).of_le
    | false =>
      have hl' : l a = false := Bool.eq_false_iff.2 fun h => by simp [hlast a h] at hl
      exact hl' ▸ hl ▸ hpass
  · exact h

/-- It may be supposed that the run has a result that leaves the left parse live. -/
theorem swap {p q r : Parser β}
    (hq : W.Linked mode s c t → W.Joined b s c t → Hopeful W last s c Q →
      q W.right t = r W.right t)
    (h : Mirrors W mode b last p r s c t Q) : Mirrors W mode b last p q s c t Q := by
  intro hlinked
  have hq := hq hlinked
  have h := h hlinked
  split at h
  · obtain ⟨c', hpass, hQ, hlive⟩ := h
    refine ⟨c', hpass, hQ, fun hjoined hl => ?_⟩
    rw [hq hjoined (.inr ⟨_, _, _, hpass.onward, hQ, hl⟩)]
    exact hlive hjoined hl
  · obtain ⟨herror, c', hon, hwhole⟩ := h
    refine ⟨herror, c', hon, fun hjoined hw => ?_⟩
    rw [hq hjoined (.inl hw)]
    exact hwhole hjoined hw

/-- Where the left parse goes on in the stretch in any case, it may be supposed to be there. -/
theorem swap_inside {p q q' : Parser β} (hQ : ∀ a s' c', Q a s' c' → last a = true → c < c')
    (hq : W.Together false s c t → q W.right t = q' W.right t)
    (h : Mirrors W mode b last p q' s c t Q) : Mirrors W mode b last p q s c t Q := by
  refine swap (fun hlinked hjoined hope => hq ?_) h
  have hlive : W.Live false s c := hope.level _ fun a s' c' hq _ => hQ a s' c' hq
  exact ⟨hlinked.lo_le, hlinked.stands, hlive, hjoined (hlive.mono nofun)⟩

/-- A value that the right parser uses may be replaced by what it is where the left parse goes on in
the stretch. -/
theorem replace_inside {γ : Type} {v v' : γ} {p : Parser β} {r : γ → Parser β}
    (hQ : ∀ a s' c', Q a s' c' → last a = true → c < c') (hv : W.Together false s c t → v = v')
    (h : Mirrors W mode b last p (r v') s c t Q) : Mirrors W mode b last p (r v) s c t Q :=
  swap_inside hQ (fun ht => by rw [hv ht]) h

/-- In the middle of a construct the left parse goes on in the stretch. -/
theorem swap_within {p q q' : Parser β} (hq : W.Together false s c t → q W.right t = q' W.right t)
    (h : Mirrors W mode b (fun _ => false) p q' s c t Q) :
    Mirrors W mode b (fun _ => false) p q s c t Q :=
  swap_inside (fun _ _ _ _ h => absurd h Bool.false_ne_true) hq h

/-- One parser behind another. When the left parse has to be live in the strict sense between them,
the second one has to read a token, unless it leaves the parse to others that do. -/
theorem bind_level [Movable α] {p p' : Parser α} {f f' : α → Parser β} {P : α → State → Nat → Prop}
    {level : α → Bool} (hp : Mirrors W mode b level p p' s c t P)
    (hf : ∀ a s' c' t', Onward W.left.text s c s' c' → P a s' c' →
      Mirrors W mode (level a) last (f a) (f' (move W.shift a)) s' c' t' fun r s'' c'' =>
        (level a = false → last r = true → c' < c'') ∧ Q r s'' c'') :
    Mirrors W mode b last (p >>= f) (p' >>= f') s c t Q := by
  intro h
  have hp := hp h
  rw [bind_apply]
  cases hrun : p W.left s with
  | error stop s₁ =>
    rw [hrun] at hp
    obtain ⟨herror, c₁, hon, hwhole⟩ := hp
    refine ⟨herror, c₁, hon, fun hjoined hw => ?_⟩
    obtain ⟨t₁, hright, habreast⟩ := hwhole hjoined hw
    exact ⟨t₁, by rw [bind_apply, hright], habreast⟩
  | ok a s₁ =>
    rw [hrun] at hp
    obtain ⟨c₁, hpass, hP, hlive⟩ := hp
    have hon := hpass.onward
    have hmode := hon.mode_eq.trans h.mode_eq
    -- Where the left parse is not live, any state does for the right one.
    obtain ⟨t₁, hmode₁, ht₁⟩ : ∃ t₁, t₁.mode = mode ∧
        (W.Joined b s c t → W.Live (level a) s₁ c₁ →
          p' W.right t = .ok (move W.shift a) t₁ ∧ W.Abreast s₁ c₁ t₁) := by
      by_cases hl : W.Joined b s c t ∧ W.Live (level a) s₁ c₁
      · obtain ⟨t₁, hright, habreast⟩ := hlive hl.1 hl.2
        exact ⟨t₁, habreast.mode_eq.trans hmode, fun _ _ => ⟨hright, habreast⟩⟩
      · exact ⟨t, h.mode_right, fun hj hl' => absurd ⟨hj, hl'⟩ hl⟩
    have hf := hf a s₁ c₁ t₁ hon hP
      ⟨Nat.le_trans h.lo_le hon.le, hon.stands, hmode, hmode₁⟩
    dsimp only
    cases hrun' : f a W.left s₁ with
    | ok r s₂ =>
      rw [hrun'] at hf
      obtain ⟨c₂, hpass', ⟨hlt, hQ⟩, hlive'⟩ := hf
      refine ⟨c₂, hpass.trans hpass' hlt, hQ, fun hjoined hl => ?_⟩
      have hl₁ : W.Live (level a) s₁ c₁ := by
        cases ha : level a with
        | true => exact (hl.mono fun _ => rfl).back hpass'.onward
        | false =>
          cases hr : last r with
          | true => exact (hr ▸ hl).inner hpass'.onward (hlt ha hr)
          | false => exact (hr ▸ hl).back hpass'.onward
      obtain ⟨t₂, hright, habreast⟩ := hlive' (fun hl₁ => (ht₁ hjoined hl₁).2) hl
      exact ⟨t₂, by rw [bind_apply, (ht₁ hjoined hl₁).1]; exact hright, habreast⟩
    | error stop s₂ =>
      rw [hrun'] at hf
      obtain ⟨herror, c₂, hpass', hwhole⟩ := hf
      refine ⟨herror, c₂, hpass.trans hpass' nofun, fun hjoined hw => ?_⟩
      obtain ⟨t₂, hright, habreast⟩ := hwhole (fun hl₁ => (ht₁ hjoined hl₁).2) hw
      exact ⟨t₂, by rw [bind_apply, (ht₁ hjoined (.inl hw)).1]; exact hright, habreast⟩

/-- One parser behind another that may end with the stretch. -/
theorem bind [Movable α] {p p' : Parser α} {f f' : α → Parser β} {P : α → State → Nat → Prop}
    (hp : Mirrors W mode b (fun _ => true) p p' s c t P)
    (hf : ∀ a s' c' t', Onward W.left.text s c s' c' → P a s' c' →
      Mirrors W mode true last (f a) (f' (move W.shift a)) s' c' t' Q) :
    Mirrors W mode b last (p >>= f) (p' >>= f') s c t Q :=
  bind_level hp fun a s' c' t' hon hP =>
    (hf a s' c' t' hon hP).mono fun _ _ _ _ hQ => ⟨by simp, hQ⟩

/-- One parser behind another that may not end with the stretch. -/
theorem bind_inner [Movable α] {p p' : Parser α} {f f' : α → Parser β} {P : α → State → Nat → Prop}
    (hp : Mirrors W mode b (fun _ => false) p p' s c t P)
    (hf : ∀ a s' c' t', Onward W.left.text s c s' c' → P a s' c' →
      Mirrors W mode false last (f a) (f' (move W.shift a)) s' c' t' fun r s'' c'' =>
        (last r = true → c' < c'') ∧ Q r s'' c'') :
    Mirrors W mode b last (p >>= f) (p' >>= f') s c t Q :=
  bind_level hp fun a s' c' t' hon hP =>
    (hf a s' c' t' hon hP).mono fun _ _ _ _ hQ => ⟨fun _ => hQ.1, hQ.2⟩

/-- One parser behind another in the middle of a construct. -/
theorem bind_within [Movable α] {p p' : Parser α} {f f' : α → Parser β} {P : α → State → Nat → Prop}
    (hp : Mirrors W mode true (fun _ => false) p p' s c t P)
    (hf : ∀ a s' c' t', Onward W.left.text s c s' c' → P a s' c' →
      Mirrors W mode true (fun _ => false) (f a) (f' (move W.shift a)) s' c' t' Q) :
    Mirrors W mode b (fun _ => false) (p >>= f) (p' >>= f') s c t Q :=
  of_lt (fun _ _ _ _ h => absurd h Bool.false_ne_true) (bind_inner hp fun a s' c' t' hon hP =>
    of_lt (fun _ _ _ _ h => absurd h Bool.false_ne_true)
      ((hf a s' c' t' hon hP).mono fun _ _ _ _ hQ => ⟨nofun, hQ⟩))

theorem map [Movable α] {p p' : Parser α} {f f' : α → β} {P : α → State → Nat → Prop}
    (hp : Mirrors W mode b (fun _ => true) p p' s c t P)
    (hf : ∀ a, f' (move W.shift a) = move W.shift (f a))
    (hP : ∀ a s' c', P a s' c' → Q (f a) s' c') :
    Mirrors W mode b (fun _ => true) (f <$> p) (f' <$> p') s c t Q :=
  bind hp fun a _ _ _ _ h => .pure (hf a) (hP _ _ _ h)

/-! ### Looking -/

section Look

variable {p p' : Parser α} {f f' : α → Parser β} {v w : Context → State → α} {a : α}

/-- A step whose value does not matter. -/
theorem peel (hp : Looks p v) (hp' : Looks p' w)
    (hf : Mirrors W mode b last (f (v W.left s)) (f' (w W.right t)) s c t Q) :
    Mirrors W mode b last (p >>= f) (p' >>= f') s c t Q := by
  refine swap (r := f' (w W.right t)) (fun _ _ _ => ?_) fun h => ?_
  · rw [hp'.bind_apply]
  · have := hf h
    rwa [hp.bind_apply]

/-- A step whose value the left parse may ask for where the stretch ends. -/
theorem look (hp : Looks p v) (hp' : Looks p' w) (hv : W.Together true s c t → w W.right t = a)
    (hf : Mirrors W mode true last (f (v W.left s)) (f' a) s c t Q) :
    Mirrors W mode true last (p >>= f) (p' >>= f') s c t Q := by
  refine peel hp hp' (swap (r := f' a) (fun h hjoined hope => ?_) hf)
  rw [hv ⟨h.lo_le, h.stands, hope.live, hjoined hope.live⟩]

/-- A step whose value is asked for in front of a token, or where the parse goes on in the stretch
in any case. -/
theorem look_inside (hQ : ∀ a s' c', Q a s' c' → last a = true → c < c') (hp : Looks p v)
    (hp' : Looks p' w) (hv : W.Together false s c t → w W.right t = a)
    (hf : Mirrors W mode b last (f (v W.left s)) (f' a) s c t Q) :
    Mirrors W mode b last (p >>= f) (p' >>= f') s c t Q := by
  refine peel hp hp' (swap (r := f' a) (fun h hjoined hope => ?_) hf)
  have hlive : W.Live false s c := hope.level _ fun a s' c' hq _ => hQ a s' c' hq
  rw [hv ⟨h.lo_le, h.stands, hlive, hjoined (hlive.mono nofun)⟩]

/-- A step whose value is asked for in the middle of a construct. -/
theorem look_within (hp : Looks p v) (hp' : Looks p' w)
    (hv : W.Together false s c t → w W.right t = a)
    (hf : Mirrors W mode b (fun _ => false) (f (v W.left s)) (f' a) s c t Q) :
    Mirrors W mode b (fun _ => false) (p >>= f) (p' >>= f') s c t Q :=
  look_inside (fun _ _ _ _ h => absurd h Bool.false_ne_true) hp hp' hv hf

/-- A parser that only looks. -/
theorem value_of {p p' : Parser β} {v w : Context → State → β} (hp : Looks p v) (hp' : Looks p' w)
    (hv : W.Together (last (v W.left s)) s c t → w W.right t = move W.shift (v W.left s))
    (hQ : Q (v W.left s) s c) (hb : last (v W.left s) = true → b = true) :
    Mirrors W mode b last p p' s c t Q := by
  intro h
  rw [hp W.left s]
  refine ⟨c, .refl h.stands, hQ, fun hjoined hlive => ?_⟩
  have habreast := hjoined (hlive.mono hb)
  exact ⟨t, by rw [hp' W.right t, hv ⟨h.lo_le, h.stands, hlive, habreast⟩], habreast⟩

theorem value {p p' : Parser β} {v w : Context → State → β} (hp : Looks p v) (hp' : Looks p' w)
    (hv : W.Together (last (v W.left s)) s c t → w W.right t = move W.shift (v W.left s))
    (hQ : Q (v W.left s) s c) : Mirrors W mode true last p p' s c t Q :=
  value_of hp hp' hv hQ fun _ => rfl

end Look

/-! ### Branching -/

section Branch

variable [Movable α] {p p' q q' : Parser α} {f f' : α → Parser β} {P : α → State → Nat → Prop}
  {x : Bool}

omit [Movable α] in
theorem ite {p p' q q' : Parser β} (hp : x = true → Mirrors W mode b last p p' s c t Q)
    (hq : x = false → Mirrors W mode b last q q' s c t Q) :
    Mirrors W mode b last (if x = true then p else q) (if x = true then p' else q') s c t Q := by
  cases x with
  | true => exact hp rfl
  | false => exact hq rfl

omit [Movable α] in
/-- A condition that the left parse may ask for where the stretch ends. -/
theorem cond {p p' q q' : Parser β} {x' : Bool} (hx : W.Together true s c t → x' = x)
    (hp : x = true → Mirrors W mode true last p p' s c t Q)
    (hq : x = false → Mirrors W mode true last q q' s c t Q) :
    Mirrors W mode true last (if x = true then p else q) (if x' = true then p' else q') s c t
      Q := by
  refine swap (fun h hjoined hope => ?_) (ite hp hq)
  rw [hx ⟨h.lo_le, h.stands, hope.live, hjoined hope.live⟩]

omit [Movable α] in
/-- A condition in the middle of a construct. -/
theorem cond_within {p p' q q' : Parser β} {x' : Bool} (hx : W.Together false s c t → x' = x)
    (hp : x = true → Mirrors W mode b (fun _ => false) p p' s c t Q)
    (hq : x = false → Mirrors W mode b (fun _ => false) q q' s c t Q) :
    Mirrors W mode b (fun _ => false) (if x = true then p else q) (if x' = true then p' else q')
      s c t Q :=
  swap_within (fun h => by rw [hx h]) (ite hp hq)

/-- Two ways that come together again. -/
theorem branch (hp : x = true → Mirrors W mode b (fun _ => true) p p' s c t P)
    (hq : x = false → Mirrors W mode b (fun _ => true) q q' s c t P)
    (hf : ∀ a s' c' t', Onward W.left.text s c s' c' → P a s' c' →
      Mirrors W mode true last (f a) (f' (move W.shift a)) s' c' t' Q) :
    Mirrors W mode b last (if x = true then p >>= f else q >>= f)
      (if x = true then p' >>= f' else q' >>= f') s c t Q := by
  cases x with
  | true => exact (hp rfl).bind hf
  | false => exact (hq rfl).bind hf

/-- A condition under which the construct is given up. -/
theorem guard {r r' : Parser β}
    (hp : x = true → Mirrors W mode b (fun _ => true) p p' s c t fun _ _ _ => False)
    (hr : x = false → Mirrors W mode b last r r' s c t Q) :
    Mirrors W mode b last (if x = true then p >>= f else r) (if x = true then p' >>= f' else r')
      s c t Q := by
  cases x with
  | true => exact (hp rfl).bind fun _ _ _ _ _ h => h.elim
  | false => exact hr rfl

/-- A step that is taken on a condition. -/
theorem option (a : α) {a' : α} (ha : a' = move W.shift a)
    (hp : x = true → Mirrors W mode true (fun _ => true) p p' s c t P) (hP : x = false → P a s c)
    (hf : ∀ a s' c' t', Onward W.left.text s c s' c' → P a s' c' →
      Mirrors W mode true last (f a) (f' (move W.shift a)) s' c' t' Q) :
    Mirrors W mode true last (if x = true then p >>= f else f a)
      (if x = true then p' >>= f' else f' a') s c t Q := by
  cases x with
  | true => exact (hp rfl).bind hf
  | false => exact .of_linked fun h => ha ▸ hf a s c t (.refl h.stands) (hP rfl)

end Branch

/-! ### Loops -/

/-- The rule for loops: a property that holds before the first round and is kept by each round, when
each round but the last reads a token. If the left parse has to be live in the strict sense between
rounds, then the last round reads a token too, unless it leaves that to others. -/
theorem repeating [Movable σ] {step step' : σ → Parser (Round σ β)} {value value' : σ}
    (next : Bool) (I : σ → State → Nat → Prop) (hvalue : value' = move W.shift value)
    (hI : I value s c) (hb : next = true → b = true)
    (hstep : ∀ v s' c' t', Onward W.left.text s c s' c' → I v s' c' →
      Mirrors W mode next (Round.level next last) (step v) (step' (move W.shift v)) s' c' t'
        fun round s'' c'' => round.Meets (fun v' => c' < c'' ∧ I v' s'' c'') fun r =>
          (next = false → last r = true → c' < c'') ∧ Q r s'' c'') :
    Mirrors W mode b last (Parser.repeating step value) (Parser.repeating step' value') s c t
      Q := by
  -- In a whole stretch both loops have the same number of rounds, in another one the right loop has
  -- enough of them.
  have hrounds : ∀ n n' v s' c' t', Onward W.left.text s c s' c' → I v s' c' →
      (W.whole = true → n' = n) →
      (W.whole = false → W.Live next s' c' → W.stop - s'.pos < n') →
      Mirrors W mode next last (rounds step n v) (rounds step' n' (move W.shift v)) s' c' t'
        fun r s'' c'' => (next = false → last r = true → c' < c'') ∧ Q r s'' c'' := by
    intro n
    induction n with
    | zero =>
      intro n' v s' c' t' hon hv hwhole hcut h
      refine ⟨nofun, c', .refl h.stands, fun hjoined hw => ⟨t', ?_, hjoined (.inl hw)⟩⟩
      rw [hwhole hw]
      rfl
    | succ n ih =>
      have hround : ∀ n' v s' c' t', Onward W.left.text s c s' c' → I v s' c' →
          (W.whole = true → n' = n) →
          (W.whole = false → W.Live next s' c' → W.stop - s'.pos < n' + 1) →
          Mirrors W mode next last (rounds step (n + 1) v)
            (rounds step' (n' + 1) (move W.shift v)) s' c' t'
            fun r s'' c'' => (next = false → last r = true → c' < c'') ∧ Q r s'' c'' := by
        intro n' v s' c' t' hon hv hwhole hcut
        refine bind_level (hstep v s' c' t' hon hv) fun round s'' c'' t'' hon' hround => ?_
        cases round with
        | done result => exact .pure_of rfl ⟨fun hd hl => (nomatch hl.symm.trans hd), hround⟩ id
        | next v' =>
          refine (ih n' v' s'' c'' t'' (hon.trans hon') hround.2 hwhole fun hw hl => ?_).mono
            fun r s₃ c₃ hon₃ hQ => ⟨hQ.1, fun hn hr => ?_, hQ.2⟩
          · have hfuel := hcut hw (hl.back hon')
            have hle := hon'.start.pos_le_front
            have hpos := hon'.stands.le_pos
            have hstop := (hl.le_stop hon'.stands).resolve_right (by simp [hw])
            rcases hl with hw' | ⟨herror, -⟩
            · simp [hw] at hw'
            · have := hon'.stop_lt hround.1 herror
              omega
          · exact Nat.lt_of_lt_of_le hround.1 hon₃.le
      intro n' v s' c' t' hon hv hwhole hcut
      cases n' with
      | succ n' => exact hround n' v s' c' t' hon hv (fun hw => by have := hwhole hw; omega) hcut
      | zero =>
        -- Without a round left on the right the left parse is not live.
        refine swap (r := rounds step' 1 (move W.shift v)) (fun h _ hope => ?_)
          (hround 0 v s' c' t' hon hv (fun hw => by have := hwhole hw; omega)
            fun hw hl => by have := hcut hw hl; omega)
        rcases Bool.eq_false_or_eq_true W.whole with hw | hw
        · exact absurd (hwhole hw) (by omega)
        · exact absurd (hcut hw (hope.level _ fun _ _ _ hQ => hQ.1)) (Nat.not_lt_zero _)
  subst hvalue
  intro h
  have hrun : ∀ n', (W.Joined next s c t →
      (W.whole = true → n' = W.left.text.size - s.pos + 1) ∧
        (W.whole = false → W.Live next s c → W.stop - s.pos < n')) →
      Mirrors W mode next last (rounds step (W.left.text.size - s.pos + 1) value)
        (rounds step' n' (move W.shift value)) s c t Q := by
    intro n' hn'
    by_cases hjoined : W.Joined next s c t
    · obtain ⟨hwhole, hcut⟩ := hn' hjoined
      exact (hrounds _ n' value s c t (.refl h.stands) hI hwhole hcut).mono
        fun _ _ _ _ hQ => hQ.2
    · -- Nothing is claimed of the right loop, whatever the number of its rounds.
      refine swap (r := rounds step' (if W.whole = true then W.left.text.size - s.pos + 1
        else W.stop + 1) (move W.shift value)) (fun _ hj _ => absurd hj hjoined) ?_
      refine (hrounds _ _ value s c t (.refl h.stands) hI (fun hw => if_pos hw)
        fun hw _ => ?_).mono fun _ _ _ _ hQ => hQ.2
      rw [if_neg (by simp [hw])]
      omega
  refine weaken hb (hrun (W.right.text.size - t.pos + 1) fun hjoined => ⟨fun hw => ?_, ?_⟩) h
  · have hpos := (hjoined (.inl hw)).pos_eq h.lo_le h.stands (.inr hw)
    have hsize := h.stands.pos_le_size
    have hle := h.stands.le_pos
    have hlo := h.lo_le
    have hplace := W.cast_place (i := s.pos) (by omega)
    have := (W.full hw).2.1
    omega
  · intro hw hl
    have hsize := W.place_stop_le_size hw
    have hlo := h.lo_le
    have hle := h.stands.le_pos
    rcases (hjoined hl).pos_cases h.lo_le h.stands (hl.mono fun _ => rfl) with
      ⟨hstop, hpos⟩ | ⟨-, hpos, -⟩
    · have hstop := hstop.resolve_right (by simp [hw])
      have hplace := W.cast_place (i := s.pos) (by omega)
      have hplace' := W.cast_place (i := W.stop) (by omega)
      omega
    · have := @le_skipEnd W.left.text W.stop
      omega

end Mirrors

end Parser

end PklSyntax
