import PklSyntax.Grammar.Module
import PklSyntax.Proofs.Reading.Yields

/-!
# What parsers leave behind

What a parser gives may depend on where in the text it is run, and where it leaves the cursor may
depend on what it gives. So a run is described by its result together with the state behind it, for
one text and one state from which it sets out. Nothing is said of runs that stop.

Some of this holds only of states that can come up in a parse. Such a condition goes along with the
description: it is supposed of the state from which the run sets out, and it holds behind the run
again. A step that keeps the condition, whether it has a result or not, needs no description for
that.

Much of what a parser gives can be said apart from where its runs begin and end: every result of
every run has some property. That is what it leaves anywhere, in all states of all texts.

A description goes up along the parser, one rule for each way of building parsers from others. Most
steps need no description at all, and a parser that is given up satisfies any.

## Main definitions

* `Parser.Keeps`: a parser leads from states that meet a condition to such states.
* `Parser.Anywhere`: no condition on states.
* `Parser.Leaves`: a result and the state behind it are as described.
* `Parser.Gives`: all results of a parser have a property.

## Main statements

* `Parser.Leaves.bind`, `Parser.Leaves.look`, `Parser.Leaves.repeating`: the main rules.
* `Parser.commaList_leaves`, `Parser.collect_leaves`, `Parser.announced_leaves`: lists, and what is
  read only when it is announced.
* `Parser.Gives.bind`, `Parser.Gives.after`, `Parser.Gives.branch`, `Parser.Gives.repeating`, and
  `Parser.commaList_gives` and its likes: the same rules for what a parser gives.
-/

namespace PklSyntax

namespace Parser

variable {α β σ : Type} {ctx : Context} {s : State}

/-- The parser keeps a condition on states, whether it has a result or not. -/
class Keeps (I : Context → State → Prop) (p : Parser α) : Prop where
  of_ok : ∀ {ctx s a s'}, I ctx s → p ctx s = .ok a s' → I ctx s'
  of_error : ∀ {ctx s stop s'}, I ctx s → p ctx s = .error stop s' → I ctx s'

/-- The condition on states does not depend on their mode. -/
class AnyMode (I : Context → State → Prop) : Prop where
  with_mode : ∀ {ctx s} (mode : Mode), I ctx s → I ctx { s with mode }

/-- No condition on states. -/
def Anywhere (_ : Context) (_ : State) : Prop := True

instance (p : Parser α) : Keeps Anywhere p := ⟨fun _ _ => trivial, fun _ _ => trivial⟩

instance : AnyMode Anywhere := ⟨fun _ _ => trivial⟩

/-- When the parser has a result in this state, and the state meets the condition `I`, the state
behind the run meets it too, and that state and the result are as `Q` says. -/
structure Leaves (I : Context → State → Prop) (p : Parser α) (ctx : Context) (s : State)
    (Q : α → State → Prop) : Prop where
  of_ok : ∀ {a s'}, I ctx s → p ctx s = .ok a s' → I ctx s' ∧ Q a s'

variable {I : Context → State → Prop}

namespace Leaves

variable {p q : Parser α} {f : α → Parser β} {P : α → State → Prop} {Q : β → State → Prop}

theorem mono {R : α → State → Prop} (hp : p.Leaves I ctx s P) (h : ∀ a s', P a s' → R a s') :
    p.Leaves I ctx s R where
  of_ok hI hrun := (hp.of_ok hI hrun).imp_right (h _ _)

/-- The state from which the run sets out may be supposed to meet the condition. -/
theorem of_holds (h : I ctx s → p.Leaves I ctx s P) : p.Leaves I ctx s P where
  of_ok hI hrun := (h hI).of_ok hI hrun

/-- The state behind the run meets the condition. -/
theorem holds (hp : p.Leaves I ctx s P) : p.Leaves I ctx s fun a s' => I ctx s' ∧ P a s' where
  of_ok hI hrun := ⟨(hp.of_ok hI hrun).1, hp.of_ok hI hrun⟩

/-- What is known without the condition is known under it, when the parser keeps it. -/
theorem under [Keeps I p] (hp : p.Leaves Anywhere ctx s P) : p.Leaves I ctx s P where
  of_ok hI hrun := ⟨Keeps.of_ok hI hrun, (hp.of_ok trivial hrun).2⟩

/-- Where the condition is met, what is known under it is known. -/
theorem forget (hp : p.Leaves I ctx s P) (hs : I ctx s) : p.Leaves Anywhere ctx s P where
  of_ok _ hrun := ⟨trivial, (hp.of_ok hs hrun).2⟩

/-- What is known of each run is known of what it leaves. -/
theorem of_run [Keeps I p] (h : I ctx s → ∀ a s', p ctx s = .ok a s' → P a s') :
    p.Leaves I ctx s P where
  of_ok hI hrun := ⟨Keeps.of_ok hI hrun, h hI _ _ hrun⟩

/-- Of what a parser leaves it is known that the run came to it. -/
theorem with_run (hp : p.Leaves I ctx s P) :
    p.Leaves I ctx s fun a s' => p ctx s = .ok a s' ∧ P a s' where
  of_ok hI hrun := ⟨(hp.of_ok hI hrun).1, hrun, (hp.of_ok hI hrun).2⟩

/-- What a parser leaves can be described in two ways. -/
theorem and {R : α → State → Prop} (hp : p.Leaves I ctx s P) (hp' : p.Leaves I ctx s R) :
    p.Leaves I ctx s fun a s' => P a s' ∧ R a s' where
  of_ok hI hrun := ⟨(hp.of_ok hI hrun).1, (hp.of_ok hI hrun).2, (hp'.of_ok hI hrun).2⟩

theorem pure {b : β} (hQ : Q b s) : Leaves I (Pure.pure b) ctx s Q where
  of_ok hI hrun := by
    cases hrun
    exact ⟨hI, hQ⟩

theorem bind (hp : p.Leaves I ctx s P) (hf : ∀ a s', P a s' → (f a).Leaves I ctx s' Q) :
    (p >>= f).Leaves I ctx s Q where
  of_ok {b s'} hI hrun := by
    rw [bind_apply] at hrun
    cases hfirst : p ctx s with
    | ok a t =>
      rw [hfirst] at hrun
      obtain ⟨ht, hP⟩ := hp.of_ok hI hfirst
      exact (hf a t hP).of_ok ht hrun
    | error stop t =>
      rw [hfirst] at hrun
      cases hrun

/-- A step of which nothing needs to be known. -/
theorem after [Keeps I p] (hf : ∀ a s', (f a).Leaves I ctx s' Q) : (p >>= f).Leaves I ctx s Q := by
  have hp : p.Leaves I ctx s fun _ _ => True := ⟨fun hI hrun => ⟨Keeps.of_ok hI hrun, trivial⟩⟩
  apply hp.bind
  intro a s' _
  exact hf a s'

/-- What is seen by looking is known behind it. -/
theorem look {v : Context → State → α} (hp : Looks p v) (hf : (f (v ctx s)).Leaves I ctx s Q) :
    (p >>= f).Leaves I ctx s Q where
  of_ok hI hrun := by
    rw [hp.bind_apply] at hrun
    exact hf.of_ok hI hrun

theorem value {v : Context → State → β} {p : Parser β} (hp : Looks p v) (hQ : Q (v ctx s) s) :
    p.Leaves I ctx s Q where
  of_ok hI hrun := by
    rw [hp ctx s] at hrun
    cases hrun
    exact ⟨hI, hQ⟩

/-- Going back to a state of which nothing was lost. -/
theorem rewind {c : Checkpoint} {s₀ : State} {f : Unit → Parser β}
    (hback : s.rewind c = s₀) (hs₀ : I ctx s₀) (hf : (f ()).Leaves I ctx s₀ Q) :
    (Parser.rewind c >>= f).Leaves I ctx s Q where
  of_ok {b s'} _ hrun := by
    subst hback
    exact hf.of_ok hs₀ hrun

theorem map {g : α → β} (hp : p.Leaves I ctx s fun a => Q (g a)) : (g <$> p).Leaves I ctx s Q :=
  hp.bind fun _ _ hQ => .pure hQ

theorem ite {c : Prop} [Decidable c] (hp : c → p.Leaves I ctx s P) (hq : ¬c → q.Leaves I ctx s P) :
    (if c then p else q).Leaves I ctx s P := by
  by_cases h : c
  · rw [if_pos h]
    exact hp h
  · rw [if_neg h]
    exact hq h

/-- Two ways that come together again. -/
theorem branch {c : Prop} [Decidable c] (hp : c → p.Leaves I ctx s P)
    (hq : ¬c → q.Leaves I ctx s P) (hf : ∀ a s', P a s' → (f a).Leaves I ctx s' Q) :
    (if c then p >>= f else q >>= f).Leaves I ctx s Q :=
  ite (fun h => (hp h).bind hf) fun h => (hq h).bind hf

/-- A step, taken on a condition, of which nothing needs to be known. -/
theorem option [Keeps I p] {c : Prop} [Decidable c] (a : α)
    (hf : ∀ a s', (f a).Leaves I ctx s' Q) : (if c then p >>= f else f a).Leaves I ctx s Q :=
  ite (fun _ => after hf) fun _ => hf a s

/-- Behind a parser that gives nothing, nothing needs to be known. -/
theorem never (hp : p.Leaves I ctx s fun _ _ => False) : (p >>= f).Leaves I ctx s Q :=
  hp.bind fun _ _ h => h.elim

/-- A condition under which the construct is given up. -/
theorem guard {c : Prop} [Decidable c] {r : Parser β} (hp : p.Leaves I ctx s fun _ _ => False)
    (hr : ¬c → r.Leaves I ctx s Q) : (if c then p >>= f else r).Leaves I ctx s Q :=
  ite (fun _ => never hp) hr

/-- The rule for loops: a property that holds before the first round and is kept by each round. -/
theorem repeating {step : σ → Parser (Round σ β)} {value : σ} (P : σ → State → Prop)
    (hP : P value s)
    (hstep : ∀ v s', P v s' → (step v).Leaves I ctx s' fun round s'' =>
      round.Meets (P · s'') (Q · s'')) :
    (Parser.repeating step value).Leaves I ctx s Q := by
  have hrounds (n : Nat) : ∀ v s', P v s' → (rounds step n v).Leaves I ctx s' Q := by
    induction n with
    | zero =>
      intro v s' _
      exact ⟨nofun⟩
    | succ n ih =>
      intro v s' hv
      apply (hstep v s' hv).bind
      intro round s'' hround
      cases round with
      | next v' => exact ih v' s'' hround
      | done result => exact .pure hround
  apply look theText_looks
  apply look position_looks
  exact hrounds _ value s hP

theorem attempt [Keeps I p] (hp : p.Leaves I ctx s P) :
    (Parser.attempt p).Leaves I ctx s fun a? s' => ∀ a ∈ a?, P a s' where
  of_ok {a? s'} hI hrun := by
    rw [Parser.attempt] at hrun
    split at hrun
    next hfirst =>
      cases hrun
      obtain ⟨hI', hP⟩ := hp.of_ok hI hfirst
      exact ⟨hI', fun a ha => by cases ha; exact hP⟩
    next hfirst =>
      cases hrun
      exact ⟨Keeps.of_error hI hfirst, fun a ha => by cases ha⟩
    next => cases hrun

/-- What does not depend on the mode is left by a parser in a mode of its own. -/
theorem inMode [AnyMode I] {mode : Mode} (hp : p.Leaves I ctx { s with mode } P)
    (hP : ∀ a s', P a s' → P a { s' with mode := s.mode }) :
    (Parser.inMode mode p).Leaves I ctx s P where
  of_ok {a s'} hI hrun := by
    rw [Parser.inMode] at hrun
    split at hrun
    next hfirst =>
      cases hrun
      obtain ⟨hI', hP'⟩ := hp.of_ok (AnyMode.with_mode mode hI) hfirst
      exact ⟨AnyMode.with_mode _ hI', hP _ _ hP'⟩
    next => cases hrun

theorem outcome [Keeps I p] (hp : p.Leaves I ctx s P) :
    (Parser.outcome p).Leaves I ctx s fun result s' => ∀ a, result = .ok a → P a s' where
  of_ok {result s'} hI hrun := by
    rw [Parser.outcome] at hrun
    split at hrun
    next hfirst =>
      cases hrun
      obtain ⟨hI', hP⟩ := hp.of_ok hI hfirst
      exact ⟨hI', fun a ha => by cases ha; exact hP⟩
    next hfirst =>
      cases hrun
      exact ⟨Keeps.of_error hI hfirst, fun a ha => by cases ha⟩

end Leaves

/-! ### Parsers that give nothing -/

/-- A parser that never has a result leaves whatever is said. -/
theorem Leaves.of_never {p : Parser α} {Q : α → State → Prop}
    (hp : p.Leaves Anywhere ctx s fun _ _ => False) : p.Leaves I ctx s Q where
  of_ok _ hrun := (hp.of_ok trivial hrun).2.elim

theorem throw_leaves {stop : Stop} {Q : α → State → Prop} :
    (throw stop : Parser α).Leaves I ctx s Q :=
  ⟨nofun⟩

theorem failWith_leaves {problem : Problem} {span : Span} {Q : α → State → Prop} :
    (failWith problem span : Parser α).Leaves I ctx s Q := by
  apply Leaves.of_never
  apply Leaves.after
  intro _ _
  exact throw_leaves

theorem failExpected_leaves {what : String} {Q : α → State → Prop} :
    (failExpected what : Parser α).Leaves I ctx s Q := by
  apply Leaves.of_never
  apply Leaves.look peek_looks
  apply Leaves.look atEnd_looks
  apply Leaves.ite
  · intro _
    apply Leaves.after
    intro span _
    exact failWith_leaves
  · intro _
    apply Leaves.after
    intro found _
    apply Leaves.after
    intro span _
    exact failWith_leaves

/-! ### Lists -/

/-- What holds of all that an item leaves holds of the entries of a list of items. -/
theorem commaList_leaves {close : String} {item : Parser α} {P : α → Prop}
    [Keeps I (atToken close)] [Keeps I (accept ",")]
    (hitem : ∀ s, item.Leaves I ctx s fun a _ => P a) :
    (commaList close item).Leaves I ctx s fun items _ => ∀ a ∈ items, P a := by
  apply Leaves.bind (P := fun items _ => ∀ a ∈ items.toList, P a)
  · apply Leaves.repeating fun items _ => ∀ a ∈ items.toList, P a
    · simp
    · intro items s hitems
      apply Leaves.after
      intro closed s
      apply Leaves.ite
      · intro _
        exact .pure hitems
      · intro _
        apply (hitem s).bind
        intro a s ha
        have hpush := forall_mem_toList_push hitems ha
        apply Leaves.after
        intro comma s
        apply Leaves.ite
        · intro _
          exact .pure hpush
        · intro _
          exact .pure hpush
  · intro items s hitems
    exact .pure hitems

/-- What holds of all that an item leaves holds of the entries of a list that grows by one item for
each time that there are more of them. -/
theorem collect_leaves {more : Parser Bool} [Keeps I more] {item : Parser α} {P : α → Prop}
    (hitem : ∀ s, item.Leaves I ctx s fun a _ => P a) {items : Array α}
    (hitems : ∀ a ∈ items.toList, P a) :
    (repeating (fun (items : Array α) => do
      if ← more then return .next (items.push (← item))
      else return .done items) items).Leaves I ctx s fun items _ => ∀ a ∈ items.toList, P a := by
  apply Leaves.repeating (fun items _ => ∀ a ∈ items.toList, P a) hitems
  intro items s hitems
  apply Leaves.after
  intro found s
  apply Leaves.ite
  · intro _
    apply (hitem s).bind
    intro a s ha
    exact .pure (forall_mem_toList_push hitems ha)
  · intro _
    exact .pure hitems

/-- What is read when something that announces it was found. -/
theorem announced_leaves {announced : Parser Bool} [Keeps I announced] {p : Parser α}
    {k : Option α → Parser β} {P : α → Prop} {Q : β → State → Prop}
    (hp : ∀ s, p.Leaves I ctx s fun a _ => P a)
    (hk : ∀ a? s', (∀ a ∈ a?, P a) → (k a?).Leaves I ctx s' Q) :
    (do
      let found ← announced
      if found = true then do
        let a ← some <$> p
        k a
      else do
        let a ← pure none
        k a : Parser β).Leaves I ctx s Q := by
  apply Leaves.after
  intro found s
  apply Leaves.branch (P := fun a? _ => ∀ a ∈ a?, P a)
  · intro _
    apply Leaves.map
    apply (hp s).mono
    intro a _ ha
    simpa using ha
  · intro _
    apply Leaves.pure
    simp
  · exact hk

/-! ### What parsers give -/

section Gives

variable {α β σ : Type}

/-- Every result of the parser has the property, whatever the text and the state it is run from. -/
structure Gives (p : Parser α) (Q : α → Prop) : Prop where
  of_ok : ∀ {ctx s a s'}, p ctx s = .ok a s' → Q a

namespace Gives

variable {p q : Parser α} {f : α → Parser β} {P : α → Prop} {Q : β → Prop}

theorem of_leaves (h : ∀ ctx s, p.Leaves Anywhere ctx s fun a _ => P a) : p.Gives P where
  of_ok {ctx s _ _} hrun := ((h ctx s).of_ok trivial hrun).2

theorem leaves {ctx : Context} {s : State} (hp : p.Gives P) :
    p.Leaves Anywhere ctx s fun a _ => P a where
  of_ok _ hrun := ⟨trivial, hp.of_ok hrun⟩

theorem mono {R : α → Prop} (hp : p.Gives P) (h : ∀ a, P a → R a) : p.Gives R where
  of_ok hrun := h _ (hp.of_ok hrun)

theorem pure {b : β} (hQ : Q b) : Gives (Pure.pure b) Q :=
  of_leaves fun _ _ => .pure hQ

theorem bind (hp : p.Gives P) (hf : ∀ a, P a → (f a).Gives Q) : (p >>= f).Gives Q :=
  of_leaves fun _ _ => hp.leaves.bind fun a _ ha => (hf a ha).leaves

/-- A step of which nothing needs to be known. -/
theorem after (hf : ∀ a, (f a).Gives Q) : (p >>= f).Gives Q :=
  of_leaves fun _ _ => .after fun a _ => (hf a).leaves

theorem map {g : α → β} (hp : p.Gives fun a => Q (g a)) : (g <$> p).Gives Q :=
  hp.bind fun _ hQ => .pure hQ

theorem ite {c : Prop} [Decidable c] (hp : c → p.Gives P) (hq : ¬c → q.Gives P) :
    (if c then p else q).Gives P := by
  by_cases h : c
  · rw [if_pos h]
    exact hp h
  · rw [if_neg h]
    exact hq h

/-- Two ways that come together again. -/
theorem branch {c : Prop} [Decidable c] (hp : c → p.Gives P) (hq : ¬c → q.Gives P)
    (hf : ∀ a, P a → (f a).Gives Q) : (if c then p >>= f else q >>= f).Gives Q :=
  ite (fun h => (hp h).bind hf) fun h => (hq h).bind hf

/-- A step, taken on a condition, of which nothing needs to be known. -/
theorem option {c : Prop} [Decidable c] (a : α) (hf : ∀ a, (f a).Gives Q) :
    (if c then p >>= f else f a).Gives Q :=
  ite (fun _ => after hf) fun _ => hf a

/-- Behind a parser that gives nothing, nothing needs to be known. -/
theorem never (hp : p.Gives fun _ => False) : (p >>= f).Gives Q :=
  hp.bind fun _ h => h.elim

/-- A condition under which the construct is given up. -/
theorem guard {c : Prop} [Decidable c] {r : Parser β} (hp : p.Gives fun _ => False)
    (hr : ¬c → r.Gives Q) : (if c then p >>= f else r).Gives Q :=
  ite (fun _ => never hp) hr

/-- The rule for loops: a property that holds before the first round and is kept by each round. -/
theorem repeating {step : σ → Parser (Round σ β)} {value : σ} (I : σ → Prop) (hI : I value)
    (hstep : ∀ v, I v → (step v).Gives (Round.Meets I Q)) :
    (Parser.repeating step value).Gives Q :=
  of_leaves fun _ _ => .repeating (fun v _ => I v) hI fun v _ hv => (hstep v hv).leaves

theorem attempt (hp : p.Gives P) : (Parser.attempt p).Gives fun a? => ∀ a ∈ a?, P a :=
  of_leaves fun _ _ => hp.leaves.attempt

theorem inMode {mode : Mode} (hp : p.Gives P) : (Parser.inMode mode p).Gives P :=
  of_leaves fun _ _ => .inMode hp.leaves fun _ _ h => h

end Gives

/-! ### Parsers that give nothing -/

theorem throw_gives {stop : Stop} {Q : α → Prop} : (throw stop : Parser α).Gives Q :=
  ⟨nofun⟩

theorem failWith_gives {problem : Problem} {span : Span} {Q : α → Prop} :
    (failWith problem span : Parser α).Gives Q :=
  .of_leaves fun _ _ => failWith_leaves

theorem failExpected_gives {what : String} {Q : α → Prop} :
    (failExpected what : Parser α).Gives Q :=
  .of_leaves fun _ _ => failExpected_leaves

/-! ### Lists -/

/-- What holds of all that an item gives holds of the entries of a list of items. -/
theorem commaList_gives {close : String} {item : Parser α} {P : α → Prop} (hitem : item.Gives P) :
    (commaList close item).Gives fun items => ∀ a ∈ items, P a :=
  .of_leaves fun _ _ => commaList_leaves fun _ => hitem.leaves

/-- What holds of all that an item gives holds of the entries of a list that grows by one item for
each time that there are more of them. -/
theorem collect_gives {more : Parser Bool} {item : Parser α} {P : α → Prop} (hitem : item.Gives P)
    {items : Array α} (hitems : ∀ a ∈ items.toList, P a) :
    (repeating (fun (items : Array α) => do
      if ← more then return .next (items.push (← item))
      else return .done items) items).Gives fun items => ∀ a ∈ items.toList, P a :=
  .of_leaves fun _ _ => collect_leaves (fun _ => hitem.leaves) hitems

/-- What is read when something that announces it was found. -/
theorem announced_gives {announced : Parser Bool} {p : Parser α} {k : Option α → Parser β}
    {P : α → Prop} {Q : β → Prop} (hp : p.Gives P)
    (hk : ∀ a?, (∀ a ∈ a?, P a) → (k a?).Gives Q) :
    (do
      let found ← announced
      if found = true then do
        let a ← some <$> p
        k a
      else do
        let a ← pure none
        k a : Parser β).Gives Q :=
  .of_leaves fun _ _ => announced_leaves (fun _ => hp.leaves) fun a? _ ha => (hk a? ha).leaves

end Gives

end Parser

end PklSyntax
