import PklSyntax.Proofs.Reading.Yields

/-!
# Parsers that come to a result

What a parser yields leaves open whether it comes to a result at all. Here a parser is shown to come
to one, with the state after it, along the steps that it is made of. A condition that it looks at is
settled before either way is followed.

A loop is followed round by round: what it comes to from one value on is what it comes to from the
next. How often that may be repeated does not matter, as every round but the last moves the cursor
on.

## Main definitions

* `Parser.Reads`: a parser comes to a result.
* `Parser.Loops`: a loop comes to a result.

## Main statements

* `Parser.Loops.reads`: a loop is as often repeated as its rounds ask for.
-/

namespace PklSyntax

namespace Parser

variable {α β σ : Type} {ctx : Context} {s : State}

/-- The parser comes to a result, and the result and the new state are as `Q` says. -/
def Reads (p : Parser α) (ctx : Context) (s : State) (Q : α → State → Prop) : Prop :=
  ∃ a s', p ctx s = .ok a s' ∧ Q a s'

namespace Reads

variable {p q : Parser α} {f : α → Parser β} {P : α → State → Prop} {Q : β → State → Prop}

theorem pure {a : β} (h : Q a s) : Reads (Pure.pure a) ctx s Q := ⟨a, s, rfl, h⟩

theorem bind (hp : p.Reads ctx s P) (hf : ∀ a s', P a s' → (f a).Reads ctx s' Q) :
    (p >>= f).Reads ctx s Q := by
  obtain ⟨a, s', hrun, hP⟩ := hp
  obtain ⟨b, s'', hrun', hQ⟩ := hf a s' hP
  exact ⟨b, s'', by rw [bind_apply, hrun]; exact hrun', hQ⟩

theorem mono {R : α → State → Prop} (hp : p.Reads ctx s P) (h : ∀ a s', P a s' → R a s') :
    p.Reads ctx s R := by
  obtain ⟨a, s', hrun, hP⟩ := hp
  exact ⟨a, s', hrun, h a s' hP⟩

theorem map {g : α → β} (hp : p.Reads ctx s fun a => Q (g a)) : (g <$> p).Reads ctx s Q :=
  hp.bind fun _ _ hQ => .pure hQ

/-- The rest is read after a run that is known. -/
theorem of_run {a : α} {s' : State} (hrun : p ctx s = .ok a s') (hf : (f a).Reads ctx s' Q) :
    (p >>= f).Reads ctx s Q := by
  obtain ⟨b, s'', hrun', hQ⟩ := hf
  exact ⟨b, s'', by rw [bind_apply, hrun]; exact hrun', hQ⟩

theorem look {v : Context → State → α} (hp : Looks p v) (hf : (f (v ctx s)).Reads ctx s Q) :
    (p >>= f).Reads ctx s Q :=
  of_run (hp ctx s) hf

theorem value {v : Context → State → β} {p : Parser β} (hp : Looks p v) (hQ : Q (v ctx s) s) :
    p.Reads ctx s Q :=
  ⟨_, _, hp ctx s, hQ⟩

/-- The way that is taken when a condition holds. -/
theorem ite_true {b : Bool} {p q : Parser β} (hb : b = true) (hp : p.Reads ctx s Q) :
    (if b = true then p else q).Reads ctx s Q := by
  rwa [if_pos hb]

/-- The way that is taken when a condition fails. -/
theorem ite_false {b : Bool} {p q : Parser β} (hb : b = false) (hq : q.Reads ctx s Q) :
    (if b = true then p else q).Reads ctx s Q := by
  rwa [if_neg (by simp [hb])]

/-- A parser in a mode of its own. -/
theorem inMode {mode : Mode}
    (hp : p.Reads ctx { s with mode } fun a s' => P a { s' with mode := s.mode }) :
    (Parser.inMode mode p).Reads ctx s P := by
  obtain ⟨a, s', hrun, hP⟩ := hp
  exact ⟨a, { s' with mode := s.mode }, by rw [Parser.inMode, hrun], hP⟩

end Reads

/-- What a loop comes to from a value and a state on. -/
inductive Loops (step : σ → Parser (Round σ β)) (ctx : Context) (Q : β → State → Prop) :
    σ → State → Prop
  | stop {value : σ} {result : β} {s s' : State} (hround : step value ctx s = .ok (.done result) s')
      (hQ : Q result s') : Loops step ctx Q value s
  | more {value value' : σ} {s s' : State} (hround : step value ctx s = .ok (.next value') s')
      (hlt : s.pos < s'.pos) (hle : s'.pos ≤ ctx.text.size) (hmore : Loops step ctx Q value' s') :
      Loops step ctx Q value s

namespace Loops

variable {step : σ → Parser (Round σ β)} {Q : β → State → Prop} {value : σ}

/-- The last round. -/
theorem done (hround : (step value).Reads ctx s fun round s' =>
    ∃ result, round = .done result ∧ Q result s') : Loops step ctx Q value s := by
  obtain ⟨_, s', hrun, result, rfl, hQ⟩ := hround
  exact .stop hrun hQ

/-- A round that is not the last. -/
theorem next (hround : (step value).Reads ctx s fun round s' =>
    ∃ value', round = .next value' ∧ s.pos < s'.pos ∧ s'.pos ≤ ctx.text.size ∧
      Loops step ctx Q value' s') : Loops step ctx Q value s := by
  obtain ⟨_, s', hrun, value', rfl, hlt, hle, hmore⟩ := hround
  exact .more hrun hlt hle hmore

theorem mono {R : β → State → Prop} (h : Loops step ctx Q value s)
    (hQ : ∀ a s', Q a s' → R a s') : Loops step ctx R value s := by
  induction h with
  | stop hround hresult => exact .stop hround (hQ _ _ hresult)
  | more hround hlt hle _ ih => exact .more hround hlt hle ih

/-- There are rounds enough for what a loop comes to. -/
theorem reads (h : Loops step ctx Q value s) : (repeating step value).Reads ctx s Q := by
  have hrounds : ∀ n, ctx.text.size - s.pos < n → (rounds step n value).Reads ctx s Q := by
    induction h with
    | @stop value result s s' hround hQ =>
      intro n hn
      obtain ⟨n, rfl⟩ : ∃ m, n = m + 1 := ⟨n - 1, by omega⟩
      exact .of_run hround (.pure hQ)
    | @more value value' s s' hround hlt hle hmore ih =>
      intro n hn
      obtain ⟨n, rfl⟩ : ∃ m, n = m + 1 := ⟨n - 1, by omega⟩
      exact .of_run hround (ih n (by omega))
  exact .look theText_looks (.look position_looks (hrounds _ (Nat.lt_succ_self _)))

end Loops

end Parser

end PklSyntax
