import PklSyntax.Grammar.Module
import PklSyntax.Proofs.Options.Sieve

/-!
# The course of a run

The value of a parser is a function, which tells the state in which a run ends and nothing of the
states on the way there. How a parser is made of steps is told by a *script*: it follows the text of
the parser, with one constructor for each way in which parsers are put together, down to the steps
that read or change the state. A script is indexed by the parser that it describes, so that it
cannot describe another one or leave a step out. Skipping the trivia at the cursor is one step.

Along its script the run of a parser from a state has a *course*, the list of all moments that the
run passes through: behind every step, on the way into every production and on the way out of it. A
run that stops has a course up to the point where it stopped, and one that is tried and given up
passes through its moments like any other.

## Main definitions

* `Construct`: what a production reads.
* `Parser.Script`: how a parser is made of steps.
* `Moment`, `Parser.Script.course`: the moments that a run passes through.
* `Parser.Scripted`: the parsers whose script is found along their definitions.

## Main statements

* `Parser.Script.endState_eq_or_mem`: the state in which a run ends is the one in which it began or
  that of one of its moments.
* `Parser.Script.mode_endState`: a run ends in the mode in which it began.
-/

namespace PklSyntax

/-- What a production reads. Names count as tokens, which may also be asked for only, and the parts
of numbers and strings count as literals. -/
inductive Construct where
  | token
  | literal
  | type
  | expression
  | object
  | declaration
  | module
  deriving Repr, DecidableEq

/-- The construct is one of those between whose tokens trivia may stand. -/
def Construct.isLoose : Construct → Bool
  | token | literal => false
  | type | expression | object | declaration | module => true

/-- A moment in a run: behind a step, or on the way into a production or out of it. -/
inductive Moment where
  | behind (state : State)
  | entering (construct : Construct) (state : State)
  | leaving (construct : Construct) (before after : State)
  deriving Repr, DecidableEq

/-- The state at the moment. -/
def Moment.state : Moment → State
  | behind s | entering _ s | leaving _ _ s => s

namespace Parser

variable {α β σ : Type}

/-! ### Scripts -/

/-- The steps that change the state. -/
inductive IsStep : {α : Type} → Parser α → Prop
  | skip : IsStep skip
  | moveTo (pos : Nat) : IsStep (moveTo pos)
  | record (d : Diagnostic) : IsStep (record d)
  | takeDoc : IsStep takeDoc
  | release (attached : List Nat) : IsStep (release attached)
  | keepDiagnostics (count : Nat) : IsStep (keepDiagnostics count)
  | rewind (c : Checkpoint) : IsStep (rewind c)

/-- How a parser is made of steps. -/
inductive Script : {α : Type} → Parser α → Type 1
  | pure {α : Type} (a : α) : Script (pure a)
  | context : Script read
  | state : Script get
  | step {α : Type} {p : Parser α} (h : IsStep p) : Script p
  | throw {α : Type} (stop : Stop) : Script (throw stop : Parser α)
  | bind {α β : Type} {p : Parser α} {f : α → Parser β} (first : Script p)
      (next : ∀ a, Script (f a)) : Script (p >>= f)
  | ite {α : Type} {p q : Parser α} (c : Prop) [Decidable c] (yes : Script p) (no : Script q) :
      Script (if c then p else q)
  | inMode {α : Type} {p : Parser α} (mode : Mode) (body : Script p) : Script (inMode mode p)
  | attempt {α : Type} {p : Parser α} (body : Script p) : Script (attempt p)
  | outcome {α : Type} {p : Parser α} (body : Script p) : Script (outcome p)
  | production {α : Type} {p : Parser α} (construct : Construct) (body : Script p) : Script p

namespace Script

/-- The moments that the run of a parser from a state passes through, in their order. -/
def course : {α : Type} → {p : Parser α} → Script p → Context → State → List Moment
  | _, _, .pure _, _, _ => []
  | _, _, .context, _, _ => []
  | _, _, .state, _, _ => []
  | _, p, .step _, ctx, s => [.behind (endState (p ctx s))]
  | _, _, .throw _, _, _ => []
  | _, _, @bind _ _ p _ first next, ctx, s =>
    first.course ctx s ++ match p ctx s with
      | .ok a s' => (next a).course ctx s'
      | .error _ _ => []
  | _, _, @ite _ _ _ c _ yes no, ctx, s => if c then yes.course ctx s else no.course ctx s
  | _, _, @inMode _ p mode body, ctx, s =>
    .behind { s with mode } :: body.course ctx { s with mode } ++
      [.behind (endState (Parser.inMode mode p ctx s))]
  | _, _, .attempt body, ctx, s => body.course ctx s
  | _, _, .outcome body, ctx, s => body.course ctx s
  | _, p, .production construct body, ctx, s =>
    .entering construct s :: body.course ctx s ++ [.leaving construct s (endState (p ctx s))]

/-! ### The end of a run -/

/-- Trying a construct ends where reading it does. -/
theorem endState_attempt (p : Parser α) (ctx : Context) (s : State) :
    endState (Parser.attempt p ctx s) = endState (p ctx s) := by
  rw [Parser.attempt]
  cases p ctx s with
  | ok => rfl
  | error stop => cases stop <;> rfl

theorem endState_outcome (p : Parser α) (ctx : Context) (s : State) :
    endState (Parser.outcome p ctx s) = endState (p ctx s) := by
  rw [Parser.outcome]
  cases p ctx s <;> rfl

/-- No step changes the mode. -/
theorem mode_step {p : Parser α} (h : IsStep p) (ctx : Context) (s : State) :
    (endState (p ctx s)).mode = s.mode := by
  cases h with
  | skip =>
    show (s.skipTrivia ctx.text).mode = s.mode
    rw [State.skipTrivia]
    split <;> rfl
  | takeDoc =>
    obtain ⟨attached, heq, -⟩ := s.takeDoc_eq
    exact congrArg (State.mode ∘ Prod.snd) heq
  | moveTo | record | release | keepDiagnostics | rewind => rfl

/-- A run ends in the mode in which it began, whether it has a result or stops. -/
theorem mode_endState {p : Parser α} (script : Script p) (ctx : Context) (s : State) :
    (endState (p ctx s)).mode = s.mode := by
  induction script generalizing s with
  | pure | context | state | throw => rfl
  | step h => exact mode_step h ctx s
  | @bind _ _ p f first next ihfirst ihnext =>
    have hfirst := ihfirst s
    rw [bind_apply]
    cases hrun : p ctx s with
    | ok a s' =>
      rw [hrun] at hfirst
      exact (ihnext a s').trans hfirst
    | error stop s' =>
      rw [hrun] at hfirst
      exact hfirst
  | ite c yes no ihyes ihno =>
    split
    · exact ihyes s
    · exact ihno s
  | @inMode _ p mode body =>
    rw [Parser.inMode]
    cases p ctx { s with mode } <;> rfl
  | attempt body ih => rw [endState_attempt, ih s]
  | outcome body ih => rw [endState_outcome, ih s]
  | production construct body ih => exact ih s

/-- The state in which a run ends is the one in which it began or that of one of its moments. -/
theorem endState_eq_or_mem {p : Parser α} (script : Script p) (ctx : Context) (s : State) :
    endState (p ctx s) = s ∨ ∃ moment ∈ script.course ctx s, moment.state = endState (p ctx s) := by
  induction script generalizing s with
  | pure | context | state | throw => exact .inl rfl
  | step h => exact .inr ⟨_, List.mem_singleton_self _, rfl⟩
  | @bind _ _ p f first next ihfirst ihnext =>
    have hfirst := ihfirst s
    rw [bind_apply, course]
    cases hrun : p ctx s with
    | ok a s' =>
      rw [hrun] at hfirst
      rcases ihnext a s' with hend | ⟨moment, hmem, hend⟩
      · dsimp only
        rw [hend]
        exact hfirst.imp_right fun ⟨moment, hmem, h⟩ =>
          ⟨moment, List.mem_append_left _ hmem, h⟩
      · exact .inr ⟨moment, List.mem_append_right _ hmem, hend⟩
    | error stop s' =>
      rw [hrun] at hfirst
      rw [List.append_nil]
      exact hfirst
  | ite c yes no ihyes ihno =>
    rw [course]
    split
    · exact ihyes s
    · exact ihno s
  | inMode mode body => exact .inr ⟨_, List.mem_append_right _ (List.mem_singleton_self _), rfl⟩
  | attempt body ih => rw [endState_attempt]; exact ih s
  | outcome body ih => rw [endState_outcome]; exact ih s
  | production construct body =>
    exact .inr ⟨_, List.mem_append_right _ (List.mem_singleton_self _), rfl⟩

end Script

/-! ### Scripts along the definitions -/

/-- A parser with its script. -/
class Scripted {α : Type} (p : Parser α) where
  script : Script p

/-- The moments that the run of a parser from a state passes through. -/
def course (p : Parser α) [Scripted p] (ctx : Context) (s : State) : List Moment :=
  (Scripted.script : Script p).course ctx s

/-- The script of a production, which has the script of its text as its body. -/
@[reducible] def Scripted.production (construct : Construct) {p : Parser α} (body : Scripted p) :
    Scripted p :=
  ⟨.production construct body.script⟩

/-- The script of a parser with what goes on behind it. -/
@[reducible] def Scripted.bind {p : Parser α} {f : α → Parser β} [Scripted p]
    (next : ∀ a, Scripted (f a)) : Scripted (p >>= f) :=
  ⟨.bind Scripted.script fun a => (next a).script⟩

/-- The script of a choice. -/
@[reducible] def Scripted.ite {p q : Parser α} {c : Prop} [Decidable c] (yes : Scripted p)
    (no : Scripted q) : Scripted (if c then p else q) :=
  ⟨.ite c yes.script no.script⟩

section Combinators

variable (p q : Parser α) (f : α → Parser β)

instance pure.scripted (a : α) : Scripted (pure a : Parser α) := ⟨.pure a⟩

instance read.scripted : Scripted (read : Parser Context) := ⟨.context⟩

instance get.scripted : Scripted (get : Parser State) := ⟨.state⟩

instance throw.scripted (stop : Stop) : Scripted (throw stop : Parser α) := ⟨.throw stop⟩

instance bind.scripted [Scripted p] [next : ∀ a, Scripted (f a)] : Scripted (p >>= f) :=
  .bind next

instance map.scripted (g : α → β) [Scripted p] : Scripted (g <$> p) :=
  inferInstanceAs (Scripted (p >>= fun a => pure (g a)))

instance ite.scripted (c : Prop) [Decidable c] [yes : Scripted p] [no : Scripted q] :
    Scripted (if c then p else q) :=
  .ite yes no

instance inMode.scripted (mode : Mode) [Scripted p] : Scripted (inMode mode p) :=
  ⟨.inMode mode Scripted.script⟩

instance attempt.scripted [Scripted p] : Scripted (attempt p) := ⟨.attempt Scripted.script⟩

instance outcome.scripted [Scripted p] : Scripted (outcome p) := ⟨.outcome Scripted.script⟩

/-- The rounds of a loop, by recursion on how many there may be. -/
instance rounds.scripted (step : σ → Parser (Round σ β)) [∀ value, Scripted (step value)] :
    ∀ (n : Nat) (value : σ), Scripted (rounds step n value)
  | 0, _ => throw.scripted .stalled
  | n + 1, _ => .bind fun
      | .next value => rounds.scripted step n value
      | .done result => pure.scripted result

/-- One step for each member of a list, by recursion on the list. -/
instance forM.scripted (step : σ → Parser PUnit) [∀ a, Scripted (step a)] :
    ∀ as : List σ, Scripted (as.forM step)
  | [] => pure.scripted PUnit.unit
  | _ :: as => .bind fun _ => forM.scripted step as

end Combinators

/-- The course of a choice. -/
theorem course_ite {p q : Parser α} {c : Prop} [Decidable c] [Scripted p] [Scripted q]
    (ctx : Context) (s : State) :
    course (if c then p else q) ctx s = if c then course p ctx s else course q ctx s := rfl

/-- What goes on behind a parser has a course only where the parser has a result. -/
theorem course_bind {p : Parser α} {f : α → Parser β} [Scripted p] [∀ a, Scripted (f a)]
    (ctx : Context) (s : State) :
    course (p >>= f) ctx s = course p ctx s ++ match p ctx s with
      | .ok a s' => course (f a) ctx s'
      | .error _ _ => [] := by
  show Script.course (.bind _ _) ctx s = _
  rw [Script.course]
  rfl

/-! ### Scripts of the steps -/

instance skip.scripted : Scripted skip := ⟨.step .skip⟩

instance moveTo.scripted (pos : Nat) : Scripted (moveTo pos) := ⟨.step (.moveTo pos)⟩

instance record.scripted (d : Diagnostic) : Scripted (record d) := ⟨.step (.record d)⟩

instance takeDoc.scripted : Scripted takeDoc := ⟨.step .takeDoc⟩

instance release.scripted (attached : List Nat) : Scripted (release attached) :=
  ⟨.step (.release attached)⟩

instance keepDiagnostics.scripted (count : Nat) : Scripted (keepDiagnostics count) :=
  ⟨.step (.keepDiagnostics count)⟩

instance rewind.scripted (c : Checkpoint) : Scripted (rewind c) := ⟨.step (.rewind c)⟩

end Parser

end PklSyntax
