import PklSyntax.Proofs.Options.Sieve

/-!
# What the productions uphold

A production does nothing to the state but move the cursor onward, skip trivia, take a doc comment,
report what is wrong with the construct that it reads, and go back to where it began. So a relation
between an earlier state and a later one that each of these steps upholds holds between the state in
which a production begins and the one in which it ends, whether it has a result or not.

What concerns a module as a whole is reported by no production: what is wrong with its header is
reported behind a declaration, and the doc comments that are left over are reported in the end.

## Main definitions

* `Problem.concernsHeader`, `Problem.concernsModule`: the problems of the header of a module, and
  all that concern it as a whole.
* `Upkeep`: a relation between states that the steps uphold.
* `Upkeep.silent`: diagnostics of a kind that is only about modules as a whole stay as they are.
* `Upkeep.HoldsFrom`, `Parser.Upholds`: the relation holds between the two ends of a run.

## Main statements

* `Parser.Upholds.bind`, `Parser.Upholds.attempt`, `Upkeep.HoldsFrom.rewind`: the main rules.
* `Parser.skip_upholds`, `Parser.moveTo_holdsFrom`, `Parser.failWith_upholds`: steps.
-/

namespace PklSyntax

/-- The problem is one of the header of a module, and so of several declarations together. -/
def Problem.concernsHeader : Problem → Bool
  | .conflictingClause _ | .duplicateClause _ | .outOfOrder _ => true
  | _ => false

/-- The problem is one of the module as a whole. -/
def Problem.concernsModule : Problem → Bool
  | .orphanedDocComment => true
  | problem => problem.concernsHeader

theorem Problem.concernsHeader_eq_false {problem : Problem} (h : problem.concernsModule = false) :
    problem.concernsHeader = false := by
  cases problem with
  | orphanedDocComment => rfl
  | _ => exact h

/-- A relation between an earlier and a later state of the reading of a text that is upheld by all
the steps of which productions are made. -/
structure Upkeep where
  ctx : Context
  holds : State → State → Prop
  refl : ∀ s, holds s s
  trans : ∀ {s t u}, holds s t → holds t u → holds s u
  inMode : ∀ {s s'} mode, holds { s with mode } s' → holds s { s' with mode := s.mode }
  moveTo : ∀ {s : State} {pos : Nat}, Kept ctx.text s { s with pos } → holds s { s with pos }
  report : ∀ s (problem : Problem) span, problem.concernsModule = false →
    holds s { s with diagnostics := s.diagnostics.push (problem.diagnostic span) }
  skipTrivia : ∀ s, holds s (s.skipTrivia ctx.text)
  takeDoc : ∀ s, holds s s.takeDoc.2

/-- The diagnostics of a kind that are on record. -/
def State.onRecord (s : State) (kind : Diagnostic → Bool) : List Diagnostic :=
  s.diagnostics.toList.filter kind

theorem State.onRecord_push (s : State) {kind : Diagnostic → Bool} {d : Diagnostic}
    (h : kind d = false) :
    { s with diagnostics := s.diagnostics.push d }.onRecord kind = s.onRecord kind := by
  simp [onRecord, h]

theorem State.onRecord_append (s : State) (kind : Diagnostic → Bool) (ds : List Diagnostic) :
    { s with diagnostics := s.diagnostics ++ ds }.onRecord kind =
      s.onRecord kind ++ ds.filter kind := by
  simp [onRecord]

/-- When all problems of a kind are problems of a module as a whole, no step records one. -/
def Upkeep.silent (ctx : Context) (kind : Diagnostic → Bool)
    (hkind : ∀ (problem : Problem) span, problem.concernsModule = false →
      kind (problem.diagnostic span) = false) : Upkeep where
  ctx := ctx
  holds s s' := s'.onRecord kind = s.onRecord kind
  refl _ := rfl
  trans h h' := h'.trans h
  inMode _ h := h
  moveTo _ := rfl
  report s problem span h := s.onRecord_push (hkind problem span h)
  skipTrivia s := by
    rw [State.skipTrivia]
    split
    · rfl
    · rcases called_triviaFrom ctx.text s.pos with hnone | ⟨⟨span, hsome⟩, -⟩
      · simp [State.onRecord, hnone]
      · simp [State.onRecord, hsome, hkind .unterminatedComment span rfl]
  takeDoc s := by
    obtain ⟨attached, heq, -⟩ := s.takeDoc_eq
    rw [heq]
    rfl

/-- The relation holds between `s₀` and the state in which the run of the parser from `s` ends. -/
def Upkeep.HoldsFrom {α : Type} (U : Upkeep) (s₀ : State) (p : Parser α) (s : State) : Prop :=
  U.holds s₀ (endState (p U.ctx s))

/-- The relation holds between the beginning and the end of each run of the parser. -/
def Parser.Upholds {α : Type} (U : Upkeep) (p : Parser α) : Prop := ∀ s, U.HoldsFrom s p s

/-! ### Rules -/

namespace Upkeep.HoldsFrom

open PklSyntax.Parser

variable {α β : Type} {U : Upkeep} {s s₀ : State} {p q : Parser α} {f : α → Parser β}

theorem pure {a : α} (h : U.holds s₀ s) : U.HoldsFrom s₀ (Pure.pure a : Parser α) s := h

theorem of_upholds (h : U.holds s₀ s) (hp : p.Upholds U) : U.HoldsFrom s₀ p s := U.trans h (hp s)

theorem bind (h : U.holds s₀ s) (hp : U.HoldsFrom s p s)
    (hf : ∀ a s', p U.ctx s = .ok a s' → U.holds s₀ s' → U.HoldsFrom s₀ (f a) s') :
    U.HoldsFrom s₀ (p >>= f) s := by
  have hend := U.trans h hp
  rw [HoldsFrom, bind_apply]
  cases hrun : p U.ctx s with
  | ok a s' =>
    rw [hrun] at hend
    exact hf a s' hrun hend
  | error stop s' =>
    rw [hrun] at hend
    exact hend

/-- What is seen by looking is known behind it. -/
theorem look {v : Context → State → α} (hp : Looks p v) (hf : U.HoldsFrom s₀ (f (v U.ctx s)) s) :
    U.HoldsFrom s₀ (p >>= f) s := by
  rw [HoldsFrom, hp.bind_apply]
  exact hf

theorem idle (hp : Idle p) (hf : ∀ a, U.HoldsFrom s₀ (f a) s) : U.HoldsFrom s₀ (p >>= f) s := by
  obtain ⟨a, ha⟩ := hp U.ctx s
  rw [HoldsFrom, bind_apply, ha]
  exact hf a

theorem ite {b : Bool} (hp : b = true → U.HoldsFrom s₀ p s) (hq : b = false → U.HoldsFrom s₀ q s) :
    U.HoldsFrom s₀ (if b = true then p else q) s := by
  cases b with
  | true => exact hp rfl
  | false => exact hq rfl

/-- The rule for reading ahead. -/
theorem mark {f : Checkpoint → Parser β} (hf : U.HoldsFrom s₀ (f s.checkpoint) s) :
    U.HoldsFrom s₀ (Parser.mark >>= f) s := hf

/-- Going back to where the run began. -/
theorem rewind {f : Unit → Parser β} (h : Kept U.ctx.text s₀ s) (hf : U.HoldsFrom s₀ (f ()) s₀) :
    U.HoldsFrom s₀ (Parser.rewind s₀.checkpoint >>= f) s := by
  show U.holds s₀ (endState (f () U.ctx (s.rewind s₀.checkpoint)))
  rw [h.rewind]
  exact hf

end Upkeep.HoldsFrom

namespace Parser.Upholds

variable {α β σ : Type} {U : Upkeep} {p q : Parser α} {f : α → Parser β}

theorem pure (a : α) : (Pure.pure a : Parser α).Upholds U := U.refl

theorem bind (hp : p.Upholds U) (hf : ∀ a, (f a).Upholds U) : (p >>= f).Upholds U :=
  fun s => .bind (U.refl s) (hp s) fun a _ _ h => .of_upholds h (hf a)

theorem map {g : α → β} (hp : p.Upholds U) : (g <$> p).Upholds U := hp.bind fun _ => .pure _

/-- A step that changes nothing. -/
theorem idle (hp : Idle p) : p.Upholds U := by
  intro s
  obtain ⟨a, ha⟩ := hp U.ctx s
  rw [Upkeep.HoldsFrom, ha]
  exact U.refl s

/-- Looking at the text, and then going on. -/
theorem look {v : Context → State → α} (hp : Looks p v) (hf : ∀ a, (f a).Upholds U) :
    (p >>= f).Upholds U :=
  (idle hp.idle).bind hf

theorem ite {b : Bool} {p q : Parser β} (hp : p.Upholds U) (hq : q.Upholds U) :
    (if b = true then p else q).Upholds U :=
  fun s => .ite (fun _ => hp s) fun _ => hq s

/-- Two ways that come together again. -/
theorem branch {b : Bool} (hp : p.Upholds U) (hq : q.Upholds U) (hf : ∀ a, (f a).Upholds U) :
    (if b = true then p >>= f else q >>= f).Upholds U :=
  .ite (hp.bind hf) (hq.bind hf)

/-- A step that is taken on a condition. -/
theorem option {b : Bool} (a : α) (hp : p.Upholds U) (hf : ∀ a, (f a).Upholds U) :
    (if b = true then p >>= f else f a).Upholds U :=
  .ite (hp.bind hf) (hf a)

theorem attempt (hp : p.Upholds U) : (Parser.attempt p).Upholds U := by
  intro s
  have hend := hp s
  rw [Upkeep.HoldsFrom] at hend ⊢
  rw [Parser.attempt]
  cases hrun : p U.ctx s with
  | ok a s' =>
    rw [hrun] at hend
    exact hend
  | error stop s' =>
    rw [hrun] at hend
    cases stop <;> exact hend

theorem inMode {mode : Mode} (hp : p.Upholds U) : (Parser.inMode mode p).Upholds U := by
  intro s
  have hend := hp { s with mode }
  rw [Upkeep.HoldsFrom] at hend ⊢
  rw [Parser.inMode]
  cases hrun : p U.ctx { s with mode } with
  | ok a s' =>
    rw [hrun] at hend
    exact U.inMode mode hend
  | error stop s' =>
    rw [hrun] at hend
    exact U.inMode mode hend

theorem throw (stop : Stop) : (throw stop : Parser α).Upholds U := U.refl

/-- What each round of a loop upholds, the loop upholds. The induction is on the rounds. -/
theorem rounds {step : σ → Parser (Round σ β)} (hstep : ∀ v, (step v).Upholds U) (n : Nat)
    (value : σ) : (Parser.rounds step n value).Upholds U := by
  induction n generalizing value with
  | zero => exact .throw .stalled
  | succ n ih =>
    refine (hstep value).bind fun round => ?_
    cases round with
    | next v => exact ih v
    | done result => exact .pure result

end Parser.Upholds

namespace Parser

variable {α β σ : Type} {U : Upkeep} {f : α → Parser β}

/-! ### Steps -/

/-- Moving the cursor, when it does not go back and stays in the text. -/
theorem moveTo_holdsFrom {s : State} {pos : Nat} (hle : min s.pos U.ctx.text.size ≤ pos)
    (hsize : s.pos ≤ U.ctx.text.size → pos ≤ U.ctx.text.size) : U.HoldsFrom s (moveTo pos) s :=
  U.moveTo (.moveTo hle hsize)

theorem advance_upholds (n : Nat) : (advance n).Upholds U := fun _ =>
  .look theText_looks (.look position_looks
    (moveTo_holdsFrom (by omega) fun _ => Nat.min_le_left _ _))

theorem skip_upholds : skip.Upholds U := U.skipTrivia

theorem takeDoc_upholds : takeDoc.Upholds U := U.takeDoc

theorem report_upholds {problem : Problem} (h : problem.concernsModule = false) (span : Span) :
    (report problem span).Upholds U := fun s => U.report s problem span h

theorem failWith_upholds {problem : Problem} (h : problem.concernsModule = false) (span : Span) :
    (failWith problem span : Parser α).Upholds U :=
  (report_upholds h span).bind fun _ => .throw .failed

/-- What stands behind a failure does not matter. -/
theorem failWith_bind_upholds {problem : Problem} (h : problem.concernsModule = false)
    (span : Span) : (failWith problem span >>= f).Upholds U := failWith_upholds h span

theorem repeating_upholds {step : σ → Parser (Round σ β)} (hstep : ∀ v, (step v).Upholds U)
    (value : σ) : (repeating step value).Upholds U :=
  .look theText_looks fun _ => .look position_looks fun _ => .rounds hstep _ value

end Parser

end PklSyntax
