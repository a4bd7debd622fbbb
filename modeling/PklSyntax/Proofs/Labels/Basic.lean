import PklSyntax.Proofs.Course.Orderly
import PklSyntax.Proofs.Upkeep.Steady

/-!
# Where diagnostics point

Every label of a diagnostic lies in the text, with one exception. In front of the offending
character of an escape or behind an interpolation that is not closed, the label reaches over the
character at the cursor without asking whether there is one. At the end of the text it then ends one
offset behind the text.

A state in the middle of a parse is *marked* when its diagnostics point into the text in this way.
The runs of a parser keep states marked, whatever they come to, when the steps of which they are
made do. Moving the cursor and looking at the text change no diagnostic; what is to be shown is
where each diagnostic points that is reported on the way. For most of them this is told by the
cursor; for others it is known of the parts that have been read, of names and tokens and literals,
where they lie.

## Main definitions

* `Span.Inside`: the span lies in a text of some length.
* `Problem.marksCursor`: the problems that are marked over the character at the cursor.
* `Problem.Fits`, `Diagnostic.Fits`: where a problem may be reported, and where a diagnostic points.
* `Marked`: a state in the middle of a parse whose diagnostics point into the text.
* `Parser.MarksFrom`, `Parser.Marks`: one run of a parser, or every run, keeps states marked.

## Main statements

* `Diagnostic.Fits.label`: what this says of the labels of a diagnostic.
* `Parser.MarksFrom.bind`, `Parser.MarksFrom.after`, `Parser.MarksFrom.rewind`: the main rules.
* `Parser.MarksFrom.moveTo`, `Parser.MarksFrom.report`: the steps that are to be looked at.
-/

namespace PklSyntax

/-! ### Places in a text -/

namespace Span

/-- The span lies in a text of the given length. -/
def Inside (size : Nat) (span : Span) : Prop :=
  0 ≤ span.start ∧ span.start ≤ span.stop ∧ span.stop ≤ size

variable {size : Nat} {a b : Span}

theorem inside_ofNat {start stop : Nat} (hle : start ≤ stop) (hsize : stop ≤ size) :
    (ofNat start stop).Inside size := by
  simp only [Inside, ofNat]
  omega

theorem Inside.cover (ha : a.Inside size) (hb : b.Inside size) : (a.cover b).Inside size := by
  simp only [Inside, Span.cover] at *
  omega

/-- A tree that was read lies in the text. -/
theorem inside_of_placed {text : Array Char} {lo hi : Nat} {n : Node} (h : Placed text lo n hi)
    (hsize : hi ≤ size) : n.span.Inside size := by
  have hstart := h.le_start
  have hlt := h.sound.start_lt_stop
  have hstop := h.stop_eq
  simp only [Inside]
  omega

end Span

/-! ### Problems -/

namespace Problem

/-- The problem is marked up to the character at the cursor and over it, whether or not there is
one. -/
def marksCursor : Problem → Bool
  | invalidEscape .. | missingUnicodeBrace _ | wrongUnicodeDigits _ | unclosedInterpolation => true
  | _ => false

/-- The opening quotes at which a problem in an escape points besides. -/
def opening? : Problem → Option Span
  | invalidEscape _ opening | missingUnicodeBrace opening | wrongUnicodeDigits opening
  | invalidScalar _ opening => some opening
  | _ => none

/-- The problem may be reported at the span: that lies in the text, or else it ends behind the
character for which there was no room. -/
structure Fits (size : Nat) (problem : Problem) (span : Span) : Prop where
  span : span.Inside size ∨ problem.marksCursor = true ∧ 0 ≤ span.start ∧ span.start ≤ size ∧
    span.stop = size + 1
  opening : ∀ opening ∈ problem.opening?, opening.Inside size

variable {size : Nat} {problem : Problem} {span : Span}

/-- Most problems have one label, and that lies in the text. -/
theorem Fits.of_inside (hnone : problem.opening? = none) (h : span.Inside size) :
    problem.Fits size span :=
  ⟨.inl h, by simp [hnone]⟩

/-- A label from an offset up to the cursor and over the character there. -/
theorem Fits.of_cursor {start pos : Nat} (hmarks : problem.marksCursor = true)
    (hopening : ∀ opening ∈ problem.opening?, opening.Inside size) (hle : start ≤ pos)
    (hsize : pos ≤ size) : problem.Fits size (.ofNat start (pos + 1)) := by
  refine ⟨?_, hopening⟩
  rcases Nat.lt_or_eq_of_le hsize with hlt | rfl
  · exact .inl (Span.inside_ofNat (by omega) hlt)
  · exact .inr ⟨hmarks, Int.natCast_nonneg _, Int.ofNat_le.2 hle, rfl⟩

/-- The labels of a problem: the primary one at its own place, and a secondary one at the opening
quotes. -/
theorem label_cases {label : Label} (h : label ∈ (problem.diagnostic span).labels) :
    label.span = span ∧ label.isPrimary = true ∨ label.span ∈ problem.opening? := by
  cases problem <;>
    simp only [diagnostic, errorAt, warningAt, escapeErrorAt, List.mem_cons, List.not_mem_nil,
      or_false] at h
  case invalidEscape | missingUnicodeBrace | wrongUnicodeDigits | invalidScalar =>
    rcases h with rfl | rfl
    · exact .inl ⟨rfl, rfl⟩
    · exact .inr rfl
  all_goals
    subst h
    exact .inl ⟨rfl, rfl⟩

end Problem

/-- The diagnostic reports a problem at a place where it may be reported. -/
def Diagnostic.Fits (size : Nat) (d : Diagnostic) : Prop :=
  ∃ (problem : Problem) (span : Span), d = problem.diagnostic span ∧ problem.Fits size span

/-- Every label lies in the text, or it is the primary label of a problem that is marked over the
character at the cursor, and reaches from an offset of the text to the one behind its end. -/
theorem Diagnostic.Fits.label {size : Nat} {d : Diagnostic} (h : d.Fits size) {label : Label}
    (hlabel : label ∈ d.labels) :
    label.span.Inside size ∨
      label.isPrimary = true ∧ 0 ≤ label.span.start ∧ label.span.start ≤ size ∧
        label.span.stop = size + 1 ∧
        ∃ problem : Problem, problem.marksCursor = true ∧ d = problem.diagnostic label.span := by
  obtain ⟨problem, span, rfl, hfits⟩ := h
  rcases Problem.label_cases hlabel with ⟨rfl, hprimary⟩ | hopening
  · refine hfits.span.imp_right ?_
    rintro ⟨hmarks, hstart, hle, hstop⟩
    exact ⟨hprimary, hstart, hle, hstop, problem, hmarks, rfl⟩
  · exact .inl (hfits.opening _ hopening)

/-! ### Marked states -/

/-- A doc comment that stands in front of an offset of the text lies in the text. -/
theorem DocComment.StandsIn.inside {text : Array Char} {lo hi size : Nat} {doc : DocComment}
    (h : doc.StandsIn text lo hi) (hsize : hi ≤ size) : doc.span.Inside size := by
  obtain ⟨start, stop, hspan, -, hlt, hstop, -⟩ := h
  exact hspan ▸ Span.inside_ofNat hlt.le (hstop.trans hsize)

/-- A state in the middle of a parse, all of whose diagnostics point into the text, in which the doc
comments that have been found lie. -/
structure Marked (ctx : Context) (s : State) : Prop extends Steady ctx s where
  docs : ∀ doc ∈ s.docs.toList, doc.span.Inside ctx.text.size
  fits : ∀ d ∈ s.diagnostics.toList, d.Fits ctx.text.size

namespace Marked

variable {ctx : Context} {s : State}

theorem initial (ctx : Context) : Marked ctx {} := ⟨.initial ctx, nofun, nofun⟩

theorem pos_le (h : Marked ctx s) : s.pos ≤ ctx.text.size :=
  have ⟨_, hc⟩ := h.stands
  hc.pos_le_size

theorem with_mode (h : Marked ctx s) (mode : Mode) : Marked ctx { s with mode } :=
  ⟨h.toSteady.with_mode mode, h.docs, h.fits⟩

theorem report (h : Marked ctx s) {problem : Problem} {span : Span}
    (hfits : problem.Fits ctx.text.size span) :
    Marked ctx { s with diagnostics := s.diagnostics.push (problem.diagnostic span) } :=
  ⟨h.toSteady.report _, h.docs, Parser.forall_mem_toList_push h.fits ⟨problem, span, rfl, hfits⟩⟩

theorem takeDoc (h : Marked ctx s) : Marked ctx s.takeDoc.2 := by
  have hsteady := h.toSteady.takeDoc
  obtain ⟨attached, heq, -⟩ := s.takeDoc_eq
  rw [heq] at hsteady ⊢
  exact ⟨hsteady, h.docs, h.fits⟩

/-- What trivia call for points at the mark that opens a comment. -/
theorem called_fits {text : Array Char} {i : Nat} {d : Diagnostic}
    (h : d ∈ (triviaFrom text i).1.filterMap Trivia.diagnostic?) : d.Fits text.size := by
  induction i using trivia_induction text with
  | stop i hi =>
    rw [triviaFrom_of_none hi] at h
    cases h
  | item i item hi ih =>
    rw [triviaFrom_of_some hi] at h
    obtain ⟨called, hmem, hd⟩ := List.mem_filterMap.1 h
    rcases List.mem_cons.1 hmem with rfl | hrest
    · cases called with
      | unclosedComment start stop =>
        obtain ⟨rfl, -, hopen⟩ := triviaAt?_unclosedComment hi
        have hsize : start + 2 ≤ text.size := add_length_le_of_matchesAt hopen (by decide)
        cases hd
        exact ⟨_, _, rfl, .of_inside rfl (Span.inside_ofNat (by omega) hsize)⟩
      | blanks | lineComment | docBlock | blockComment => cases hd
    · exact ih (List.mem_filterMap.2 ⟨called, hrest, hd⟩)

theorem skipTrivia (h : Marked ctx s) : Marked ctx (s.skipTrivia ctx.text) := by
  have hsteady := h.toSteady.skipTrivia
  rw [State.skipTrivia] at hsteady ⊢
  split
  · exact h
  refine ⟨by simpa [*] using hsteady, fun doc hdoc => ?_, fun d hd => ?_⟩
  · rw [Array.toList_appendList, List.mem_append] at hdoc
    exact hdoc.elim (h.docs doc) fun hdoc =>
      (docsFrom_standsIn hdoc).inside (skipEnd_le_size h.pos_le)
  · rw [Array.toList_appendList, List.mem_append] at hd
    exact hd.elim (h.fits d) called_fits

end Marked

/-! ### Rules for one run -/

namespace Parser

variable {α β σ : Type}

/-- From a marked state, the run of the parser ends in a marked state, whether it has a result or
stops. -/
def MarksFrom (p : Parser α) (ctx : Context) (s : State) : Prop :=
  Marked ctx s → Marked ctx (endState (p ctx s))

/-- All runs of the parser lead from marked states to marked ones. -/
class Marks (p : Parser α) : Prop where
  marksFrom : ∀ ctx s, p.MarksFrom ctx s

namespace MarksFrom

variable {p q : Parser α} {f : α → Parser β} {ctx : Context} {s : State}

/-- Only runs from marked states are to be looked at. -/
theorem of_marked (h : Marked ctx s → p.MarksFrom ctx s) : p.MarksFrom ctx s := fun hs => h hs hs

theorem pure (a : α) : (Pure.pure a : Parser α).MarksFrom ctx s := id

theorem andThen (hp : p.MarksFrom ctx s)
    (hf : ∀ a s', p ctx s = .ok a s' → (f a).MarksFrom ctx s') : (p >>= f).MarksFrom ctx s := by
  intro hs
  have hend := hp hs
  rw [bind_apply]
  cases hrun : p ctx s with
  | ok a s' =>
    rw [hrun] at hend
    exact hf a s' hrun hend
  | error =>
    rw [hrun] at hend
    exact hend

/-- What goes on behind a run, of which something else is known when it sets out from a steady
state. -/
theorem bind {P : α → State → Prop} (hp : p.MarksFrom ctx s) (hP : p.Leaves Steady ctx s P)
    (hf : ∀ a s', P a s' → (f a).MarksFrom ctx s') : (p >>= f).MarksFrom ctx s :=
  .of_marked fun hs => .andThen hp fun a s' hrun => hf a s' (hP.of_ok hs.toSteady hrun).2

theorem after [Marks p] (hf : ∀ a s', p ctx s = .ok a s' → (f a).MarksFrom ctx s') :
    (p >>= f).MarksFrom ctx s :=
  .andThen (Marks.marksFrom ctx s) hf

/-- What is seen by looking is known behind it. -/
theorem look {v : Context → State → α} (hp : Looks p v) (hf : (f (v ctx s)).MarksFrom ctx s) :
    (p >>= f).MarksFrom ctx s := by
  rw [MarksFrom, hp.bind_apply]
  exact hf

theorem idle (hp : Idle p) (hf : ∀ a, (f a).MarksFrom ctx s) : (p >>= f).MarksFrom ctx s := by
  obtain ⟨a, ha⟩ := hp ctx s
  rw [MarksFrom, bind_apply, ha]
  exact hf a

theorem ite {c : Prop} [Decidable c] (hp : c → p.MarksFrom ctx s) (hq : ¬ c → q.MarksFrom ctx s) :
    (if c then p else q).MarksFrom ctx s := by
  by_cases h : c
  · rw [if_pos h]
    exact hp h
  · rw [if_neg h]
    exact hq h

/-- Two ways that come together again. -/
theorem branch {c : Prop} [Decidable c] [Marks p] [Marks q]
    (hf : ∀ a s', (f a).MarksFrom ctx s') : (if c then p >>= f else q >>= f).MarksFrom ctx s :=
  .ite (fun _ => .after fun a s' _ => hf a s') fun _ => .after fun a s' _ => hf a s'

/-- Behind a parser that gives nothing, nothing is reported any more. -/
theorem never (hp : p.MarksFrom ctx s) (hnever : p.Leaves Steady ctx s fun _ _ => False) :
    (p >>= f).MarksFrom ctx s :=
  .bind hp hnever fun _ _ h => h.elim

/-- Going back to where a run began, of which nothing has been lost. -/
theorem rewind {s₀ : State} {f : Unit → Parser β} (h : Kept ctx.text s₀ s) (hs₀ : Marked ctx s₀)
    (hf : (f ()).MarksFrom ctx s₀) :
    (Parser.rewind s₀.checkpoint >>= f).MarksFrom ctx s := by
  intro _
  show Marked ctx (endState (f () ctx (s.rewind s₀.checkpoint)))
  rw [h.rewind]
  exact hf hs₀

theorem inMode {mode : Mode} (h : p.MarksFrom ctx { s with mode }) :
    (Parser.inMode mode p).MarksFrom ctx s := by
  intro hs
  have hend := h (hs.with_mode mode)
  rw [Parser.inMode]
  cases hrun : p ctx { s with mode } <;> (rw [hrun] at hend; exact hend.with_mode s.mode)

/-- The rounds of a loop keep states marked when each of them does. The induction is on the
rounds. -/
theorem repeating {step : σ → Parser (Round σ β)}
    (hstep : ∀ value s', (step value).MarksFrom ctx s') (value : σ) :
    (Parser.repeating step value).MarksFrom ctx s := by
  have hrounds (n : Nat) (value : σ) (s' : State) : (rounds step n value).MarksFrom ctx s' := by
    induction n generalizing value s' with
    | zero => exact id
    | succ n ih =>
      refine .andThen (hstep value s') fun round s'' _ => ?_
      cases round with
      | next value => exact ih value s''
      | done result => exact .pure result
  exact .look theText_looks (.look position_looks (hrounds _ value s))

/-- Moving the cursor on within the text. -/
theorem moveTo {pos : Nat} (h : Marked ctx s → s.pos ≤ pos ∧ pos ≤ ctx.text.size) :
    (moveTo pos).MarksFrom ctx s :=
  fun hs => ⟨hs.toSteady.moveTo (h hs).1 (h hs).2, hs.docs, hs.fits⟩

theorem moveTo_bind {pos : Nat} {f : Unit → Parser β}
    (h : Marked ctx s → s.pos ≤ pos ∧ pos ≤ ctx.text.size)
    (hf : (f ()).MarksFrom ctx { s with pos }) : (Parser.moveTo pos >>= f).MarksFrom ctx s :=
  fun hs => hf (MarksFrom.moveTo h hs)

theorem report {problem : Problem} {span : Span}
    (h : Marked ctx s → problem.Fits ctx.text.size span) :
    (report problem span).MarksFrom ctx s :=
  fun hs => hs.report (h hs)

theorem report_bind {problem : Problem} {span : Span} {f : Unit → Parser β}
    (h : Marked ctx s → problem.Fits ctx.text.size span)
    (hf : (f ()).MarksFrom ctx
      { s with diagnostics := s.diagnostics.push (problem.diagnostic span) }) :
    (Parser.report problem span >>= f).MarksFrom ctx s :=
  fun hs => hf (MarksFrom.report h hs)

theorem failWith {problem : Problem} {span : Span}
    (h : Marked ctx s → problem.Fits ctx.text.size span) :
    (failWith problem span : Parser α).MarksFrom ctx s :=
  fun hs => hs.report (h hs)

/-- What stands behind a failure is not reached. -/
theorem failWith_bind {problem : Problem} {span : Span}
    (h : Marked ctx s → problem.Fits ctx.text.size span) :
    (Parser.failWith problem span >>= f).MarksFrom ctx s :=
  .never (.failWith h) failWith_leaves

end MarksFrom

/-! ### Rules for all runs -/

namespace Marks

variable {p q : Parser α} {f : α → Parser β}

theorem of_idle (hp : Idle p) : Marks p where
  marksFrom ctx s hs := by
    obtain ⟨a, ha⟩ := hp ctx s
    rw [ha]
    exact hs

instance pure (a : α) : Marks (Pure.pure a : Parser α) := ⟨fun _ _ => .pure a⟩

instance throw (stop : Stop) : Marks (throw stop : Parser α) := ⟨fun _ _ => id⟩

/-- A parser with what goes on behind it. -/
theorem sequence [Marks p] (hf : ∀ a, Marks (f a)) : Marks (p >>= f) :=
  ⟨fun ctx _ => .after fun a s' _ => (hf a).marksFrom ctx s'⟩

theorem choice {c : Prop} [Decidable c] (hp : Marks p) (hq : Marks q) :
    Marks (if c then p else q) :=
  ⟨fun ctx s => .ite (fun _ => hp.marksFrom ctx s) fun _ => hq.marksFrom ctx s⟩

instance bind [Marks p] [hf : ∀ a, Marks (f a)] : Marks (p >>= f) := sequence hf

instance map {g : α → β} [Marks p] : Marks (g <$> p) :=
  inferInstanceAs (Marks (p >>= fun a => Pure.pure (g a)))

instance ite {c : Prop} [Decidable c] [hp : Marks p] [hq : Marks q] :
    Marks (if c then p else q) :=
  choice hp hq

instance inMode {mode : Mode} [hp : Marks p] : Marks (inMode mode p) :=
  ⟨fun ctx s => .inMode (hp.marksFrom ctx { s with mode })⟩

instance attempt [hp : Marks p] : Marks (attempt p) where
  marksFrom ctx s hs := by
    have hend := hp.marksFrom ctx s hs
    rw [Parser.attempt]
    cases hrun : p ctx s with
    | ok a s' =>
      rw [hrun] at hend
      exact hend
    | error stop s' =>
      rw [hrun] at hend
      cases stop <;> exact hend

instance theText : Marks theText := .of_idle theText_looks.idle

instance theOptions : Marks theOptions := .of_idle theOptions_looks.idle

instance position : Marks position := .of_idle position_looks.idle

theorem loop {step : σ → Parser (Round σ β)} (hstep : ∀ value, Marks (step value)) (value : σ) :
    Marks (repeating step value) :=
  ⟨fun ctx _ => .repeating (fun value s' => (hstep value).marksFrom ctx s') value⟩

instance repeating {step : σ → Parser (Round σ β)} [hstep : ∀ value, Marks (step value)]
    (value : σ) : Marks (repeating step value) :=
  loop hstep value

end Marks

end Parser

end PklSyntax
