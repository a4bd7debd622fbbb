import PklSyntax.Proofs.Reading.Leaves
import PklSyntax.Proofs.Upkeep.Production

/-!
# Steady states

In the middle of a parse the state stands behind some token, and the doc comments that were found so
far end at the cursor or in front of it. Such a state is *steady*. All steps lead from steady
states to steady ones, and so do all productions, so that a description of what a production leaves
may suppose of every state on the way that it is steady.

Which productions uphold whatever their steps uphold is found by instances, along the parser.

## Main definitions

* `Steady`, `SteadyLoose`: a state in the middle of a parse, in any mode or in loose mode.
* `Parser.Upkept`, `Grammar.Upkept`: a parser upholds whatever its steps uphold.

## Main statements

* `Upkeep.steady`: all steps uphold that a state is steady.
* `Parser.Leaves.inMode_loose`: what is read in loose mode inside another construct.
-/

namespace PklSyntax

/-! ### States -/

/-- The state stands behind some token, and the doc comments found so far do not reach behind the
cursor. -/
structure Steady (ctx : Context) (s : State) : Prop where
  stands : ∃ c, Stands ctx.text s c
  docs_le : ∀ doc ∈ s.docs.toList, doc.span.stop ≤ s.pos

/-- The doc comments among some trivia end in front of the end of these. -/
theorem docsFrom_stop_le {text : Array Char} {i : Nat} {doc : DocComment}
    (h : doc ∈ docsFrom text i) : doc.span.stop ≤ skipEnd text i := by
  induction i using trivia_induction text with
  | stop i hi =>
    rw [docsFrom, triviaFrom_of_none hi] at h
    cases h
  | item i item hi ih =>
    rw [docsFrom, triviaFrom_of_some hi, List.filterMap_cons] at h
    have hle := @le_skipEnd text item.stop
    rw [skipEnd_of_some hi]
    cases hdoc : item.doc? with
    | none =>
      rw [hdoc] at h
      exact ih h
    | some first =>
      rw [hdoc] at h
      rcases List.mem_cons.1 h with rfl | h
      · rw [triviaAt?_docBlock hi hdoc]
        exact Int.ofNat_le.2 hle
      · exact ih h

namespace Steady

variable {ctx : Context} {s : State}

theorem initial (ctx : Context) : Steady ctx {} :=
  ⟨⟨0, Nat.zero_le _, nofun, .inl ⟨rfl, nofun⟩⟩, nofun⟩

theorem with_mode (h : Steady ctx s) (mode : Mode) : Steady ctx { s with mode } :=
  ⟨h.stands.imp fun _ hc => hc.with_mode mode, h.docs_le⟩

/-- The cursor may be moved on within the text. -/
theorem moveTo (h : Steady ctx s) {pos : Nat} (hle : s.pos ≤ pos) (hsize : pos ≤ ctx.text.size) :
    Steady ctx { s with pos } := by
  obtain ⟨c, hc⟩ := h.stands
  rcases Nat.eq_or_lt_of_le hle with rfl | hlt
  · exact h
  · exact ⟨⟨pos, hc.at_pos hlt hsize⟩, fun doc hdoc =>
      Int.le_trans (h.docs_le doc hdoc) (Int.ofNat_le.2 hle)⟩

theorem report (h : Steady ctx s) (d : Diagnostic) :
    Steady ctx { s with diagnostics := s.diagnostics.push d } :=
  ⟨h.stands.imp fun _ hc => (hc.push d).stands, h.docs_le⟩

theorem skipTrivia (h : Steady ctx s) : Steady ctx (s.skipTrivia ctx.text) := by
  obtain ⟨c, hc⟩ := h.stands
  cases hmode : s.mode with
  | tight =>
    rw [State.skipTrivia, hmode]
    exact h
  | loose =>
    refine ⟨⟨c, (hc.skipTrivia hmode).1.stands⟩, fun doc hdoc => ?_⟩
    rw [State.skipTrivia, hmode] at hdoc ⊢
    have hle := @le_skipEnd ctx.text s.pos
    simp only [Array.toList_appendList, List.mem_append] at hdoc
    -- A doc comment that was there before, or one of the trivia that are skipped.
    rcases hdoc with hdoc | hdoc
    · exact Int.le_trans (h.docs_le doc hdoc) (Int.ofNat_le.2 hle)
    · exact docsFrom_stop_le hdoc

/-- With an error on record a parse may go on with other doc comments taken. -/
theorem attach (h : Steady ctx s) {attached : List Nat} {diagnostics : Array Diagnostic}
    (hattached : ∀ i ∈ attached, i < s.docs.size)
    (herror : ∃ d ∈ diagnostics.toList, d.isError = true) :
    Steady ctx { s with attached, diagnostics } := by
  obtain ⟨c, hc⟩ := h.stands
  exact ⟨⟨c, hc.pos_le_size, hattached, hc.place.imp_right fun h => ⟨h.1, h.2.1, h.2.2.1,
    .inr herror⟩⟩, h.docs_le⟩

theorem takeDoc (h : Steady ctx s) : Steady ctx s.takeDoc.2 := by
  obtain ⟨c, hc⟩ := h.stands
  refine ⟨⟨c, hc.takeDoc.stands⟩, ?_⟩
  obtain ⟨attached, heq, -⟩ := s.takeDoc_eq
  rw [heq]
  exact h.docs_le

end Steady

/-- A steady state in loose mode, in which trivia may stand between tokens. -/
structure SteadyLoose (ctx : Context) (s : State) : Prop extends Steady ctx s where
  mode_eq : s.mode = .loose

/-- All steps lead from steady states to steady ones, and leave the mode as it was. -/
def Upkeep.steady (ctx : Context) : Upkeep where
  ctx := ctx
  holds s s' := (Steady ctx s → Steady ctx s') ∧ s'.mode = s.mode
  refl _ := ⟨id, rfl⟩
  trans h h' := ⟨fun hs => h'.1 (h.1 hs), h'.2.trans h.2⟩
  inMode mode h := ⟨fun hs => (h.1 (hs.with_mode mode)).with_mode _, rfl⟩
  moveTo hkept := by
    refine ⟨fun hs => ?_, hkept.mode_eq⟩
    obtain ⟨c, hc⟩ := hs.stands
    have hle := hc.pos_le_size
    have hpos := hkept.pos_le
    exact hs.moveTo (by rwa [Nat.min_eq_left hle] at hpos) (hkept.pos_le_size hle)
  report _ problem span _ := ⟨fun hs => hs.report (problem.diagnostic span), rfl⟩
  skipTrivia s := by
    refine ⟨fun hs => hs.skipTrivia, ?_⟩
    rw [State.skipTrivia]
    split
    · rfl
    · rfl
  takeDoc s := by
    refine ⟨fun hs => hs.takeDoc, ?_⟩
    obtain ⟨attached, heq, -⟩ := s.takeDoc_eq
    rw [heq]

/-! ### Parsers -/

namespace Parser

variable {α β : Type}

/-- The parser upholds whatever its steps uphold. -/
class Upkept (p : Parser α) : Prop where
  upholds : ∀ U, p.Upholds U

theorem steady_of_upkept {p : Parser α} [Upkept p] {ctx : Context} {s : State} (hs : Steady ctx s) :
    Steady ctx (endState (p ctx s)) ∧ (endState (p ctx s)).mode = s.mode := by
  have h : (Steady ctx s → Steady ctx (endState (p ctx s))) ∧ (endState (p ctx s)).mode = s.mode :=
    Upkept.upholds (Upkeep.steady ctx) s
  exact ⟨h.1 hs, h.2⟩

instance (p : Parser α) [Upkept p] : Keeps Steady p where
  of_ok hs hrun := by
    have h := steady_of_upkept (p := p) hs
    rw [hrun] at h
    exact h.1
  of_error hs hrun := by
    have h := steady_of_upkept (p := p) hs
    rw [hrun] at h
    exact h.1

instance (p : Parser α) [Upkept p] : Keeps SteadyLoose p where
  of_ok hs hrun := by
    have h := steady_of_upkept (p := p) hs.toSteady
    rw [hrun] at h
    exact ⟨h.1, h.2.trans hs.mode_eq⟩
  of_error hs hrun := by
    have h := steady_of_upkept (p := p) hs.toSteady
    rw [hrun] at h
    exact ⟨h.1, h.2.trans hs.mode_eq⟩

instance : AnyMode Steady := ⟨fun mode hs => hs.with_mode mode⟩

/-- What is read in loose mode may stand in a construct that is read in another mode. -/
theorem Leaves.inMode_loose {ctx : Context} {s : State} {p : Parser α} {P : α → State → Prop}
    (hp : p.Leaves SteadyLoose ctx { s with mode := .loose } P)
    (hP : ∀ a s', P a s' → P a { s' with mode := s.mode }) :
    (Parser.inMode .loose p).Leaves Steady ctx s P where
  of_ok {a s'} hs hrun := by
    rw [Parser.inMode] at hrun
    split at hrun
    next hfirst =>
      cases hrun
      obtain ⟨hs', hP'⟩ := hp.of_ok ⟨hs.with_mode _, rfl⟩ hfirst
      exact ⟨hs'.toSteady.with_mode _, hP _ _ hP'⟩
    next => cases hrun

instance (problem : Problem) (span : Span) : Keeps Steady (report problem span) where
  of_ok hs hrun := by
    cases hrun
    exact hs.report _
  of_error _ hrun := by cases hrun

/-- Of a run from a steady state it is known, too, what the parser yields. -/
theorem Leaves.with_yields {ctx : Context} {s : State} {c : Nat} {p : Parser α}
    {P : α → State → Prop} {Q : α → State → Nat → Prop} (hp : p.Leaves Steady ctx s P)
    (hs : Stands ctx.text s c) (hyields : p.Yields ctx s c Q) :
    p.Leaves Steady ctx s fun a s' => P a s' ∧ ∃ c', Onward ctx.text s c s' c' ∧ Q a s' c' where
  of_ok hI hrun := by
    have hend := hyields hs
    rw [EndsFrom, hrun] at hend
    exact ⟨(hp.of_ok hI hrun).1, (hp.of_ok hI hrun).2, hend⟩

/-- What the parser yields is left by it. -/
theorem Leaves.of_yields {ctx : Context} {s : State} {c : Nat} {p : Parser α}
    {Q : α → State → Nat → Prop} [Keeps Steady p] (hs : Stands ctx.text s c)
    (hyields : p.Yields ctx s c Q) :
    p.Leaves Steady ctx s fun a s' => ∃ c', Onward ctx.text s c s' c' ∧ Q a s' c' := by
  have hp : p.Leaves Steady ctx s fun _ _ => True := .of_run fun _ _ _ _ => trivial
  apply (hp.with_yields hs hyields).mono
  intro a s' h
  exact h.2

theorem Upkept.of_idle {p : Parser α} (h : Idle p) : Upkept p := ⟨fun _ => .idle h⟩

instance : Upkept position := .of_idle position_looks.idle
instance : Upkept peek := .of_idle peek_looks.idle
instance (n : Nat) : Upkept (peekAt n) := .of_idle (peekAt_looks n).idle
instance : Upkept atEnd := .of_idle atEnd_looks.idle
instance : Upkept limitReached := .of_idle limitReached_looks.idle
instance : Upkept theText := .of_idle theText_looks.idle
instance : Upkept theOptions := .of_idle theOptions_looks.idle
instance : Upkept mark := .of_idle mark_looks.idle
instance : Upkept atString := .of_idle atString_looks.idle
instance : Upkept atNumber := .of_idle atNumber_looks.idle
instance : Upkept atIdentifier := .of_idle atIdentifier_looks.idle
instance (word : String) : Upkept (startsWith word) := .of_idle (startsWith_looks word).idle
instance (word : String) : Upkept (atWord word) := .of_idle (atWord_looks word).idle
instance (start : Nat) : Upkept (sliceFrom start) := .of_idle (sliceFrom_looks start).idle
instance (start : Nat) : Upkept (spanFrom start) := .of_idle (spanFrom_looks start).idle
instance (span : Span) : Upkept (newlineSince span) := .of_idle (newlineSince_looks span).idle
instance (quotes : Quotes) (i : Nat) : Upkept (poundsAt quotes i) :=
  .of_idle (poundsAt_looks quotes i).idle

instance : Upkept skip := ⟨fun _ => skip_upholds⟩
instance : Upkept takeDoc := ⟨fun _ => takeDoc_upholds⟩
instance (n : Nat) : Upkept (advance n) := ⟨fun _ => advance_upholds n⟩
instance (n : Nat) : Upkept (takeToken n) := ⟨fun _ => takeToken_upholds n⟩
instance (token : String) : Upkept (atToken token) := ⟨fun _ => atToken_upholds token⟩
instance (token : String) : Upkept (accept? token) := ⟨fun _ => accept?_upholds token⟩
instance (token : String) : Upkept (accept token) := ⟨fun _ => accept_upholds token⟩
instance (token : String) : Upkept (expect token) := ⟨fun _ => expect_upholds token⟩
instance (word : String) : Upkept (acceptKeyword word) := ⟨fun _ => acceptKeyword_upholds word⟩
instance (word : String) : Upkept (expectKeyword word) := ⟨fun _ => expectKeyword_upholds word⟩
instance : Upkept atAssign := ⟨fun _ => atAssign_upholds⟩
instance : Upkept identifier? := ⟨fun _ => identifier?_upholds⟩
instance (what : String) : Upkept (identifier what) := ⟨fun _ => identifier_upholds what⟩
instance (what : String) : Upkept (expectName what) := ⟨fun _ => expectName_upholds what⟩
instance (what : String) : Upkept (qualifiedName what) := ⟨fun _ => qualifiedName_upholds what⟩
instance (styleWarnings : Bool) : Upkept (number styleWarnings) :=
  ⟨fun _ => number_upholds styleWarnings⟩
instance (quotes : Quotes) (start : Nat) : Upkept (unicodeEscape quotes start) :=
  ⟨fun _ => unicodeEscape_upholds quotes start⟩
instance (opening : Span) (styleWarnings : Bool) : Upkept (openingLine opening styleWarnings) :=
  ⟨fun _ => openingLine_upholds opening styleWarnings⟩
instance : Upkept modifiers := ⟨fun _ => modifiers_upholds⟩
instance : Upkept variance := ⟨fun _ => variance_upholds⟩
instance : Upkept atPropertyHead := ⟨fun _ => atPropertyHead_upholds⟩
instance : Upkept atFieldAmend := ⟨fun _ => atFieldAmend_upholds⟩

end Parser

namespace Grammar

open PklSyntax.Parser

/-- The grammar upholds whatever its steps uphold. -/
class Upkept (g : Grammar) : Prop where
  upholds : ∀ U, g.Upholds U

instance (depth : Nat) : Upkept (nested depth) := ⟨fun U => upholds_nested U depth⟩

instance : Upkept full := ⟨upholds_full⟩

variable (g : Grammar) [g.Upkept]

instance : Parser.Upkept g.expr := ⟨fun U => (Upkept.upholds U).expr⟩
instance : Parser.Upkept g.type := ⟨fun U => (Upkept.upholds U).type⟩
instance : Parser.Upkept g.body := ⟨fun U => (Upkept.upholds U).body⟩
instance : Parser.Upkept g.params := ⟨fun U => (Upkept.upholds U).params⟩
instance (keyword : String) : Parser.Upkept (g.sourceString keyword) :=
  ⟨fun U => (Upkept.upholds U).sourceString keyword⟩
instance : Parser.Upkept g.expressionRule := ⟨fun U => (Upkept.upholds U).expressionRule⟩
instance : Parser.Upkept g.preamble := ⟨fun U => (Upkept.upholds U).preamble⟩
instance (before : Preamble) : Parser.Upkept (g.propertyRule before) :=
  ⟨fun U => (Upkept.upholds U).propertyRule before⟩
instance (before : Preamble) : Parser.Upkept (g.functionRule before) :=
  ⟨fun U => (Upkept.upholds U).functionRule before⟩
instance : Parser.Upkept g.entryValue := ⟨fun U => (Upkept.upholds U).entryValue⟩
instance : Parser.Upkept g.classMember := ⟨fun U => (Upkept.upholds U).classMember⟩
instance : Parser.Upkept g.propertyMember? := ⟨fun U => (Upkept.upholds U).propertyMember?⟩
instance : Parser.Upkept g.objectMember := ⟨fun U => (Upkept.upholds U).objectMember⟩
instance : Parser.Upkept g.declarationRule := ⟨fun U => (Upkept.upholds U).declarationRule⟩
instance : Parser.Upkept loopNames := ⟨fun _ => loopNames_upholds⟩
instance : Parser.Upkept (repeating prefixStep []) :=
  ⟨fun _ => repeating_upholds prefixStep_upholds _⟩
instance : Parser.Upkept readKind? := .of_idle readKind?_looks.idle
instance (start : Nat) : Parser.Upkept (skipMember start) := ⟨fun _ => skipMember_upholds start⟩

end Grammar

end PklSyntax
